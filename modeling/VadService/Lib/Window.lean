import Mathlib.Data.List.Basic
import Mathlib.Data.List.DropRight
import Mathlib.Tactic

set_option autoImplicit false

/-! # Cutting a stream into windows

`windows W l` are the consecutive full windows of width `W` of `l`, and `leftover W l` the
rest. Cutting a stream that arrives in pieces gives the same windows as cutting it at once,
as long as the leftover of each piece is put in front of the next one (`windows_append`).
-/

namespace Window

variable {α β : Type}

/-- The full windows of width `W` of `l`, in order. -/
def windows (W : ℕ) (l : List α) : List (List α) :=
  (List.range (l.length / W)).map fun k => (l.drop (k * W)).take W

/-- What is left of `l` after its last full window. -/
def leftover (W : ℕ) (l : List α) : List α := l.drop (l.length / W * W)

theorem length_windows (W : ℕ) (l : List α) : (windows W l).length = l.length / W := by
  simp [windows]

theorem windows_of_lt {W : ℕ} {l : List α} (h : l.length < W) : windows W l = [] := by
  simp [windows, Nat.div_eq_of_lt h]

theorem leftover_of_lt {W : ℕ} {l : List α} (h : l.length < W) : leftover W l = l := by
  simp [leftover, Nat.div_eq_of_lt h]

/-- The number of windows left after dropping the first one. -/
theorem length_drop_div {W : ℕ} (hW : 0 < W) {l : List α} (h : W ≤ l.length) :
    l.length / W = (l.drop W).length / W + 1 := by
  rw [List.length_drop, ← Nat.div_eq_sub_div hW h]

theorem windows_cons {W : ℕ} (hW : 0 < W) {l : List α} (h : W ≤ l.length) :
    windows W l = l.take W :: windows W (l.drop W) := by
  unfold windows
  rw [length_drop_div hW h, List.range_succ_eq_map, List.map_cons, List.map_map]
  simp only [Nat.zero_mul, List.drop_zero, List.cons.injEq, true_and]
  apply List.map_congr_left
  intro k _
  simp only [Function.comp_apply, List.drop_drop]
  congr 2
  rw [Nat.succ_mul]
  omega

theorem leftover_cons {W : ℕ} (hW : 0 < W) {l : List α} (h : W ≤ l.length) :
    leftover W l = leftover W (l.drop W) := by
  unfold leftover
  rw [List.drop_drop]
  congr 1
  rw [length_drop_div hW h, Nat.succ_mul]
  omega

/-- Induction on a stream, one window at a time. -/
theorem induction {W : ℕ} (hW : 0 < W) {P : List α → Prop}
    (short : ∀ l : List α, l.length < W → P l)
    (step : ∀ l : List α, W ≤ l.length → P (l.drop W) → P l) (l : List α) : P l := by
  induction hn : l.length using Nat.strong_induction_on generalizing l with
  | _ n ih =>
      rcases Nat.lt_or_ge l.length W with h | h
      · exact short l h
      · refine step l h (ih (l.drop W).length ?_ _ rfl)
        rw [List.length_drop]
        omega

theorem length_leftover (W : ℕ) (l : List α) : (leftover W l).length = l.length % W := by
  rw [leftover, List.length_drop]
  have h := Nat.div_add_mod' l.length W
  omega

theorem length_leftover_lt {W : ℕ} (hW : 0 < W) (l : List α) : (leftover W l).length < W := by
  rw [length_leftover]
  exact Nat.mod_lt _ hW

theorem length_of_mem_windows {W : ℕ} {l w : List α} (h : w ∈ windows W l) : w.length = W := by
  simp only [windows, List.mem_map, List.mem_range] at h
  obtain ⟨k, hk, rfl⟩ := h
  have hle : (k + 1) * W ≤ l.length :=
    le_trans (Nat.mul_le_mul_right W hk) (Nat.div_mul_le_self _ _)
  rw [Nat.succ_mul] at hle
  rw [List.length_take, List.length_drop]
  omega

/-- **Windows of a stream that arrives in pieces.** -/
theorem windows_append {W : ℕ} (hW : 0 < W) (a b : List α) :
    windows W (a ++ b) = windows W a ++ windows W (leftover W a ++ b) := by
  induction a using induction hW with
  | short a h => rw [windows_of_lt h, leftover_of_lt h, List.nil_append]
  | step a h ih =>
      have hab : W ≤ (a ++ b).length := by
        rw [List.length_append]
        omega
      calc windows W (a ++ b) = a.take W :: windows W (a.drop W ++ b) := by
            rw [windows_cons hW hab, List.take_append_of_le_length h,
              List.drop_append_of_le_length h]
        _ = a.take W :: (windows W (a.drop W) ++ windows W (leftover W (a.drop W) ++ b)) := by
            rw [ih]
        _ = windows W a ++ windows W (leftover W a ++ b) := by
            rw [windows_cons hW h, leftover_cons hW h, List.cons_append]

theorem leftover_append {W : ℕ} (hW : 0 < W) (a b : List α) :
    leftover W (a ++ b) = leftover W (leftover W a ++ b) := by
  induction a using induction hW with
  | short a h => rw [leftover_of_lt h]
  | step a h ih =>
      have hab : W ≤ (a ++ b).length := by
        rw [List.length_append]
        omega
      calc leftover W (a ++ b) = leftover W (a.drop W ++ b) := by
            rw [leftover_cons hW hab, List.drop_append_of_le_length h]
        _ = leftover W (leftover W (a.drop W) ++ b) := ih
        _ = leftover W (leftover W a ++ b) := by rw [leftover_cons hW h]

/-- The windows and the leftover make up the stream. -/
theorem flatten_windows {W : ℕ} (hW : 0 < W) (l : List α) :
    (windows W l).flatten = l.take (l.length / W * W) := by
  induction l using induction hW with
  | short l h => simp [windows_of_lt h, Nat.div_eq_of_lt h]
  | step l h ih =>
      have htake : l.length / W * W = W + (l.drop W).length / W * W := by
        rw [length_drop_div hW h, Nat.succ_mul]
        omega
      calc (windows W l).flatten = l.take W ++ (windows W (l.drop W)).flatten := by
            rw [windows_cons hW h, List.flatten_cons]
        _ = l.take W ++ (l.drop W).take ((l.drop W).length / W * W) := by rw [ih]
        _ = l.take (l.length / W * W) := by rw [htake, List.take_add]

theorem flatten_windows_append {W : ℕ} (hW : 0 < W) (l : List α) :
    (windows W l).flatten ++ leftover W l = l := by
  rw [flatten_windows hW, leftover, List.take_append_drop]

/-- A stream made of full windows is cut into these windows. -/
theorem windows_flatten {W : ℕ} (hW : 0 < W) {ws : List (List α)}
    (h : ∀ w ∈ ws, w.length = W) : windows W ws.flatten = ws := by
  induction ws with
  | nil => simp [windows]
  | cons w ws ih =>
      have hw : w.length = W := h w (by simp)
      have hle : W ≤ (w ++ ws.flatten).length := by
        rw [List.length_append]
        omega
      calc windows W (w :: ws).flatten = w :: windows W ws.flatten := by
            rw [List.flatten_cons, windows_cons hW hle, List.take_left' hw, List.drop_left' hw]
        _ = w :: ws := by rw [ih fun v hv => h v (List.mem_cons_of_mem w hv)]

theorem windows_singleton {W : ℕ} (hW : 0 < W) {w : List α} (h : w.length = W) :
    windows W w = [w] := by
  have hall : ∀ v ∈ [w], v.length = W := by simpa using h
  simpa using windows_flatten hW hall

theorem leftover_flatten {W : ℕ} (hW : 0 < W) {ws : List (List α)}
    (h : ∀ w ∈ ws, w.length = W) : leftover W ws.flatten = [] := by
  have hlen := congrArg List.length (flatten_windows_append hW ws.flatten)
  rw [windows_flatten hW h, List.length_append] at hlen
  exact List.eq_nil_of_length_eq_zero (by omega)

/-- The pieces of a list between the values of a monotone function at equal distances. -/
theorem flatten_pieces (l : List α) {c : ℕ → ℕ} (hc : Monotone c) (W n i : ℕ) :
    ((List.range' i n W).map fun j => (l.drop (c j)).take (c (j + W) - c j)).flatten
      = (l.drop (c i)).take (c (i + W * n) - c i) := by
  induction n generalizing i with
  | zero => simp
  | succ n ih =>
      have hstep : c i ≤ c (i + W) := hc (Nat.le_add_right i W)
      have hrest : c (i + W) ≤ c (i + W * (n + 1)) := hc (by rw [Nat.mul_succ]; omega)
      have hend : i + W + W * n = i + W * (n + 1) := by
        rw [Nat.mul_succ]
        omega
      have hsplit : c (i + W * (n + 1)) - c i
          = c (i + W) - c i + (c (i + W * (n + 1)) - c (i + W)) := by omega
      rw [List.range'_succ, List.map_cons, List.flatten_cons, ih, hend, hsplit, List.take_add,
        List.drop_drop, Nat.add_sub_cancel' hstep]

/-! ## The end of a stream -/

/-- The last samples after a window has arrived. -/
theorem rtake_append (l w : List α) (n : ℕ) :
    (l ++ w).rtake (n + w.length) = l.rtake n ++ w := by
  have hle : (l ++ w).length - (n + w.length) = l.length - n := by
    rw [List.length_append]
    omega
  rw [List.rtake, hle, List.drop_append_of_le_length (Nat.sub_le _ _), List.rtake]

/-- Keeping the last samples twice is keeping the smaller number of them. -/
theorem rtake_rtake (l : List α) {m n : ℕ} (h : m ≤ n) : (l.rtake n).rtake m = l.rtake m := by
  unfold List.rtake
  rw [List.length_drop, List.drop_drop]
  congr 1
  omega

end Window
