import VadService.Lib.Window

set_option autoImplicit false

/-! # Big-endian bit strings

`toBits w n` are the `w` low bits of `n`, the highest first, and `ofBits` reads a bit string
back. A sequence of digits of one width is turned into digits of another width by writing
out its bits (`digitBits`) and cutting them into windows (`Window.windows`).
-/

namespace Bits

/-- The number a bit string stands for. -/
def ofBits : List Bool → ℕ := List.foldl (fun n b => 2 * n + b.toNat) 0

/-- The `w` low bits of `n`, the highest first. -/
def toBits : ℕ → ℕ → List Bool
  | 0, _ => []
  | w + 1, n => toBits w (n / 2) ++ [decide (n % 2 = 1)]

/-- The bits of a sequence of digits of width `w`. -/
def digitBits (w : ℕ) (l : List ℕ) : List Bool := l.flatMap (toBits w)

@[simp] theorem ofBits_nil : ofBits [] = 0 := rfl

theorem ofBits_append_singleton (l : List Bool) (b : Bool) :
    ofBits (l ++ [b]) = 2 * ofBits l + b.toNat := by
  simp [ofBits]

@[simp] theorem length_toBits (w n : ℕ) : (toBits w n).length = w := by
  induction w generalizing n with
  | zero => rfl
  | succ w ih => simp [toBits, ih]

/-- Reading back the low bits of a number. -/
theorem ofBits_toBits (w n : ℕ) : ofBits (toBits w n) = n % 2 ^ w := by
  induction w generalizing n with
  | zero => simp [toBits, Nat.mod_one]
  | succ w ih =>
      have hbit : (decide (n % 2 = 1)).toNat = n % 2 := by
        rcases Nat.mod_two_eq_zero_or_one n with h | h <;> simp [h]
      have hmod : n % 2 ^ (w + 1) = 2 * (n / 2 % 2 ^ w) + n % 2 := by
        rw [Nat.pow_succ', Nat.mod_mul, Nat.add_comm]
      rw [toBits, ofBits_append_singleton, ih, hbit, hmod]

/-- A bit string of a digit that is wide enough to hold it. -/
theorem ofBits_toBits_of_lt {w n : ℕ} (h : n < 2 ^ w) : ofBits (toBits w n) = n := by
  rw [ofBits_toBits, Nat.mod_eq_of_lt h]

/-- Splitting a digit into a high and a low part. -/
theorem toBits_add (v w n : ℕ) :
    toBits (v + w) n = toBits v (n / 2 ^ w) ++ toBits w (n % 2 ^ w) := by
  induction w generalizing n with
  | zero => simp [toBits]
  | succ w ih =>
      have hdiv : n / 2 ^ (w + 1) = n / 2 / 2 ^ w := by rw [Nat.pow_succ', Nat.div_div_eq_div_mul]
      have hmod : n % 2 ^ (w + 1) / 2 = n / 2 % 2 ^ w := by
        rw [Nat.pow_succ', Nat.mod_mul_right_div_self]
      have hlow : n % 2 ^ (w + 1) % 2 = n % 2 := Nat.mod_mod_of_dvd n ⟨2 ^ w, Nat.pow_succ'⟩
      rw [← Nat.add_assoc, toBits, ih, toBits, hdiv, hmod, hlow, List.append_assoc]

/-- The bits of a digit put together from two parts. -/
theorem toBits_mul_add {v w y : ℕ} (x : ℕ) (h : y < 2 ^ w) :
    toBits (v + w) (x * 2 ^ w + y) = toBits v x ++ toBits w y := by
  have hdiv : (x * 2 ^ w + y) / 2 ^ w = x := by
    rw [Nat.mul_comm, Nat.mul_add_div (by positivity), Nat.div_eq_of_lt h, Nat.add_zero]
  have hmod : (x * 2 ^ w + y) % 2 ^ w = y := by
    rw [Nat.mul_comm, Nat.mul_add_mod, Nat.mod_eq_of_lt h]
  calc toBits (v + w) (x * 2 ^ w + y)
      = toBits v ((x * 2 ^ w + y) / 2 ^ w) ++ toBits w ((x * 2 ^ w + y) % 2 ^ w) :=
        toBits_add _ _ _
    _ = toBits v x ++ toBits w y := by rw [hdiv, hmod]

@[simp] theorem toBits_zero (w : ℕ) : toBits w 0 = List.replicate w false := by
  induction w with
  | zero => rfl
  | succ w ih => rw [toBits, Nat.zero_div, ih, List.replicate_succ']; rfl

@[simp] theorem digitBits_nil (w : ℕ) : digitBits w [] = [] := rfl

@[simp] theorem digitBits_cons (w n : ℕ) (l : List ℕ) :
    digitBits w (n :: l) = toBits w n ++ digitBits w l := rfl

@[simp] theorem digitBits_append (w : ℕ) (l l' : List ℕ) :
    digitBits w (l ++ l') = digitBits w l ++ digitBits w l' := List.flatMap_append

@[simp] theorem length_digitBits (w : ℕ) (l : List ℕ) :
    (digitBits w l).length = l.length * w := by
  induction l with
  | nil => simp
  | cons n l ih => rw [digitBits_cons, List.length_append, length_toBits, ih, List.length_cons,
      Nat.succ_mul, Nat.add_comm]

theorem digitBits_take (w k : ℕ) (l : List ℕ) :
    digitBits w (l.take k) = (digitBits w l).take (k * w) := by
  induction l generalizing k with
  | nil => simp
  | cons n l ih =>
      cases k with
      | zero => simp
      | succ k =>
          have hlen : k.succ * w = (toBits w n).length + k * w := by
            rw [length_toBits, Nat.succ_mul, Nat.add_comm]
          rw [List.take_succ_cons, digitBits_cons, digitBits_cons, ih, hlen,
            List.take_length_add_append]

/-- **Cutting the bits of a sequence of digits gives back the digits**, whatever incomplete
digit follows. -/
theorem windows_digitBits {w : ℕ} (hw : 0 < w) {l : List ℕ} (hl : ∀ n ∈ l, n < 2 ^ w)
    {rest : List Bool} (hrest : rest.length < w) :
    (Window.windows w (digitBits w l ++ rest)).map ofBits = l := by
  have hfull : ∀ v ∈ l.map (toBits w), v.length = w := by
    intro v hv
    obtain ⟨n, -, rfl⟩ := List.mem_map.mp hv
    exact length_toBits w n
  have hflat : digitBits w l = (l.map (toBits w)).flatten := List.flatMap_def
  rw [hflat, Window.windows_append hw, Window.windows_flatten hw hfull,
    Window.leftover_flatten hw hfull, List.nil_append, Window.windows_of_lt hrest,
    List.append_nil, List.map_map]
  calc l.map (ofBits ∘ toBits w) = l.map id :=
        List.map_congr_left fun n hn => ofBits_toBits_of_lt (hl n hn)
    _ = l := List.map_id l

end Bits
