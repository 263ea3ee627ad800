import Mathlib.Data.Int.Log
import Mathlib.Data.Rat.Floor
import Mathlib.Tactic

set_option autoImplicit false

/-! # Binary floating-point formats

A format is given by a precision, the exponent of its smallest quantum and a bound on its
magnitudes. Its finite values are the rationals `m * 2^e` with a significand below `2^prec`;
a `Value` is such a rational, an infinity or a NaN. Every operation computes the exact
rational result and rounds it to the nearest value, ties to even (`round`).

The sign of a zero is not represented: no comparison can see it.

The fact the order proofs rest on is that rounding never crosses a representable number
(`roundRat_le`), so subtracting something nonnegative never raises a value (`lt_of_lt_sub`).
-/

/-- A binary format: `prec` significand bits, quanta from `2^emin` on, magnitudes below
`2^emax`. -/
structure FloatFormat where
  prec : ℕ
  emin : ℤ
  emax : ℤ
  prec_pos : 0 < prec

namespace FloatFormat

/-- The rationals a format represents. -/
def Representable (F : FloatFormat) (q : ℚ) : Prop :=
  (∃ m e : ℤ, q = m * 2 ^ e ∧ |m| < 2 ^ F.prec ∧ F.emin ≤ e) ∧ |q| < 2 ^ F.emax

/-! ## Rounding -/

/-- The nearest integer, the even one at a midpoint. -/
def roundEven (x : ℚ) : ℤ :=
  if x - ⌊x⌋ < 1 / 2 then ⌊x⌋
  else if 1 / 2 < x - ⌊x⌋ then ⌊x⌋ + 1
  else ⌊x⌋ + ⌊x⌋ % 2

/-- The exponent of the quantum a format has around `q`. -/
def ulpExp (F : FloatFormat) (q : ℚ) : ℤ := max (Int.log 2 |q| - (F.prec - 1)) F.emin

/-- The nearest multiple of the quantum around `q`, the exponent range being unbounded. -/
def roundRat (F : FloatFormat) (q : ℚ) : ℚ := roundEven (q / 2 ^ F.ulpExp q) * 2 ^ F.ulpExp q

theorem roundEven_intCast (k : ℤ) : roundEven (k : ℚ) = k := by
  simp [roundEven]

theorem roundEven_bounds (x : ℚ) : ⌊x⌋ ≤ roundEven x ∧ roundEven x ≤ ⌊x⌋ + 1 := by
  unfold roundEven
  split_ifs <;> omega

theorem roundEven_le {x : ℚ} {k : ℤ} (h : x ≤ k) : roundEven x ≤ k := by
  rcases h.lt_or_eq with hlt | rfl
  · have h1 := (roundEven_bounds x).2
    have h2 : ⌊x⌋ < k := Int.floor_lt.mpr hlt
    omega
  · rw [roundEven_intCast]

theorem le_roundEven {x : ℚ} {k : ℤ} (h : (k : ℚ) ≤ x) : k ≤ roundEven x :=
  le_trans (Int.le_floor.mpr h) (roundEven_bounds x).1

/-- Rounding goes down by half a unit at most. -/
theorem sub_half_le_roundEven (x : ℚ) : x - 1 / 2 ≤ roundEven x := by
  have hlt := Int.lt_floor_add_one x
  unfold roundEven
  split_ifs with h1 h2
  · linarith
  · push_cast
    linarith
  · -- a midpoint, and the floor is no more than half a unit below it
    have hmod : (0 : ℚ) ≤ (⌊x⌋ % 2 : ℤ) := by exact_mod_cast Int.emod_nonneg _ (by norm_num)
    push_cast at hmod ⊢
    linarith

variable {F : FloatFormat}

/-- Rounding goes down by half a quantum at most. -/
theorem sub_half_le_roundRat (q : ℚ) : q - 2 ^ F.ulpExp q / 2 ≤ F.roundRat q := by
  have hpos : (0 : ℚ) < 2 ^ F.ulpExp q := by positivity
  have h := mul_le_mul_of_nonneg_right (sub_half_le_roundEven (q / 2 ^ F.ulpExp q)) hpos.le
  rw [sub_mul, div_mul_cancel₀ _ hpos.ne'] at h
  rw [roundRat]
  linarith

theorem roundRat_zero : F.roundRat 0 = 0 := by
  have h := roundEven_intCast 0
  simp only [Int.cast_zero] at h
  simp [roundRat, h]

/-- Rounding stays below every multiple of the quantum that is above the argument. -/
theorem roundRat_le_of_multiple {x b : ℚ} (h : x ≤ b) {k : ℤ} (hb : b = k * 2 ^ F.ulpExp x) :
    F.roundRat x ≤ b := by
  have hpos : (0 : ℚ) < 2 ^ F.ulpExp x := by positivity
  have hk : x / 2 ^ F.ulpExp x ≤ k := by
    rw [div_le_iff₀ hpos, ← hb]
    exact h
  rw [hb, roundRat]
  exact mul_le_mul_of_nonneg_right (by exact_mod_cast roundEven_le hk) hpos.le

/-- A power `2^e` is a whole multiple of every smaller power. -/
theorem two_zpow_eq_mul {u e : ℤ} (h : u ≤ e) : ∃ k : ℤ, (2 : ℚ) ^ e = k * 2 ^ u := by
  refine ⟨2 ^ (e - u).toNat, ?_⟩
  have hn : ((e - u).toNat : ℤ) = e - u := Int.toNat_of_nonneg (by omega)
  push_cast
  calc (2 : ℚ) ^ e = 2 ^ (e - u) * 2 ^ u := by
        rw [← zpow_add₀ (by norm_num : (2 : ℚ) ≠ 0), sub_add_cancel]
    _ = 2 ^ (e - u).toNat * 2 ^ u := by rw [← zpow_natCast, hn]

/-- A representable number is a multiple of its own quantum, and of every smaller one. -/
theorem Representable.multiple {t : ℚ} (ht : F.Representable t) {u : ℤ}
    (hu : u ≤ F.ulpExp t) : ∃ k : ℤ, t = k * 2 ^ u := by
  obtain ⟨⟨m, e, rfl, hm, he⟩, -⟩ := ht
  by_cases hz : m = 0
  · exact ⟨0, by simp [hz]⟩
  have h2 : (0 : ℚ) < 2 ^ e := by positivity
  have habs : |(m : ℚ) * 2 ^ e| = |(m : ℚ)| * 2 ^ e := by rw [abs_mul, abs_of_pos h2]
  have hlt : |(m : ℚ) * 2 ^ e| < 2 ^ ((F.prec : ℤ) + e) := by
    rw [habs, zpow_add₀ (by norm_num : (2 : ℚ) ≠ 0), zpow_natCast]
    exact mul_lt_mul_of_pos_right (by exact_mod_cast hm) h2
  have hpos : 0 < |(m : ℚ) * 2 ^ e| := by
    rw [habs]
    exact mul_pos (abs_pos.mpr (by exact_mod_cast hz)) h2
  have hlog : Int.log 2 |(m : ℚ) * 2 ^ e| < F.prec + e :=
    (Int.lt_zpow_iff_log_lt (by norm_num) hpos).mp (by exact_mod_cast hlt)
  have hue : u ≤ e := by
    have : F.ulpExp ((m : ℚ) * 2 ^ e) ≤ e := by
      unfold ulpExp
      omega
    omega
  obtain ⟨k, hk⟩ := two_zpow_eq_mul hue
  exact ⟨m * k, by rw [hk]; push_cast; ring⟩

/-- Representable numbers are not moved by rounding. -/
theorem Representable.roundRat_eq {t : ℚ} (ht : F.Representable t) : F.roundRat t = t := by
  obtain ⟨k, hk⟩ := ht.multiple le_rfl
  have hpos : (0 : ℚ) < 2 ^ F.ulpExp t := by positivity
  have hdiv : t / 2 ^ F.ulpExp t = k := by
    rw [div_eq_iff hpos.ne']
    exact hk
  rw [roundRat, hdiv, roundEven_intCast]
  exact hk.symm

theorem ulpExp_mono {x t : ℚ} (hx : x ≠ 0) (h : |x| ≤ |t|) : F.ulpExp x ≤ F.ulpExp t := by
  have := Int.log_mono_right (b := 2) (abs_pos.mpr hx) h
  unfold ulpExp
  omega

/-- **Rounding never crosses a representable number.** -/
theorem roundRat_le {x t : ℚ} (ht : F.Representable t) (h : x ≤ t) : F.roundRat x ≤ t := by
  rcases lt_trichotomy x 0 with hx | rfl | hx
  · rcases le_or_gt 0 t with h0 | hneg
    · -- a negative argument rounds to at most zero
      exact le_trans (roundRat_le_of_multiple (k := 0) hx.le (by simp)) h0
    · by_cases hu : F.ulpExp x ≤ F.ulpExp t
      · obtain ⟨k, hk⟩ := ht.multiple hu
        exact roundRat_le_of_multiple h hk
      · -- the quantum shrinks between `x` and `t`: a power of two separates them
        have hlog : Int.log 2 |t| + 1 ≤ Int.log 2 |x| := by
          unfold ulpExp at hu
          omega
        have hbx : (2 : ℚ) ^ Int.log 2 |x| ≤ |x| := by
          exact_mod_cast Int.zpow_log_le_self (b := 2) (by norm_num) (abs_pos.mpr hx.ne)
        have htb : |t| < (2 : ℚ) ^ (Int.log 2 |t| + 1) := by
          exact_mod_cast Int.lt_zpow_succ_log_self (b := 2) (by norm_num) |t|
        have hpow : (2 : ℚ) ^ (Int.log 2 |t| + 1) ≤ 2 ^ Int.log 2 |x| :=
          zpow_le_zpow_right₀ (by norm_num) hlog
        rw [abs_of_neg hx] at hbx
        rw [abs_of_neg hneg] at htb
        have hue : F.ulpExp x ≤ Int.log 2 |x| := by
          have := F.prec_pos
          unfold ulpExp at hu ⊢
          omega
        obtain ⟨k, hk⟩ := two_zpow_eq_mul hue
        have hround : F.roundRat x ≤ -2 ^ Int.log 2 |x| :=
          roundRat_le_of_multiple (k := -k) (by rw [abs_of_neg hx]; linarith)
            (by rw [hk]; push_cast; ring)
        rw [abs_of_neg hx] at hround
        rw [abs_of_neg hneg, abs_of_neg hx] at hpow
        linarith
  · rw [roundRat_zero]
    exact h
  · -- the quantum grows with the magnitude
    have habs : |x| ≤ |t| := by
      rw [abs_of_pos hx, abs_of_pos (by linarith)]
      exact h
    obtain ⟨k, hk⟩ := ht.multiple (ulpExp_mono hx.ne' habs)
    exact roundRat_le_of_multiple h hk

/-- A rounded number is representable unless it overflows. -/
theorem representable_roundRat {q : ℚ} (h : |F.roundRat q| < 2 ^ F.emax) :
    F.Representable (F.roundRat q) := by
  refine ⟨?_, h⟩
  have hpos : (0 : ℚ) < 2 ^ F.ulpExp q := by positivity
  set k := roundEven (q / 2 ^ F.ulpExp q) with hk
  have hlt : |q| < 2 ^ ((F.prec : ℤ) + F.ulpExp q) := by
    have h1 : |q| < (2 : ℚ) ^ (Int.log 2 |q| + 1) := by
      exact_mod_cast Int.lt_zpow_succ_log_self (b := 2) (by norm_num) |q|
    have h2 : (2 : ℚ) ^ (Int.log 2 |q| + 1) ≤ 2 ^ ((F.prec : ℤ) + F.ulpExp q) := by
      apply zpow_le_zpow_right₀ (by norm_num)
      unfold ulpExp
      omega
    exact lt_of_lt_of_le h1 h2
  rw [zpow_add₀ (by norm_num : (2 : ℚ) ≠ 0), zpow_natCast] at hlt
  have hq := abs_lt.mp hlt
  have hup : k ≤ 2 ^ F.prec := by
    apply roundEven_le
    rw [div_le_iff₀ hpos]
    push_cast
    exact hq.2.le
  have hlo : -2 ^ F.prec ≤ k := by
    apply le_roundEven
    rw [le_div_iff₀ hpos]
    push_cast
    linarith [hq.1]
  have hprec : (1 : ℤ) < 2 ^ F.prec := one_lt_pow₀ (by norm_num) F.prec_pos.ne'
  have hshift : (2 : ℚ) ^ ((F.prec : ℤ) + F.ulpExp q) = 2 ^ F.prec * 2 ^ F.ulpExp q := by
    rw [zpow_add₀ (by norm_num : (2 : ℚ) ≠ 0), zpow_natCast]
  have hemin : F.emin ≤ F.ulpExp q := le_max_right _ _
  rcases hup.lt_or_eq with hltU | heqU
  · rcases hlo.lt_or_eq with hltL | heqL
    · exact ⟨k, F.ulpExp q, rfl, abs_lt.mpr ⟨hltL, hltU⟩, hemin⟩
    · -- the significand reached `-2^prec`: one bit at a larger exponent
      refine ⟨-1, F.prec + F.ulpExp q, ?_, by simpa using hprec, by omega⟩
      rw [hshift, roundRat, ← hk, ← heqL]
      push_cast
      ring
  · refine ⟨1, F.prec + F.ulpExp q, ?_, by simpa using hprec, by omega⟩
    rw [hshift, roundRat, ← hk, heqU]
    push_cast
    ring

/-! ## Rounding is monotone -/

/-- Rounding goes up by half a unit at most. -/
theorem roundEven_le_add_half (x : ℚ) : (roundEven x : ℚ) ≤ x + 1 / 2 := by
  have hle := Int.floor_le x
  unfold roundEven
  split_ifs with h1 h2
  · linarith
  · push_cast
    linarith
  · have hmod : ((⌊x⌋ % 2 : ℤ) : ℚ) ≤ 1 := by
      exact_mod_cast Int.lt_add_one_iff.mp (Int.emod_lt_of_pos ⌊x⌋ (by norm_num : (0 : ℤ) < 2))
    push_cast at hmod ⊢
    linarith

theorem roundEven_mono {x y : ℚ} (h : x ≤ y) : roundEven x ≤ roundEven y := by
  rcases (Int.floor_mono h).lt_or_eq with hlt | heq
  · calc roundEven x ≤ ⌊x⌋ + 1 := (roundEven_bounds x).2
      _ ≤ ⌊y⌋ := hlt
      _ ≤ roundEven y := (roundEven_bounds y).1
  · -- between the same integers, only the fraction grows
    unfold roundEven
    rw [heq]
    have hmod := Int.emod_two_eq_zero_or_one ⌊y⌋
    split_ifs
    all_goals first | omega | linarith

/-- Rounding goes up or down by half a quantum at most. -/
theorem abs_roundRat_sub_le (q : ℚ) : |F.roundRat q - q| ≤ 2 ^ F.ulpExp q / 2 := by
  have hpos : (0 : ℚ) < 2 ^ F.ulpExp q := by positivity
  have hup := mul_le_mul_of_nonneg_right (roundEven_le_add_half (q / 2 ^ F.ulpExp q)) hpos.le
  rw [add_mul, div_mul_cancel₀ _ hpos.ne', ← roundRat] at hup
  have hdown := sub_half_le_roundRat (F := F) q
  rw [abs_le]
  constructor <;> linarith

/-- **The relative error** is half a unit of the last place at most, if the quantum is not the
smallest one. -/
theorem abs_roundRat_sub_le_div {q : ℚ} (hq : 0 < q)
    (hnormal : F.emin ≤ Int.log 2 q - (F.prec - 1)) :
    |F.roundRat q - q| ≤ q / 2 ^ F.prec := by
  have hulp : F.ulpExp q = Int.log 2 q + (1 - F.prec) := by
    rw [ulpExp, abs_of_pos hq, max_eq_left hnormal]
    ring
  have hlog : (2 : ℚ) ^ Int.log 2 q ≤ q := by
    exact_mod_cast Int.zpow_log_le_self (b := 2) (by norm_num) hq
  calc |F.roundRat q - q| ≤ 2 ^ F.ulpExp q / 2 := abs_roundRat_sub_le q
    _ = 2 ^ Int.log 2 q / 2 ^ F.prec := by
        rw [hulp, zpow_add₀ (by norm_num : (2 : ℚ) ≠ 0), zpow_sub₀ (by norm_num : (2 : ℚ) ≠ 0),
          zpow_natCast, zpow_one]
        ring
    _ ≤ q / 2 ^ F.prec := by gcongr

/-- Rounding stays above every multiple of the quantum that is below the argument. -/
theorem le_roundRat_of_multiple {x b : ℚ} (h : b ≤ x) {k : ℤ} (hb : b = k * 2 ^ F.ulpExp x) :
    b ≤ F.roundRat x := by
  have hpos : (0 : ℚ) < 2 ^ F.ulpExp x := by positivity
  have hk : k ≤ x / 2 ^ F.ulpExp x := by
    rw [le_div_iff₀ hpos, ← hb]
    exact h
  rw [hb, roundRat]
  exact mul_le_mul_of_nonneg_right (by exact_mod_cast le_roundEven hk) hpos.le

theorem roundRat_nonneg {x : ℚ} (h : 0 ≤ x) : 0 ≤ F.roundRat x :=
  le_roundRat_of_multiple (k := 0) h (by simp)

/-- **Rounding is monotone** on the nonnegative numbers. -/
theorem roundRat_mono {x y : ℚ} (h0 : 0 ≤ x) (h : x ≤ y) : F.roundRat x ≤ F.roundRat y := by
  rcases h0.eq_or_lt with rfl | hx
  · rw [roundRat_zero]
    exact roundRat_nonneg h
  have hy : 0 < y := lt_of_lt_of_le hx h
  have habs : |x| ≤ |y| := by rwa [abs_of_pos hx, abs_of_pos hy]
  rcases (ulpExp_mono (F := F) hx.ne' habs).lt_or_eq with hlt | heq
  · -- the quantum grows between `x` and `y`: a power of two separates them
    have hlogs : Int.log 2 x + 1 ≤ Int.log 2 y := by
      rw [ulpExp, ulpExp, abs_of_pos hx, abs_of_pos hy] at hlt
      omega
    have hxlog : x < (2 : ℚ) ^ (Int.log 2 x + 1) := by
      exact_mod_cast Int.lt_zpow_succ_log_self (b := 2) (by norm_num) x
    have hylog : (2 : ℚ) ^ Int.log 2 y ≤ y := by
      exact_mod_cast Int.zpow_log_le_self (b := 2) (by norm_num) hy
    have hpow : (2 : ℚ) ^ (Int.log 2 x + 1) ≤ 2 ^ Int.log 2 y :=
      zpow_le_zpow_right₀ (by norm_num) hlogs
    have hquantum : F.ulpExp y ≤ Int.log 2 y := by
      have hprec := F.prec_pos
      rw [ulpExp, ulpExp, abs_of_pos hx, abs_of_pos hy] at hlt
      rw [ulpExp, abs_of_pos hy]
      omega
    obtain ⟨k, hk⟩ := two_zpow_eq_mul hquantum
    obtain ⟨j, hj⟩ := two_zpow_eq_mul (hlt.le.trans hquantum)
    calc F.roundRat x ≤ 2 ^ Int.log 2 y :=
          roundRat_le_of_multiple (hxlog.le.trans hpow) hj
      _ ≤ F.roundRat y := le_roundRat_of_multiple hylog hk
  · rw [roundRat, roundRat, heq]
    have hpos : (0 : ℚ) < 2 ^ F.ulpExp y := by positivity
    have hround : roundEven (x / 2 ^ F.ulpExp y) ≤ roundEven (y / 2 ^ F.ulpExp y) :=
      roundEven_mono (div_le_div_of_nonneg_right h hpos.le)
    exact mul_le_mul_of_nonneg_right (by exact_mod_cast hround) hpos.le

/-! ## Values -/

/-- A value of the format: a representable rational, a signed infinity (`true` for the
negative one) or a NaN. -/
inductive Value (F : FloatFormat) where
  | nan
  | inf (neg : Bool)
  | fin (q : ℚ) (h : F.Representable q)

/-- The position of a value on the extended rational line; a NaN has none. -/
def Value.pos : F.Value → Option (WithBot (WithTop ℚ))
  | .nan => none
  | .inf true => some ⊥
  | .inf false => some ((⊤ : WithTop ℚ) : WithBot (WithTop ℚ))
  | .fin q _ => some ((q : WithTop ℚ) : WithBot (WithTop ℚ))

/-- `x < y`, false when either is a NaN. -/
def Value.lt (x y : F.Value) : Bool :=
  match x.pos, y.pos with
  | some a, some b => decide (a < b)
  | _, _ => false

/-- `x <= y`, false when either is a NaN. -/
def Value.le (x y : F.Value) : Bool :=
  match x.pos, y.pos with
  | some a, some b => decide (a ≤ b)
  | _, _ => false

/-- The nearest value; a rounded magnitude from `2^emax` on overflows to an infinity. -/
def round (F : FloatFormat) (q : ℚ) : F.Value :=
  if h : |F.roundRat q| < 2 ^ F.emax then .fin (F.roundRat q) (representable_roundRat h)
  else .inf (decide (q < 0))

namespace Value

def add : F.Value → F.Value → F.Value
  | .nan, _ => .nan
  | _, .nan => .nan
  | .inf s, .inf t => if s = t then .inf s else .nan
  | .inf s, .fin _ _ => .inf s
  | .fin _ _, .inf t => .inf t
  | .fin p _, .fin q _ => F.round (p + q)

def sub : F.Value → F.Value → F.Value
  | .nan, _ => .nan
  | _, .nan => .nan
  | .inf s, .inf t => if s = t then .nan else .inf s
  | .inf s, .fin _ _ => .inf s
  | .fin _ _, .inf t => .inf (!t)
  | .fin p _, .fin q _ => F.round (p - q)

def mul : F.Value → F.Value → F.Value
  | .nan, _ => .nan
  | _, .nan => .nan
  | .inf s, .inf t => .inf (xor s t)
  | .inf s, .fin q _ => if q = 0 then .nan else .inf (xor s (decide (q < 0)))
  | .fin p _, .inf t => if p = 0 then .nan else .inf (xor (decide (p < 0)) t)
  | .fin p _, .fin q _ => F.round (p * q)

/-- Division by a nonzero rational. -/
def divRat : F.Value → ℚ → F.Value
  | .nan, _ => .nan
  | .inf s, q => .inf (xor s (decide (q < 0)))
  | .fin p _, q => F.round (p / q)

/-- Division; a zero below counts as positive. -/
def div : F.Value → F.Value → F.Value
  | .nan, _ => .nan
  | _, .nan => .nan
  | .inf _, .inf _ => .nan
  | .inf s, .fin q _ => .inf (xor s (decide (q < 0)))
  | .fin _ _, .inf _ => F.round 0
  | .fin p _, .fin q _ =>
      if q = 0 then if p = 0 then .nan else .inf (decide (p < 0)) else F.round (p / q)

@[simp] theorem pos_fin (q : ℚ) (h : F.Representable q) :
    (Value.fin q h).pos = some ((q : WithTop ℚ) : WithBot (WithTop ℚ)) := rfl

@[simp] theorem pos_inf :
    (Value.inf false : F.Value).pos = some ((⊤ : WithTop ℚ) : WithBot (WithTop ℚ)) := rfl

/-- Nothing is above positive infinity. -/
theorem not_inf_lt (x : F.Value) : (Value.inf false).lt x = false := by
  cases hx : x.pos with
  | none => simp [lt, hx]
  | some a => simp [lt, hx]

theorem not_le_of_lt {x y : F.Value} (h : x.lt y = true) : y.le x = false := by
  cases hx : x.pos with
  | none => simp [lt, hx] at h
  | some a =>
      cases hy : y.pos with
      | none => simp [lt, hx, hy] at h
      | some b =>
          have hab : a < b := by simpa [lt, hx, hy] using h
          simpa [le, hx, hy] using hab

theorem lt_of_lt_of_pos_le {x y z : F.Value} {b c : WithBot (WithTop ℚ)}
    (h : x.lt y = true) (hy : y.pos = some b) (hz : z.pos = some c) (hbc : b ≤ c) :
    x.lt z = true := by
  cases hx : x.pos with
  | none => simp [lt, hx] at h
  | some a =>
      have hab : a < b := by simpa [lt, hx, hy] using h
      simpa [lt, hx, hz] using lt_of_lt_of_le hab hbc

/-- Values at the same position are the same. -/
theorem pos_injective {x y : F.Value} (h : x.pos = y.pos) : x = y := by
  cases x with
  | nan => rcases y with _ | (_ | _) | ⟨q, hq⟩ <;> first | rfl | cases h
  | inf s => rcases s with _ | _ <;> rcases y with _ | (_ | _) | ⟨q, hq⟩ <;> first | rfl | cases h
  | fin p hp =>
      rcases y with _ | (_ | _) | ⟨q, hq⟩
      · cases h
      · cases h
      · cases h
      · have hpq : p = q := by simpa using h
        subst hpq
        rfl

theorem le_antisymm {x y : F.Value} (h : x.le y = true) (h' : y.le x = true) : x = y := by
  apply pos_injective
  cases hx : x.pos with
  | none => simp [le, hx] at h
  | some a =>
      cases hy : y.pos with
      | none => simp [le, hx, hy] at h
      | some b =>
          have hab : a ≤ b := by simpa [le, hx, hy] using h
          have hba : b ≤ a := by simpa [le, hx, hy] using h'
          rw [LE.le.antisymm hab hba]

/-- Only a NaN has no position. -/
theorem exists_pos {x : F.Value} (h : x ≠ .nan) : ∃ a, x.pos = some a := by
  rcases x with _ | (_ | _) | ⟨q, hq⟩
  · exact absurd rfl h
  · exact ⟨_, rfl⟩
  · exact ⟨_, rfl⟩
  · exact ⟨_, rfl⟩

theorem le_self {x : F.Value} (h : x ≠ .nan) : x.le x = true := by
  obtain ⟨a, ha⟩ := exists_pos h
  simp [le, ha]

theorem nan_le (x : F.Value) : Value.nan.le x = false := rfl

/-- Of two values that are not NaN one is below the other, or not. -/
theorem le_eq_not_lt {x y : F.Value} (hx : x ≠ .nan) (hy : y ≠ .nan) : y.le x = !x.lt y := by
  obtain ⟨a, ha⟩ := exists_pos hx
  obtain ⟨b, hb⟩ := exists_pos hy
  simp [lt, le, ha, hb, ← not_lt]

theorem round_ne_nan (q : ℚ) : F.round q ≠ .nan := by
  unfold FloatFormat.round
  split_ifs <;> exact fun h => by cases h

/-- Subtracting a finite value makes no NaN. -/
theorem sub_fin_ne_nan {x : F.Value} (h : x ≠ .nan) (q : ℚ) (hq : F.Representable q) :
    x.sub (.fin q hq) ≠ .nan := by
  cases x with
  | nan => exact absurd rfl h
  | inf s => exact fun h => by cases h
  | fin p hp => exact round_ne_nan (p - q)

theorem round_fin {q : ℚ} (h : |F.roundRat q| < 2 ^ F.emax) :
    F.round q = .fin (F.roundRat q) (representable_roundRat h) := dif_pos h

/-- Rounding a representable rational gives that rational. -/
theorem round_representable {q : ℚ} (h : F.Representable q) : F.round q = .fin q h := by
  have hq : F.roundRat q = q := h.roundRat_eq
  have hlt : |F.roundRat q| < 2 ^ F.emax := by rw [hq]; exact h.2
  rw [round_fin hlt]
  simp only [hq]

/-- **Subtracting a nonnegative constant never raises a value**, rounding included. -/
theorem lt_of_lt_sub {x t : F.Value} {c : ℚ} {hc : F.Representable c} (h0 : 0 ≤ c)
    (h : x.lt (t.sub (.fin c hc)) = true) : x.lt t = true := by
  cases t with
  | nan => exact h
  | inf s => exact h
  | fin q hq =>
      have hle : F.roundRat (q - c) ≤ q := roundRat_le hq (by linarith)
      simp only [sub] at h
      by_cases hov : |F.roundRat (q - c)| < 2 ^ F.emax
      · rw [round_fin hov] at h
        exact lt_of_lt_of_pos_le h rfl rfl
          (WithBot.coe_le_coe.mpr (WithTop.coe_le_coe.mpr hle))
      · -- the difference overflows downwards: nothing is below it
        have hneg : q - c < 0 := by
          by_contra hge
          have hnn : 0 ≤ F.roundRat (q - c) := by
            have : (0 : ℤ) ≤ roundEven ((q - c) / 2 ^ F.ulpExp (q - c)) :=
              le_roundEven (by push_cast; exact div_nonneg (by linarith) (by positivity))
            exact mul_nonneg (by exact_mod_cast this) (by positivity)
          rw [abs_of_nonneg hnn] at hov
          have := lt_of_le_of_lt (le_abs_self q) hq.2
          linarith
        rw [round, dif_neg hov, decide_eq_true hneg] at h
        exact lt_of_lt_of_pos_le h rfl rfl bot_le

end Value

/-! ## Conversion to a wider format -/

/-- `F` is contained in `G`. -/
structure Within (F G : FloatFormat) : Prop where
  prec : F.prec ≤ G.prec
  emin : G.emin ≤ F.emin
  emax : F.emax ≤ G.emax

theorem Within.representable {G : FloatFormat} (w : F.Within G) {q : ℚ}
    (h : F.Representable q) : G.Representable q := by
  obtain ⟨⟨m, e, hq, hm, he⟩, hlt⟩ := h
  refine ⟨⟨m, e, hq, lt_of_lt_of_le hm ?_, le_trans w.emin he⟩, lt_of_lt_of_le hlt ?_⟩
  · exact pow_le_pow_right₀ (by norm_num) w.prec
  · exact zpow_le_zpow_right₀ (by norm_num) w.emax

/-- The exact conversion to a containing format. -/
def Value.widen {G : FloatFormat} (w : F.Within G) : F.Value → G.Value
  | .nan => .nan
  | .inf s => .inf s
  | .fin q h => .fin q (w.representable h)

@[simp] theorem Value.pos_widen {G : FloatFormat} (w : F.Within G) (x : F.Value) :
    (x.widen w).pos = x.pos := by
  rcases x with _ | (_ | _) | _ <;> rfl

@[simp] theorem Value.lt_widen {G : FloatFormat} (w : F.Within G) (x y : F.Value) :
    (x.widen w).lt (y.widen w) = x.lt y := by
  simp [Value.lt]

theorem Value.widen_ne_nan {G : FloatFormat} (w : F.Within G) {x : F.Value} (h : x ≠ .nan) :
    x.widen w ≠ .nan := by
  cases x with
  | nan => exact absurd rfl h
  | inf s => exact fun h => by cases h
  | fin q hq => exact fun h => by cases h

end FloatFormat
