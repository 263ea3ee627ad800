import VadService.Lib.FloatFormat

set_option autoImplicit false

/-! # The C++ types of the service

`float` and `double` are the IEEE formats `binary32` and `binary64`, `std::string` is a
`String` with one character per byte, and `int` is an integer; the conversions of `Lib`
stand where the program relies on the width of its words.
-/

namespace VadService

open FloatFormat

/-- The format of `float`. -/
def binary32 : FloatFormat := ⟨24, -149, 128, by decide⟩

/-- The format of `double`. -/
def binary64 : FloatFormat := ⟨53, -1074, 1024, by decide⟩

/-- A `float`. -/
abbrev F32 := binary32.Value

/-- A `double`. -/
abbrev F64 := binary64.Value

theorem binary32_within_binary64 : binary32.Within binary64 := ⟨by decide, by decide, by decide⟩

/-- The promotion of a `float` to `double`. -/
def F32.toF64 (x : F32) : F64 := x.widen binary32_within_binary64

/-- The conversion of an integer to `float`. -/
def F32.ofInt (n : ℤ) : F32 := binary32.round n

/-- The integers of magnitude below `2^24` are `float`s. -/
theorem F32.representable_int {n : ℤ} (h : |n| < 2 ^ 24) : binary32.Representable n := by
  refine ⟨⟨n, 0, by simp, h, by decide⟩, ?_⟩
  have h' : |(n : ℚ)| < 2 ^ 24 := by exact_mod_cast h
  exact h'.trans (by norm_num [binary32])

theorem F32.ofInt_eq {n : ℤ} (h : |n| < 2 ^ 24) : F32.ofInt n = .fin n (representable_int h) :=
  Value.round_representable _

section Arithmetic

variable {m n : ℤ} (hm : |m| < 2 ^ 24) (hn : |n| < 2 ^ 24)

include hm hn

theorem F32.add_ofInt : (F32.ofInt m).add (F32.ofInt n) = F32.ofInt (m + n) := by
  rw [F32.ofInt_eq hm, F32.ofInt_eq hn, F32.ofInt]
  push_cast
  rfl

theorem F32.sub_ofInt : (F32.ofInt m).sub (F32.ofInt n) = F32.ofInt (m - n) := by
  rw [F32.ofInt_eq hm, F32.ofInt_eq hn, F32.ofInt]
  push_cast
  rfl

theorem F32.mul_ofInt : (F32.ofInt m).mul (F32.ofInt n) = F32.ofInt (m * n) := by
  rw [F32.ofInt_eq hm, F32.ofInt_eq hn, F32.ofInt]
  push_cast
  rfl

theorem F32.le_ofInt : (F32.ofInt m).le (F32.ofInt n) = decide (m ≤ n) := by
  rw [F32.ofInt_eq hm, F32.ofInt_eq hn]
  simp [Value.le]

theorem F32.lt_ofInt : (F32.ofInt m).lt (F32.ofInt n) = decide (m < n) := by
  rw [F32.ofInt_eq hm, F32.ofInt_eq hn]
  simp [Value.lt]

end Arithmetic

/-- Below `2^31` the conversion goes down by 64 at most. -/
theorem F32.sub_le_roundRat {n : ℤ} (h0 : 0 ≤ n) (h : n < 2 ^ 31) :
    (n : ℚ) - 64 ≤ binary32.roundRat n := by
  rcases h0.lt_or_eq with hpos | rfl
  · have hq : (0 : ℚ) < |(n : ℚ)| := abs_pos.mpr (by exact_mod_cast hpos.ne')
    have hlt : |(n : ℚ)| < 2 ^ (31 : ℤ) := by
      rw [abs_of_pos (by exact_mod_cast hpos)]
      exact_mod_cast h
    have hlog : Int.log 2 |(n : ℚ)| < 31 :=
      (Int.lt_zpow_iff_log_lt (by norm_num) hq).mp (by exact_mod_cast hlt)
    have hulp : binary32.ulpExp n ≤ 7 := by
      have hprec : (binary32.prec : ℤ) = 24 := rfl
      have hemin : binary32.emin = -149 := rfl
      unfold ulpExp
      omega
    have hquantum : (2 : ℚ) ^ binary32.ulpExp n ≤ 2 ^ (7 : ℤ) :=
      zpow_le_zpow_right₀ (by norm_num) hulp
    have hround := sub_half_le_roundRat (F := binary32) n
    norm_num at hquantum
    linarith
  · rw [Int.cast_zero, roundRat_zero]
    norm_num

/-- A number that does not exceed a `float` once converted exceeds it by 64 at most. -/
theorem F32.le_of_not_lt_ofInt {M : ℚ} {hM : binary32.Representable M} {n : ℤ} (h0 : 0 ≤ n)
    (h : n < 2 ^ 31) (hlt : ¬ (Value.fin M hM).lt (F32.ofInt n) = true) : (n : ℚ) ≤ M + 64 := by
  have hround := F32.sub_le_roundRat h0 h
  unfold F32.ofInt at hlt
  by_cases hfin : |binary32.roundRat n| < 2 ^ binary32.emax
  · rw [Value.round_fin hfin] at hlt
    have hle : binary32.roundRat n ≤ M := by
      by_contra hgt
      exact hlt (by simpa [Value.lt] using not_le.mp hgt)
    linarith
  · -- it does not overflow, and an infinity would exceed every value
    have hneg : ¬ (n : ℚ) < 0 := not_lt.mpr (by exact_mod_cast h0)
    rw [FloatFormat.round, dif_neg hfin, decide_eq_false hneg] at hlt
    simp [Value.lt] at hlt

/-! ## Conversions to integers -/

/-- The whole part of a finite `float`. -/
def F32.truncate : F32 → Option ℤ
  | .fin q _ => some (if 0 ≤ q then ⌊q⌋ else ⌈q⌉)
  | _ => none

/-- The conversion to a signed type of `w` bytes, which is undefined if the whole part is not
of the type. -/
def F32.toSigned (w : ℕ) (x : F32) : Option ℤ :=
  x.truncate.filter fun n => -(256 ^ w : ℕ) ≤ n * 2 ∧ n * 2 < (256 ^ w : ℕ)

/-! ## Constants -/

/-- `0.0f` -/
def F32.zero : F32 := F32.ofInt 0

/-- `std::numeric_limits<float>::infinity()` -/
def F32.infinity : F32 := .inf false

/-- The `double` literal `0.15`. -/
def d015 : F64 := binary64.round (15 / 100)

theorem roundRat_d015 : binary64.roundRat (15 / 100) = 5404319552844595 / 36028797018963968 := by
  decide +kernel

theorem d015_eq : ∃ h, d015 = .fin (5404319552844595 / 36028797018963968) h := by
  have hlt : |binary64.roundRat (15 / 100)| < 2 ^ binary64.emax := by
    rw [roundRat_d015]
    decide +kernel
  refine ⟨roundRat_d015 ▸ representable_roundRat hlt, ?_⟩
  rw [d015, Value.round_fin hlt]
  simp only [roundRat_d015]

/-- Less than `t - 0.15`, computed in `double`, is less than `t`. -/
theorem F32.lt_of_lt_sub {x t : F32} (h : x.toF64.lt (t.toF64.sub d015) = true) :
    x.lt t = true := by
  obtain ⟨hr, hd⟩ := d015_eq
  rw [hd] at h
  have := Value.lt_of_lt_sub (by norm_num) h
  simpa [F32.toF64] using this

end VadService
