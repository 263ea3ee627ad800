import Mathlib.Tactic

set_option autoImplicit false

/-! # Counters in machine words

A program that keeps positions in `unsigned int` and `int` fields converts between the two
all the time. `WordArith` is the pair of conversions it applies: `bits32` for the words of
the machine, `unbounded` for the same program over the integers. One definition of the
program then serves both, and what is proved below a bound (`ExactBelow`) holds for either.
-/

/-- The conversions to `unsigned int` and to `int`. -/
structure WordArith where
  toUnsigned : ℤ → ℤ
  toSigned : ℤ → ℤ

namespace WordArith

/-- 32-bit words: values modulo `2^32`, the signed ones from `-2^31` on. -/
def bits32 : WordArith where
  toUnsigned x := x % 2 ^ 32
  toSigned x := (x + 2 ^ 31) % 2 ^ 32 - 2 ^ 31

/-- No conversion at all. -/
def unbounded : WordArith where
  toUnsigned x := x
  toSigned x := x

/-- The conversions leave the numbers from `0` up to the bound `B` alone. -/
structure ExactBelow (a : WordArith) (B : ℤ) : Prop where
  toUnsigned : ∀ x, 0 ≤ x → x < B → a.toUnsigned x = x
  toSigned : ∀ x, 0 ≤ x → x < B → a.toSigned x = x

theorem bits32_exactBelow : bits32.ExactBelow (2 ^ 31) where
  toUnsigned x h0 h := by
    simp only [bits32]
    omega
  toSigned x h0 h := by
    simp only [bits32]
    omega

end WordArith
