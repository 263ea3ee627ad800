import Mathlib.Algebra.Order.Group.Defs
import Mathlib.Algebra.BigOperators.Group.List.Basic
import Mathlib.Order.Bounds.Basic
import Mathlib.Tactic

set_option autoImplicit false

/-! # Counters that stop at zero

A counter that is raised and lowered and never falls below zero forgets what came before its
last stop at zero. So its value is the largest sum of a suffix of the steps, the empty one
included (`isGreatest_clamped`), and it has reached a positive bound exactly when some suffix
has.
-/

namespace Clamp

variable {α : Type} [AddCommGroup α]

/-- The sum of a suffix of the steps. -/
def IsSuffixSum (as : List α) (v : α) : Prop := ∃ t, t <:+ as ∧ t.sum = v

theorem isSuffixSum_append_singleton {as : List α} {a v : α} :
    IsSuffixSum (as ++ [a]) v ↔ v = 0 ∨ ∃ u, IsSuffixSum as u ∧ v = u + a := by
  constructor
  · rintro ⟨t, ht, rfl⟩
    rcases List.suffix_concat_iff.mp ht with rfl | ⟨u, rfl, hu⟩
    · exact Or.inl List.sum_nil
    · exact Or.inr ⟨u.sum, ⟨u, hu, rfl⟩, by rw [List.sum_append, List.sum_singleton]⟩
  · rintro (rfl | ⟨u, ⟨t, ht, rfl⟩, rfl⟩)
    · exact ⟨[], List.nil_suffix, List.sum_nil⟩
    · exact ⟨t ++ [a], List.suffix_concat_iff.mpr (Or.inr ⟨t, rfl, ht⟩),
        by rw [List.sum_append, List.sum_singleton]⟩

variable [LinearOrder α]

/-- One step of the counter. -/
def step (s a : α) : α := max (s + a) 0

/-- The counter after the steps `as`, from zero. -/
def clamped (as : List α) : α := as.foldl step 0

theorem clamped_append_singleton (as : List α) (a : α) :
    clamped (as ++ [a]) = step (clamped as) a := by
  rw [clamped, List.foldl_append]
  rfl

variable [IsOrderedAddMonoid α]

/-- **The counter is the largest sum of a suffix.** -/
theorem isGreatest_clamped (as : List α) : IsGreatest {v | IsSuffixSum as v} (clamped as) := by
  induction as using List.reverseRecOn with
  | nil =>
      refine ⟨⟨[], List.nil_suffix, rfl⟩, ?_⟩
      rintro v ⟨t, ht, rfl⟩
      rw [List.suffix_nil.mp ht]
      exact le_rfl
  | append_singleton as a ih =>
      obtain ⟨hmem, hupper⟩ := ih
      rw [clamped_append_singleton]
      constructor
      · -- either the step stops at zero, or it extends the best suffix so far
        rcases max_choice (clamped as + a) 0 with hmax | hmax
        · exact isSuffixSum_append_singleton.mpr (Or.inr ⟨clamped as, hmem, hmax⟩)
        · exact isSuffixSum_append_singleton.mpr (Or.inl hmax)
      · intro v hv
        rcases isSuffixSum_append_singleton.mp hv with rfl | ⟨u, hu, rfl⟩
        · exact le_max_right _ _
        · calc u + a ≤ clamped as + a := add_le_add_left (hupper hu) a
            _ ≤ step (clamped as) a := le_max_left _ _

theorem clamped_nonneg (as : List α) : 0 ≤ clamped as :=
  (isGreatest_clamped as).2 ⟨[], List.nil_suffix, List.sum_nil⟩

/-- The counter has reached `c` when some suffix has. -/
theorem le_clamped_iff (as : List α) (c : α) : c ≤ clamped as ↔ ∃ t, t <:+ as ∧ c ≤ t.sum := by
  obtain ⟨⟨t, ht, hsum⟩, hupper⟩ := isGreatest_clamped as
  constructor
  · intro h
    exact ⟨t, ht, hsum ▸ h⟩
  · rintro ⟨u, hu, h⟩
    exact h.trans (hupper ⟨u, hu, rfl⟩)

end Clamp
