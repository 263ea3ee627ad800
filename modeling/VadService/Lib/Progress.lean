import VadService.Lib.Machine
import Mathlib.Algebra.BigOperators.Fin

set_option autoImplicit false

/-! # Runs that come to an end

Some of the actions of a partial machine are its own, the others come from outside. If a
measure gets smaller at each of its own actions, then the machine left alone does no more of
them than the measure says (`exec_length_le`), and it can always be run until it has nothing
left to do (`exists_settled`).
-/

namespace Machine

section Progress

variable {S A : Type} {step : S → A → Option S}

/-- None of the machine's own actions is accepted. -/
def Settled (step : S → A → Option S) (own : A → Prop) (s : S) : Prop :=
  ∀ a, own a → step s a = none

variable {own : A → Prop} {Inv : S → Prop} {μ : S → ℕ}

section Measure

variable (hinv : ∀ s a s', step s a = some s' → Inv s → Inv s')
  (hμ : ∀ s a s', step s a = some s' → Inv s → own a → μ s' < μ s)

include hinv hμ

/-- **The length of a run** of the machine's own actions. -/
theorem exec_length_le {s t : S} {as : List A} (h : exec step s as = some t)
    (hown : ∀ a ∈ as, own a) (hs : Inv s) : as.length + μ t ≤ μ s := by
  induction as generalizing s with
  | nil =>
      cases h
      simp
  | cons a as ih =>
      rw [exec_cons] at h
      obtain ⟨s', hstep, hrest⟩ := Option.bind_eq_some_iff.mp h
      have hlt := hμ s a s' hstep hs (hown a (by simp))
      have hle := ih hrest (fun b hb => hown b (List.mem_cons_of_mem a hb))
        (hinv s a s' hstep hs)
      rw [List.length_cons]
      omega

/-- **The machine can be run until it settles.** -/
theorem exists_settled {s : S} (hs : Inv s) :
    ∃ as t, (∀ a ∈ as, own a) ∧ exec step s as = some t ∧ Settled step own t := by
  -- the measure of the state after one more action is smaller
  induction hn : μ s using Nat.strong_induction_on generalizing s with
  | _ n ih =>
      by_cases hsettled : Settled step own s
      · exact ⟨[], s, by simp, rfl, hsettled⟩
      · unfold Settled at hsettled
        push Not at hsettled
        obtain ⟨a, hown, hne⟩ := hsettled
        obtain ⟨s', hstep⟩ := Option.ne_none_iff_exists'.mp hne
        have hlt := hμ s a s' hstep hs hown
        obtain ⟨as, t, has, hexec, ht⟩ := ih (μ s') (by omega) (hinv s a s' hstep hs) rfl
        refine ⟨a :: as, t, ?_, ?_, ht⟩
        · intro b hb
          rcases List.mem_cons.mp hb with rfl | hb
          · exact hown
          · exact has b hb
        · rw [exec_cons, hstep]
          exact hexec

end Measure

end Progress

/-! ## Measures of a number of threads -/

section Threads

variable {Θ P : Type} [Fintype Θ] [DecidableEq Θ]

/-- The sum of a measure of each thread, after one of them has moved on. -/
theorem sum_update (w : P → ℕ) (pcs : Θ → P) (p : Θ) (pc : P) :
    ∑ q, w (Function.update pcs p pc q) + w (pcs p) = ∑ q, w (pcs q) + w pc := by
  have hrest : ∑ q ∈ Finset.univ.erase p, w (Function.update pcs p pc q)
      = ∑ q ∈ Finset.univ.erase p, w (pcs q) := by
    refine Finset.sum_congr rfl fun q hq => ?_
    rw [Function.update_of_ne (Finset.ne_of_mem_erase hq)]
  rw [← Finset.add_sum_erase _ _ (Finset.mem_univ p),
    ← Finset.add_sum_erase _ (fun q => w (pcs q)) (Finset.mem_univ p), hrest,
    Function.update_self]
  omega

end Threads

end Machine
