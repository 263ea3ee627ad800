import VadService.Lib.Machine

set_option autoImplicit false

/-! # Two machines on the same inputs

`both f g` runs two transducers side by side, each on the same inputs. What one of them does
differently from the other is a condition on the pair, and may depend on the inputs so far:
`noting` carries a note of them along. `along_iff_noted` is the rule: as long as the steps
satisfy `P`, an invariant of the pair and of the note holds, and under the invariant `P` says
the same as a condition `Q`; then `P` holds along a run exactly when `Q` does.
-/

namespace Machine

variable {S T I O P N : Type}

/-- The two machines on the same inputs. -/
def both (f : S → I → O × S) (g : T → I → P × T) (s : S × T) (i : I) : (O × P) × (S × T) :=
  (((f s.1 i).1, (g s.2 i).1), (f s.1 i).2, (g s.2 i).2)

/-- The machine with a note of its inputs. -/
def noting (step : S → I → O × S) (note : N → I → N) (s : S × N) (i : I) : O × (S × N) :=
  ((step s.1 i).1, (step s.1 i).2, note s.2 i)

theorem final_both (f : S → I → O × S) (g : T → I → P × T) (s : S × T) (is : List I) :
    final (both f g) s is = (final f s.1 is, final g s.2 is) := by
  induction is generalizing s with
  | nil => rfl
  | cons i is ih => exact ih _

theorem final_noting (step : S → I → O × S) (note : N → I → N) (s : S × N) (is : List I) :
    final (noting step note) s is = (final step s.1 is, is.foldl note s.2) := by
  induction is generalizing s with
  | nil => rfl
  | cons i is ih => exact ih _

variable {step : S → I → O × S}

theorem along_noting {R : S → I → Prop} (note : N → I → N) (s : S × N) (is : List I) :
    Along (noting step note) (fun s i => R s.1 i) s is ↔ Along step R s.1 is := by
  induction is generalizing s with
  | nil => exact Iff.rfl
  | cons i is ih => exact and_congr Iff.rfl (ih _)

theorem along_true (s : S) (is : List I) : Along step (fun _ _ => True) s is := by
  induction is generalizing s with
  | nil => trivial
  | cons i is ih => exact ⟨trivial, ih _⟩

/-- A condition holds along a run when it holds at each of its inputs. -/
theorem along_iff_forall {R : S → I → Prop} (s : S) (is : List I) :
    Along step R s is ↔ ∀ k (hk : k < is.length), R (final step s (is.take k)) is[k] := by
  induction is generalizing s with
  | nil => exact iff_of_true trivial fun k hk => absurd hk (Nat.not_lt_zero k)
  | cons i is ih =>
      rw [along_cons, ih]
      constructor
      · rintro ⟨h0, h⟩ k hk
        cases k with
        | zero => exact h0
        | succ k => exact h k (Nat.lt_of_succ_lt_succ hk)
      · intro h
        exact ⟨h 0 (Nat.succ_pos _), fun k hk => h (k + 1) (Nat.succ_lt_succ hk)⟩

/-- A condition on the state after each step holds in all states of the run. -/
theorem along_after_iff {R : S → Prop} {s : S} (hs : R s) (is : List I) :
    Along step (fun s i => R (step s i).2) s is ↔
      ∀ k ≤ is.length, R (final step s (is.take k)) := by
  induction is generalizing s with
  | nil => exact iff_of_true trivial fun k _ => by simpa using hs
  | cons i is ih =>
      rw [along_cons]
      constructor
      · rintro ⟨h1, hrest⟩ k hk
        cases k with
        | zero => exact hs
        | succ k => exact (ih h1).mp hrest k (Nat.le_of_succ_le_succ hk)
      · intro h
        have h1 : R (step s i).2 := h 1 (Nat.succ_le_succ (Nat.zero_le _))
        exact ⟨h1, (ih h1).mpr fun k hk => h (k + 1) (Nat.succ_le_succ hk)⟩

/-- Two conditions that say the same under an invariant of the runs that satisfy the first. -/
theorem along_congr_inv {R Q H : S → I → Prop} (Inv : S → Prop)
    (hiff : ∀ s i, Inv s → H s i → (R s i ↔ Q s i))
    (hstep : ∀ s i, Inv s → H s i → R s i → Inv (step s i).2) {s : S} {is : List I}
    (hs : Inv s) (hH : Along step H s is) : Along step R s is ↔ Along step Q s is := by
  induction is generalizing s with
  | nil => exact Iff.rfl
  | cons i is ih =>
      have hhead := hiff s i hs hH.1
      constructor
      · rintro ⟨hR, hrest⟩
        exact ⟨hhead.mp hR, (ih (hstep s i hs hH.1 hR) hH.2).mp hrest⟩
      · rintro ⟨hQ, hrest⟩
        have hR := hhead.mpr hQ
        exact ⟨hR, (ih (hstep s i hs hH.1 hR) hH.2).mpr hrest⟩

/-- **The rule of the noted condition.** -/
theorem along_iff_noted {R H : S → I → Prop} {Q : S → N → I → Prop} (note : N → I → N)
    (Inv : S → N → Prop) (hiff : ∀ s n i, Inv s n → H s i → (R s i ↔ Q s n i))
    (hstep : ∀ s n i, Inv s n → H s i → R s i → Inv (step s i).2 (note n i))
    {s : S} {n : N} {is : List I} (hs : Inv s n) (hH : Along step H s is) :
    Along step R s is ↔ ∀ k (hk : k < is.length),
      Q (final step s (is.take k)) ((is.take k).foldl note n) is[k] := by
  have hnoted : Along (noting step note) (fun s i => R s.1 i) (s, n) is ↔
      Along (noting step note) (fun s i => Q s.1 s.2 i) (s, n) is :=
    along_congr_inv (fun s => Inv s.1 s.2) (fun s i => hiff s.1 s.2 i)
      (fun s i => hstep s.1 s.2 i) hs ((along_noting note (s, n) is).mpr hH)
  rw [← along_noting note (s, n) is, hnoted, along_iff_forall]
  simp only [final_noting]

/-- **The rule of related runs.** Two machines whose steps keep a relation of their states, and
look the same, have runs that look the same. -/
theorem outputs_map_eq {V : Type} {f : S → I → O × S} {g : T → I → P × T} (look : O → V)
    (look' : P → V) (R : S → T → Prop)
    (hstep : ∀ s t i, R s t → look (f s i).1 = look' (g t i).1 ∧ R (f s i).2 (g t i).2)
    {s : S} {t : T} (h : R s t) (is : List I) :
    (outputs f s is).map look = (outputs g t is).map look' ∧ R (final f s is) (final g t is) := by
  induction is generalizing s t with
  | nil => exact ⟨rfl, h⟩
  | cons i is ih =>
      obtain ⟨hlook, hnext⟩ := hstep s t i h
      obtain ⟨hrest, hfinal⟩ := ih hnext
      refine ⟨?_, hfinal⟩
      rw [outputs_cons, outputs_cons, List.map_cons, List.map_cons, hlook, hrest]

/-- **The rule of related partial runs.** If two machines accept the same actions, up to what is
seen of the actions and of the states, and look the same afterwards, then so do their runs. -/
theorem exec_map_eq {A B C V : Type} {step : S → A → Option S} {step' : T → B → Option T}
    (look : S → V) (look' : T → V) (seen : A → C) (seen' : B → C)
    (hstep : ∀ s t a b, look s = look' t → seen a = seen' b →
      (step s a).map look = (step' t b).map look')
    {s : S} {t : T} {as : List A} {bs : List B} (h : look s = look' t)
    (hseen : as.map seen = bs.map seen') :
    (exec step s as).map look = (exec step' t bs).map look' := by
  induction as generalizing s t bs with
  | nil =>
      rw [List.map_nil] at hseen
      rw [List.map_eq_nil_iff.mp hseen.symm, exec_nil, exec_nil, Option.map_some,
        Option.map_some, h]
  | cons a as ih =>
      cases bs with
      | nil => cases hseen
      | cons b bs =>
          obtain ⟨hhead, htail⟩ := List.cons.inj hseen
          have hnext := hstep s t a b h hhead
          rw [exec_cons, exec_cons]
          cases hs : step s a with
          | none =>
              rw [hs, Option.map_none] at hnext
              rw [Option.map_eq_none_iff.mp hnext.symm]
              rfl
          | some s' =>
              rw [hs, Option.map_some] at hnext
              obtain ⟨t', ht, hlook⟩ := Option.map_eq_some_iff.mp hnext.symm
              rw [ht, Option.bind_some, Option.bind_some]
              exact ih hlook.symm htail

/-- **The rule of the first step.** If two states are the same after one step on some inputs,
and answer the others differently, their runs answer the same exactly when the first input is
one of the former. -/
theorem outputs_eq_iff_head {s t : S} (Q : I → Prop) (hsame : ∀ i, Q i → step s i = step t i)
    (hdiff : ∀ i, ¬ Q i → (step s i).1 ≠ (step t i).1) (is : List I) :
    outputs step s is = outputs step t is ↔ ∀ i ∈ is.head?, Q i := by
  cases is with
  | nil => exact iff_of_true rfl (by simp)
  | cons i is =>
      simp only [List.head?_cons, Option.mem_def, Option.some.injEq, forall_eq']
      constructor
      · intro h
        by_contra hi
        exact hdiff i hi (List.cons.inj h).1
      · intro hi
        rw [outputs_cons, outputs_cons, hsame i hi]

end Machine
