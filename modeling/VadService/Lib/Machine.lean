import Mathlib.Data.List.Basic
import Mathlib.Tactic

set_option autoImplicit false

/-! # Runs of machines

Two kinds of runs. A *transducer* takes every input, answers it and moves on: `final` and
`outputs` are the state and the answers of a run, and `Along P` says that `P` held of the
state and the input at every step. A *partial* machine may refuse an action; `exec` runs a
list of actions and fails when one of them is refused.

Each kind comes with its induction rule: what every step preserves, every run preserves.
-/

namespace Machine

/-! ## Transducers -/

section Transducer

variable {S I O : Type} (step : S → I → O × S)

/-- The state after the inputs `is`. -/
def final : S → List I → S
  | s, [] => s
  | s, i :: is => final (step s i).2 is

/-- The answers to the inputs `is`, in order. -/
def outputs : S → List I → List O
  | _, [] => []
  | s, i :: is => (step s i).1 :: outputs (step s i).2 is

/-- `P` holds of the state before and the input at every step of the run. -/
def Along (P : S → I → Prop) : S → List I → Prop
  | _, [] => True
  | s, i :: is => P s i ∧ Along P (step s i).2 is

@[simp] theorem final_nil (s : S) : final step s [] = s := rfl

@[simp] theorem final_cons (s : S) (i : I) (is : List I) :
    final step s (i :: is) = final step (step s i).2 is := rfl

@[simp] theorem outputs_nil (s : S) : outputs step s [] = [] := rfl

@[simp] theorem outputs_cons (s : S) (i : I) (is : List I) :
    outputs step s (i :: is) = (step s i).1 :: outputs step (step s i).2 is := rfl

@[simp] theorem along_nil (P : S → I → Prop) (s : S) : Along step P s [] := trivial

@[simp] theorem along_cons (P : S → I → Prop) (s : S) (i : I) (is : List I) :
    Along step P s (i :: is) ↔ P s i ∧ Along step P (step s i).2 is := Iff.rfl

instance decidableAlong {P : S → I → Prop} [∀ s i, Decidable (P s i)] :
    ∀ (s : S) (is : List I), Decidable (Along step P s is)
  | _, [] => .isTrue trivial
  | s, i :: is =>
      have := decidableAlong (P := P) (step s i).2 is
      inferInstanceAs (Decidable (P s i ∧ Along step P (step s i).2 is))

theorem final_append (s : S) (is js : List I) :
    final step s (is ++ js) = final step (final step s is) js := by
  induction is generalizing s with
  | nil => rfl
  | cons i is ih => exact ih (step s i).2

theorem outputs_append (s : S) (is js : List I) :
    outputs step s (is ++ js) = outputs step s is ++ outputs step (final step s is) js := by
  induction is generalizing s with
  | nil => rfl
  | cons i is ih => simp [ih]

theorem along_append (P : S → I → Prop) (s : S) (is js : List I) :
    Along step P s (is ++ js) ↔ Along step P s is ∧ Along step P (final step s is) js := by
  induction is generalizing s with
  | nil => simp
  | cons i is ih => simp [ih, and_assoc]

theorem outputs_take (s : S) (is : List I) (k : ℕ) :
    outputs step s (is.take k) = (outputs step s is).take k := by
  induction is generalizing s k with
  | nil => simp
  | cons i is ih =>
      cases k with
      | zero => rfl
      | succ k => simp [ih]

@[simp] theorem length_outputs (s : S) (is : List I) :
    (outputs step s is).length = is.length := by
  induction is generalizing s with
  | nil => rfl
  | cons i is ih => simp [ih]

/-- The answer to an input is given in the state its predecessors lead to. -/
theorem getElem_outputs (s : S) (is : List I) (i : ℕ) (hi : i < (outputs step s is).length) :
    (outputs step s is)[i]
      = (step (final step s (is.take i)) (is.get ⟨i, length_outputs step s is ▸ hi⟩)).1 := by
  induction is generalizing s i with
  | nil => exact absurd hi (Nat.not_lt_zero i)
  | cons j is ih =>
      cases i with
      | zero => rfl
      | succ i => exact ih (step s j).2 i (Nat.lt_of_succ_lt_succ hi)

/-- The answers of a machine do not matter for its states. -/
theorem final_congr {P : Type} (f : S → I → O × S) (g : S → I → P × S)
    (h : ∀ s i, (f s i).2 = (g s i).2) (s : S) (is : List I) : final f s is = final g s is := by
  induction is generalizing s with
  | nil => rfl
  | cons i is ih => rw [final_cons, final_cons, h, ih]

variable {step}

theorem along_congr {P Q : S → I → Prop} (h : ∀ s i, P s i ↔ Q s i) (s : S) (is : List I) :
    Along step P s is ↔ Along step Q s is := by
  induction is generalizing s with
  | nil => exact Iff.rfl
  | cons i is ih => exact and_congr (h s i) (ih (step s i).2)

theorem along_and {P Q : S → I → Prop} (s : S) (is : List I) :
    Along step (fun s i => P s i ∧ Q s i) s is ↔ Along step P s is ∧ Along step Q s is := by
  induction is generalizing s with
  | nil => simp
  | cons i is ih =>
      rw [along_cons, along_cons, along_cons, ih]
      exact and_and_and_comm

/-- **The invariant rule.** What every step taken under `P` preserves holds at the end of
every run taken under `P`. -/
theorem Along.final_inv {P : S → I → Prop} (Inv : S → Prop)
    (hstep : ∀ s i, Inv s → P s i → Inv (step s i).2) {s : S} {is : List I}
    (ha : Along step P s is) (hs : Inv s) : Inv (final step s is) := by
  induction is generalizing s with
  | nil => exact hs
  | cons i is ih => exact ih ha.2 (hstep s i hs ha.1)

/-- The invariant rule for steps that need no condition. -/
theorem final_inv (Inv : S → Prop) (hstep : ∀ s i, Inv s → Inv (step s i).2) {s : S}
    (hs : Inv s) (is : List I) : Inv (final step s is) := by
  induction is generalizing s with
  | nil => exact hs
  | cons i is ih => exact ih (hstep s i hs)

end Transducer

/-! ## Partial machines -/

section Partial

variable {S A : Type} (step : S → A → Option S)

/-- The state after the actions `as`, if none of them is refused. -/
def exec : S → List A → Option S
  | s, [] => some s
  | s, a :: as => (step s a).bind fun s' => exec s' as

@[simp] theorem exec_nil (s : S) : exec step s [] = some s := rfl

theorem exec_cons (s : S) (a : A) (as : List A) :
    exec step s (a :: as) = (step s a).bind fun s' => exec step s' as := rfl

theorem exec_append (s : S) (as bs : List A) :
    exec step s (as ++ bs) = (exec step s as).bind fun s' => exec step s' bs := by
  induction as generalizing s with
  | nil => rfl
  | cons a as ih =>
      simp only [List.cons_append, exec_cons]
      cases step s a with
      | none => rfl
      | some s' => exact ih s'

/-- `t` can be reached from `s`. -/
def Reaches (s t : S) : Prop := ∃ as, exec step s as = some t

variable {step}

theorem Reaches.trans {s t u : S} (h : Reaches step s t) (h' : Reaches step t u) :
    Reaches step s u := by
  obtain ⟨as, has⟩ := h
  obtain ⟨bs, hbs⟩ := h'
  exact ⟨as ++ bs, by rw [exec_append, has]; exact hbs⟩

theorem Reaches.single {s t : S} {a : A} (h : step s a = some t) : Reaches step s t :=
  ⟨[a], by simp [exec_cons, h]⟩

/-- **The invariant rule.** What every accepted action preserves holds in every state
reached. -/
theorem Reaches.inv (Inv : S → Prop) (hstep : ∀ s a s', step s a = some s' → Inv s → Inv s')
    {s t : S} (h : Reaches step s t) (hs : Inv s) : Inv t := by
  obtain ⟨as, has⟩ := h
  induction as generalizing s with
  | nil =>
      cases has
      exact hs
  | cons a as ih =>
      rw [exec_cons] at has
      cases ha : step s a with
      | none => simp [ha] at has
      | some s' =>
          rw [ha] at has
          exact ih (hstep s a s' ha hs) has

/-- Every action of an accepted run satisfies `P` in the state it is taken in. -/
def ExecAlong (P : S → A → Prop) (step : S → A → Option S) : S → List A → Prop
  | _, [] => True
  | s, a :: as => P s a ∧ ∀ s', step s a = some s' → ExecAlong P step s' as

instance decidableExecAlong {P : S → A → Prop} [∀ s a, Decidable (P s a)] :
    ∀ (s : S) (as : List A), Decidable (ExecAlong P step s as)
  | _, [] => .isTrue trivial
  | s, a :: as =>
      match h : step s a with
      | none => decidable_of_iff (P s a) (by simp [ExecAlong, h])
      | some s' =>
          have := decidableExecAlong (P := P) s' as
          decidable_of_iff (P s a ∧ ExecAlong P step s' as) (by simp [ExecAlong, h])

/-- The invariant rule for runs whose actions all satisfy `P`. -/
theorem ExecAlong.inv {P : S → A → Prop} (Inv : S → Prop)
    (hstep : ∀ s a s', step s a = some s' → P s a → Inv s → Inv s')
    {s t : S} {as : List A} (ha : ExecAlong P step s as) (h : exec step s as = some t)
    (hs : Inv s) : Inv t := by
  induction as generalizing s with
  | nil =>
      cases h
      exact hs
  | cons a as ih =>
      rw [exec_cons] at h
      cases hsa : step s a with
      | none => simp [hsa] at h
      | some s' =>
          rw [hsa] at h
          exact ih (ha.2 s' hsa) h (hstep s a s' hsa ha.1 hs)

/-- **The exact condition of an invariant.** If a step keeps an invariant, which may look at the
past, exactly under a condition, then the invariant holds at every point of a run exactly if
every action of the run satisfies the condition. -/
theorem forall_inv_iff_execAlong {P : S → A → Prop} (Inv : List A → S → Prop)
    (hstep : ∀ past s a s', Inv past s → step s a = some s' → (Inv (past ++ [a]) s' ↔ P s a))
    {past : List A} {s t : S} (hs : Inv past s) {as : List A} (h : exec step s as = some t) :
    (∀ before after, as = before ++ after → ∀ u, exec step s before = some u →
        Inv (past ++ before) u) ↔ ExecAlong P step s as := by
  induction as generalizing past s with
  | nil =>
      refine iff_of_true (fun before after heq u hu => ?_) trivial
      obtain ⟨rfl, -⟩ := List.append_eq_nil_iff.mp heq.symm
      cases hu
      rwa [List.append_nil]
  | cons a as ih =>
      rw [exec_cons] at h
      cases hsa : step s a with
      | none => simp [hsa] at h
      | some s' =>
          rw [hsa, Option.bind_some] at h
          have hnext := hstep past s a s' hs hsa
          constructor
          · intro hall
            have hone : Inv (past ++ [a]) s' :=
              hall [a] as rfl s' (by rw [exec_cons, hsa, Option.bind_some, exec_nil])
            refine ⟨hnext.mp hone, fun u hu => ?_⟩
            obtain rfl : s' = u := Option.some.inj (hsa.symm.trans hu)
            refine (ih hone h).mp fun before after heq v hv => ?_
            rw [List.append_assoc]
            exact hall (a :: before) after (by rw [heq, List.cons_append]) v
              (by rw [exec_cons, hsa, Option.bind_some, hv])
          · rintro ⟨hP, halong⟩ before after heq u hu
            cases before with
            | nil =>
                cases hu
                rwa [List.append_nil]
            | cons b before =>
                obtain ⟨rfl, hrest⟩ := List.cons.inj heq
                rw [exec_cons, hsa, Option.bind_some] at hu
                have hrest := (ih (hnext.mpr hP) h).mpr (halong s' hsa) before after hrest u hu
                rwa [List.append_assoc] at hrest

end Partial

end Machine
