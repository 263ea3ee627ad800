import VadService.Lib.Machine

set_option autoImplicit false

/-! # Atomic objects

An object of state `S` whose operations are given by a partial function `apply`: an operation
that has to wait is refused. An *atomic object* is used by any number of processes: a process
calls an operation, the operation takes effect in one step, and the call returns. An object
that is implemented by smaller steps is linearizable when it can be mapped to the atomic one
(`Linearizes`): what its callers see then is what they would see of the atomic object.

Two things hold of every run of the atomic object. Its effects, in order, are a run of `apply`
(`Run.sequential`), and the events of each process are calls, each followed by its own effect
and its own return (`Run.calls`).
-/

namespace AtomicObject

/-- What a process is doing. -/
inductive Status (Op Ret : Type) where
  | idle
  /-- it has called, and the call has had no effect yet -/
  | called (op : Op)
  /-- the call has had its effect, and has not returned -/
  | done (ret : Ret)

/-- What happens. -/
inductive Event (Θ Op Ret : Type) where
  | call (p : Θ) (op : Op)
  | effect (p : Θ) (op : Op) (ret : Ret)
  | ret (p : Θ) (ret : Ret)

section Object

variable {S Θ Op Ret : Type}

/-- The process of an event. -/
def Event.process : Event Θ Op Ret → Θ
  | .call p _ => p
  | .effect p _ _ => p
  | .ret p _ => p

/-- The callers see the calls and the returns. -/
def Event.visible : Event Θ Op Ret → Bool
  | .effect _ _ _ => false
  | _ => true

/-- The object and its processes. -/
structure State (S Θ Op Ret : Type) where
  value : S
  status : Θ → Status Op Ret

variable [DecidableEq Θ] (apply : S → Op → Option (Ret × S))

/-- One event. -/
inductive Step (s : State S Θ Op Ret) : Event Θ Op Ret → State S Θ Op Ret → Prop where
  | call (p : Θ) (op : Op) (h : s.status p = .idle) :
      Step s (.call p op) { s with status := Function.update s.status p (.called op) }
  | effect (p : Θ) (op : Op) (ret : Ret) (value : S) (h : s.status p = .called op)
      (happly : apply s.value op = some (ret, value)) :
      Step s (.effect p op ret) ⟨value, Function.update s.status p (.done ret)⟩
  | ret (p : Θ) (ret : Ret) (h : s.status p = .done ret) :
      Step s (.ret p ret) { s with status := Function.update s.status p .idle }

/-- The runs of the atomic object. -/
inductive Run : State S Θ Op Ret → List (Event Θ Op Ret) → State S Θ Op Ret → Prop where
  | nil (s : State S Θ Op Ret) : Run s [] s
  | snoc {s t u : State S Θ Op Ret} {es : List (Event Θ Op Ret)} {e : Event Θ Op Ret}
      (h : Run s es t) (hstep : Step apply t e u) : Run s (es ++ [e]) u

/-! ## The effects are a sequential run -/

/-- The effect an event has. -/
def Event.effect? : Event Θ Op Ret → Option (Op × Ret)
  | .effect _ op r => some (op, r)
  | _ => none

/-- The sequential runs of `apply`: the operations with their results. -/
inductive Sequential : S → List (Op × Ret) → S → Prop where
  | nil (value : S) : Sequential value [] value
  | snoc {value value' value'' : S} {ops : List (Op × Ret)} {op : Op} {ret : Ret}
      (h : Sequential value ops value') (happly : apply value' op = some (ret, value'')) :
      Sequential value (ops ++ [(op, ret)]) value''

variable {apply} {s t u : State S Θ Op Ret} {es : List (Event Θ Op Ret)} {e : Event Θ Op Ret}

/-- **The effects of a run, in order, are a sequential run of the object.** -/
theorem Run.sequential (h : Run apply s es t) :
    Sequential apply s.value (es.filterMap Event.effect?) t.value := by
  induction h with
  | nil => exact .nil s.value
  | snoc h hstep ih =>
      rw [List.filterMap_append]
      cases hstep with
      | call p op hidle =>
          rw [List.filterMap_cons_none rfl, List.filterMap_nil, List.append_nil]
          exact ih
      | effect p op r value hcalled happly =>
          exact ih.snoc happly
      | ret p r hdone =>
          rw [List.filterMap_cons_none rfl, List.filterMap_nil, List.append_nil]
          exact ih

/-! ## Each call takes effect once -/

/-- The events of a process that is now in the given status: each call is followed by its
effect and its return. -/
inductive Calls (p : Θ) : Status Op Ret → List (Event Θ Op Ret) → Prop where
  | nil : Calls p .idle []
  | call {es : List (Event Θ Op Ret)} (op : Op) (h : Calls p .idle es) :
      Calls p (.called op) (es ++ [.call p op])
  | effect {es : List (Event Θ Op Ret)} {op : Op} (ret : Ret) (h : Calls p (.called op) es) :
      Calls p (.done ret) (es ++ [.effect p op ret])
  | ret {es : List (Event Θ Op Ret)} {ret : Ret} (h : Calls p (.done ret) es) :
      Calls p .idle (es ++ [.ret p ret])

/-- The events of one process. -/
def ofProcess (p : Θ) (es : List (Event Θ Op Ret)) : List (Event Θ Op Ret) :=
  es.filter fun e => e.process = p

theorem ofProcess_append_self {p : Θ} (h : e.process = p) :
    ofProcess p (es ++ [e]) = ofProcess p es ++ [e] := by
  rw [ofProcess, List.filter_append, List.filter_cons_of_pos (by simpa using h),
    List.filter_nil]
  rfl

theorem ofProcess_append_of_ne {p : Θ} (h : e.process ≠ p) :
    ofProcess p (es ++ [e]) = ofProcess p es := by
  rw [ofProcess, List.filter_append, List.filter_cons_of_neg (by simpa using h),
    List.filter_nil, List.append_nil]
  rfl

/-- A step of another process leaves a status alone. -/
theorem Step.status_of_ne (h : Step apply t e u) {p : Θ} (hp : e.process ≠ p) :
    u.status p = t.status p := by
  cases h <;> exact Function.update_of_ne (Ne.symm hp) _ _

/-- A step of a process goes on with its calls. -/
theorem Step.calls_self (h : Step apply t e u) (hcalls : Calls e.process (t.status e.process) es) :
    Calls e.process (u.status e.process) (es ++ [e]) := by
  cases h with
  | call p op hidle =>
      have hcalls : Calls p (t.status p) es := hcalls
      rw [hidle] at hcalls
      show Calls p (Function.update t.status p (.called op) p) _
      rw [Function.update_self]
      exact hcalls.call op
  | effect p op r value hcalled happly =>
      have hcalls : Calls p (t.status p) es := hcalls
      rw [hcalled] at hcalls
      show Calls p (Function.update t.status p (.done r) p) _
      rw [Function.update_self]
      exact hcalls.effect r
  | ret p r hdone =>
      have hcalls : Calls p (t.status p) es := hcalls
      rw [hdone] at hcalls
      show Calls p (Function.update t.status p .idle p) _
      rw [Function.update_self]
      exact hcalls.ret

/-- **The calls of a process take effect once each, before they return.** -/
theorem Run.calls (h : Run apply s es t) (hidle : ∀ p, s.status p = .idle) (p : Θ) :
    Calls p (t.status p) (ofProcess p es) := by
  induction h with
  | nil =>
      rw [hidle p]
      exact .nil
  | @snoc t u es e h hstep hcalls =>
      by_cases hp : e.process = p
      · cases hp
        rw [ofProcess_append_self rfl]
        exact hstep.calls_self hcalls
      · rw [ofProcess_append_of_ne hp, hstep.status_of_ne hp]
        exact hcalls

/-! ## Implementations -/

variable (apply)

/-- The calls and returns in `history`, and the state `t` they lead to, are those of a run of
the atomic object from `s`. -/
def Linearizes (s t : State S Θ Op Ret) (history : List (Event Θ Op Ret)) : Prop :=
  ∃ es, Run apply s es t ∧ es.filter Event.visible = history

variable {apply} {history : List (Event Θ Op Ret)}

theorem Linearizes.refl (s : State S Θ Op Ret) : Linearizes apply s s [] :=
  ⟨[], .nil s, rfl⟩

/-- A call or a return of the implementation. -/
theorem Linearizes.visible (h : Linearizes apply s t history) (hstep : Step apply t e u)
    (he : e.visible = true) : Linearizes apply s u (history ++ [e]) := by
  obtain ⟨es, hrun, hes⟩ := h
  refine ⟨es ++ [e], hrun.snoc hstep, ?_⟩
  rw [List.filter_append, hes, List.filter_cons_of_pos he, List.filter_nil]

/-- The step at which a call takes effect. -/
theorem Linearizes.hidden (h : Linearizes apply s t history) (hstep : Step apply t e u)
    (he : e.visible = false) : Linearizes apply s u history := by
  obtain ⟨es, hrun, hes⟩ := h
  refine ⟨es ++ [e], hrun.snoc hstep, ?_⟩
  rw [List.filter_append, hes, List.filter_cons_of_neg (by rw [he]; decide), List.filter_nil,
    List.append_nil]

end Object

end AtomicObject
