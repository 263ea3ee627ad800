import VadService.Queue.Basic

set_option autoImplicit false

/-! # `SafeQueue` is an atomic queue

The threads of a `SafeQueue` cannot tell it from a queue whose `push` and `pop` happen in one
step each, where `pop` waits for an item (`linearizable`). A `push` takes effect when the item is
put into the queue, a `pop` when the front is popped, which it has moved out before.
-/

namespace VadService

open Machine AtomicObject

/-- The operations as `SafeQueue.push` and `SafeQueue.pop`. -/
def SafeQueue.apply {T : Type} (q : SafeQueue T) : QueueOp T → Option (Option T × SafeQueue T)
  | .push item => some (none, q.push item)
  | .pop => q.pop.map fun (item, q') => (some item, q')

/-- What a thread is doing, as far as the atomic queue knows. -/
def QueuePc.status {T : Type} : QueuePc T → Status (QueueOp T) (Option T)
  | .idle => .idle
  | .pushLock item => .called (.push item)
  | .pushItem item => .called (.push item)
  | .pushNotify => .done none
  | .pushUnlock => .done none
  | .popUnlock item => .done (some item)
  | _ => .called .pop

namespace SharedQueue

variable {Θ T : Type}

/-- The atomic queue. -/
def atomic (s : SharedQueue Θ T) : State (SafeQueue T) Θ (QueueOp T) (Option T) :=
  ⟨s.queue, fun p => (s.pcs p).status⟩

variable [DecidableEq Θ] {s s' : SharedQueue Θ T} {a : QueueAction Θ T} {p : Θ}

/-- A thread that moves on. -/
theorem atomic_move (s : SharedQueue Θ T) (p : Θ) (pc : QueuePc T) :
    (s.move p pc).atomic = ⟨s.queue, Function.update s.atomic.status p pc.status⟩ := by
  have hstatus : (fun q => ((s.move p pc).pcs q).status)
      = Function.update s.atomic.status p pc.status := by
    funext q
    by_cases hq : q = p
    · rw [hq, move_pcs_self, Function.update_self]
    · rw [move_pcs_of_ne hq, Function.update_of_ne hq]
      rfl
  rw [← hstatus]
  rfl

/-- A thread that moves on in the middle of a call. -/
theorem atomic_move_stutter {pc : QueuePc T} (h : pc.status = (s.pcs p).status) :
    (s.move p pc).atomic = s.atomic := by
  rw [atomic_move, h, show (s.pcs p).status = s.atomic.status p from rfl,
    Function.update_eq_self]
  rfl

/-- **A step of a thread is one event of the atomic queue, or none.** A `pop` returns what it
takes out of the queue, since nobody else had the lock in between. -/
theorem Transition.linearizes (h : Transition s a s') (hguarded : s.Guarded)
    (hs : Linearizes SafeQueue.apply init.atomic s.atomic s.history) :
    Linearizes SafeQueue.apply init.atomic s'.atomic s'.history := by
  have hstutter : ∀ {q : Θ} {pc : QueuePc T}, pc.status = (s.pcs q).status →
      Linearizes SafeQueue.apply init.atomic (s.move q pc).atomic s.history := by
    intro q pc hpc
    rw [atomic_move_stutter hpc]
    exact hs
  cases h with
  | callPush p item hpc =>
      have hidle : s.atomic.status p = .idle := congrArg QueuePc.status hpc
      have hcall : Step SafeQueue.apply s.atomic (.call p (.push item)) _ := .call p _ hidle
      refine hs.visible ?_ rfl
      show Step _ s.atomic (.call p (.push item)) (s.move p (.pushLock item)).atomic
      rw [atomic_move]
      exact hcall
  | callPop p hpc =>
      have hidle : s.atomic.status p = .idle := congrArg QueuePc.status hpc
      have hcall : Step SafeQueue.apply s.atomic (.call p .pop) _ := .call p _ hidle
      refine hs.visible ?_ rfl
      show Step _ s.atomic (.call p .pop) (s.move p .popLock).atomic
      rw [atomic_move]
      exact hcall
  | lockPush p item hmutex hpc => exact hstutter (by rw [hpc]; rfl)
  | lockPop p hmutex hpc =>
      rcases hpc with hpc | hpc
      · exact hstutter (by rw [hpc]; rfl)
      · exact hstutter (by rw [hpc]; rfl)
  | enqueue p item hpc =>
      -- the push takes effect
      have hcalled : s.atomic.status p = .called (.push item) := congrArg QueuePc.status hpc
      have heffect : Step SafeQueue.apply s.atomic (.effect p (.push item) none) _ :=
        .effect p _ none (s.queue.push item) hcalled rfl
      refine hs.hidden (e := .effect p (.push item) none) ?_ rfl
      have hmove := congrArg State.status (atomic_move s p .pushNotify)
      show Step _ s.atomic _ ⟨s.queue.push item, (s.move p .pushNotify).atomic.status⟩
      rw [hmove]
      exact heffect
  | notifyOne p q hpc hasleep =>
      have hne : q ≠ p := by
        rintro rfl
        rw [hpc] at hasleep
        cases hasleep
      have hwoken : ((s.move p .pushUnlock).move q .awake).atomic
          = (s.move p .pushUnlock).atomic :=
        atomic_move_stutter (by rw [move_pcs_of_ne hne, hasleep]; rfl)
      show Linearizes _ _ ((s.move p .pushUnlock).move q .awake).atomic s.history
      rw [hwoken]
      exact hstutter (by rw [hpc]; rfl)
  | notifyNone p hpc hasleep => exact hstutter (by rw [hpc]; rfl)
  | sleep p hpc hqueue => exact hstutter (by rw [hpc]; rfl)
  | pass p hpc hqueue => exact hstutter (by rw [hpc]; rfl)
  | spurious p hpc => exact hstutter (by rw [hpc]; rfl)
  | front p item hpc hfront => exact hstutter (by rw [hpc]; rfl)
  | dequeue p item dropped queue hpc hpop =>
      -- the pop takes effect
      have hcalled : s.atomic.status p = .called .pop := congrArg QueuePc.status hpc
      have hfront : s.queue.queue.head? = some item := by
        have hrelies := hguarded.relies p
        rwa [hpc] at hrelies
      have hsame : dropped = item := by
        rw [SafeQueue.pop_eq_some.mp hpop, List.head?_cons] at hfront
        exact Option.some.inj hfront
      have happly : s.queue.apply .pop = some (some item, queue) := by
        show s.queue.pop.map _ = _
        rw [hpop, hsame]
        rfl
      have heffect : Step SafeQueue.apply s.atomic (.effect p .pop (some item)) _ :=
        .effect p _ _ queue hcalled happly
      refine hs.hidden (e := .effect p .pop (some item)) ?_ rfl
      have hmove := congrArg State.status (atomic_move s p (.popUnlock item))
      show Step _ s.atomic _ ⟨queue, (s.move p (.popUnlock item)).atomic.status⟩
      rw [hmove]
      exact heffect
  | unlockPush p hpc =>
      have hdone : s.atomic.status p = .done none := congrArg QueuePc.status hpc
      have hret : Step SafeQueue.apply s.atomic (.ret p none) _ := .ret p none hdone
      refine hs.visible ?_ rfl
      show Step _ s.atomic (.ret p none) (s.move p .idle).atomic
      rw [atomic_move]
      exact hret
  | unlockPop p item hpc =>
      have hdone : s.atomic.status p = .done (some item) := congrArg QueuePc.status hpc
      have hret : Step SafeQueue.apply s.atomic (.ret p (some item)) _ :=
        .ret p (some item) hdone
      refine hs.visible ?_ rfl
      show Step _ s.atomic (.ret p (some item)) (s.move p .idle).atomic
      rw [atomic_move]
      exact hret

theorem linearizes_of_reaches [Fintype Θ] (h : Reaches step init s) :
    Linearizes SafeQueue.apply init.atomic s.atomic s.history := by
  have hinv := h.inv
    (fun s => s.Guarded ∧ Linearizes SafeQueue.apply init.atomic s.atomic s.history)
    (fun _ _ _ hstep hs =>
      ⟨(step_cases hstep).guarded hs.1, (step_cases hstep).linearizes hs.1 hs.2⟩)
    ⟨guarded_init, Linearizes.refl _⟩
  exact hinv.2

end SharedQueue

/-! ## First in, first out -/

namespace QueueOp

variable {T : Type}

/-- The item an operation pushes. -/
def pushed : QueueOp T × Option T → Option T
  | (.push item, _) => some item
  | (.pop, _) => none

/-- The item an operation returns. -/
def popped : QueueOp T × Option T → Option T
  | (.push _, _) => none
  | (.pop, item) => item

end QueueOp

/-- What was pushed is what was popped and what is still queued, in order. -/
theorem SafeQueue.fifo {T : Type} {q q' : SafeQueue T} {ops : List (QueueOp T × Option T)}
    (h : Sequential SafeQueue.apply q ops q') :
    q.queue ++ ops.filterMap QueueOp.pushed = ops.filterMap QueueOp.popped ++ q'.queue := by
  induction h with
  | nil => simp
  | @snoc value' value'' ops op r h happly ih =>
      rw [List.filterMap_append, List.filterMap_append, ← List.append_assoc, ih]
      cases op with
      | push item =>
          cases happly
          simp [QueueOp.pushed, QueueOp.popped, SafeQueue.push]
      | pop =>
          obtain ⟨⟨item, q''⟩, hpop, heq⟩ := Option.map_eq_some_iff.mp happly
          cases heq
          rw [pop_eq_some.mp hpop]
          simp [QueueOp.pushed, QueueOp.popped]

namespace SharedQueue

variable {Θ T : Type} [DecidableEq Θ] [Fintype Θ]

/-- **`SafeQueue` is linearizable.** Whatever its threads do, there is an order in which their
calls took effect, one by one: it agrees with the calls and returns they saw, each call takes
effect once and before it returns, and the effects are those of `push` and `pop` on a queue
that was empty at first. So items come out in the order they went in, each once. -/
theorem linearizable {s : SharedQueue Θ T} (h : Reaches step init s) :
    ∃ es : List (QueueEvent Θ T),
      es.filter Event.visible = s.history ∧
      (∀ p, Calls p (s.pcs p).status (ofProcess p es)) ∧
      Sequential SafeQueue.apply SafeQueue.new (es.filterMap Event.effect?) s.queue ∧
      (es.filterMap Event.effect?).filterMap QueueOp.pushed
        = (es.filterMap Event.effect?).filterMap QueueOp.popped ++ s.queue.queue := by
  obtain ⟨es, hrun, hes⟩ := linearizes_of_reaches h
  have hsequential : Sequential SafeQueue.apply SafeQueue.new (es.filterMap Event.effect?)
      s.queue := hrun.sequential
  exact ⟨es, hes, hrun.calls fun _ => rfl, hsequential, SafeQueue.fifo hsequential⟩

/-- One thread waits for an item, and the other one brings it. -/
def handover : List (QueueAction (Fin 2) ℕ) :=
  [.callPop 1, .lock 1, .test 1, .callPush 0 7, .lock 0, .enqueue 0, .notify 0 (some 1),
    .unlock 0, .lock 1, .test 1, .front 1, .dequeue 1, .unlock 1]

theorem linearizable_handover :
    ∃ s : SharedQueue (Fin 2) ℕ, exec step init handover = some s ∧ s.queue.queue = [] ∧
      ∃ es : List (QueueEvent (Fin 2) ℕ), es.filter Event.visible
          = [.call 1 .pop, .call 0 (.push 7), .ret 0 none, .ret 1 (some 7)] ∧
        Sequential SafeQueue.apply SafeQueue.new (es.filterMap Event.effect?) s.queue := by
  refine ⟨_, rfl, rfl, ?_⟩
  obtain ⟨es, hes, -, hsequential, -⟩ := linearizable ⟨handover, rfl⟩
  exact ⟨es, hes, hsequential⟩

end SharedQueue

end VadService
