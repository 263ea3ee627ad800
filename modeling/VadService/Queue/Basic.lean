import VadService.Server.Basic
import VadService.Lib.AtomicObject
import Mathlib.Data.Fintype.Card

set_option autoImplicit false

/-! # `SafeQueue` as its threads run it

`push` and `pop` of `safe_queue.h`, one step for each thing they do to the mutex, the condition
variable and the queue. Finitely many threads of the type `Θ` call them, in any order and any
number of times. A thread in `cond_.wait` may also wake up for no reason.
-/

namespace VadService

open Machine

/-- Where a thread is in `push` or `pop`. -/
inductive QueuePc (T : Type) where
  | idle
  /-- in `push`, before the lock -/
  | pushLock (item : T)
  /-- before `queue_.push` -/
  | pushItem (item : T)
  /-- before `cond_.notify_one` -/
  | pushNotify
  /-- before `push` gives the lock back and returns -/
  | pushUnlock
  /-- in `pop`, before the lock -/
  | popLock
  /-- before the test of `queue_.empty` -/
  | popTest
  /-- blocked in `cond_.wait`, without the lock -/
  | asleep
  /-- unblocked in `cond_.wait`, before it has the lock again -/
  | awake
  /-- before the front is moved out -/
  | popFront
  /-- before `queue_.pop`, with the front in `item` -/
  | popDrop (item : T)
  /-- before `pop` gives the lock back and returns `item` -/
  | popUnlock (item : T)

namespace QueuePc

variable {T : Type}

/-- The thread has the lock. -/
def locked : QueuePc T → Bool
  | .pushItem _ => true
  | .pushNotify => true
  | .pushUnlock => true
  | .popTest => true
  | .popFront => true
  | .popDrop _ => true
  | .popUnlock _ => true
  | _ => false

/-- The thread is blocked on the condition variable. -/
def isAsleep : QueuePc T → Bool
  | .asleep => true
  | _ => false

/-- What a thread relies on, as long as it has the lock: a queue it has tested is not empty, and
the front it has moved out is the one it is going to pop. -/
def Relies : QueuePc T → List T → Prop
  | .popFront, queue => queue ≠ []
  | .popDrop item, queue => queue.head? = some item
  | _, _ => True

theorem relies_of_unlocked {pc : QueuePc T} (h : pc.locked = false) (queue : List T) :
    pc.Relies queue := by
  cases pc with
  | popFront => cases h
  | popDrop item => cases h
  | _ => trivial

/-- A push leaves the front as it is. -/
theorem Relies.append {pc : QueuePc T} {queue : List T} (h : pc.Relies queue) (item : T) :
    pc.Relies (queue ++ [item]) := by
  cases pc with
  | popFront => exact List.append_ne_nil_of_right_ne_nil queue (List.cons_ne_nil item [])
  | popDrop front =>
      have hfront : queue.head? = some front := h
      show (queue ++ [item]).head? = some front
      rw [List.head?_append, hfront]
      rfl
  | _ => trivial

theorem isAsleep_iff {pc : QueuePc T} : pc.isAsleep = true ↔ pc = .asleep := by
  cases pc <;> simp [isAsleep]

end QueuePc

/-- The operations of the queue. -/
inductive QueueOp (T : Type) where
  | push (item : T)
  | pop

/-- The calls and returns of the queue. `push` returns nothing. -/
abbrev QueueEvent (Θ T : Type) := AtomicObject.Event Θ (QueueOp T) (Option T)

/-- The members of `SafeQueue` and its threads. The last member only records what has
happened. -/
structure SharedQueue (Θ T : Type) where
  queue : SafeQueue T
  /-- `mutex_`: the thread that has it -/
  mutex : Option Θ
  pcs : Θ → QueuePc T
  history : List (QueueEvent Θ T)

/-- The steps of the threads. -/
inductive QueueAction (Θ T : Type) where
  | callPush (p : Θ) (item : T)
  | callPop (p : Θ)
  | lock (p : Θ)
  | enqueue (p : Θ)
  | notify (p : Θ) (woken : Option Θ)
  | test (p : Θ)
  | spurious (p : Θ)
  | front (p : Θ)
  | dequeue (p : Θ)
  | unlock (p : Θ)

namespace SharedQueue

variable {Θ T : Type}

/-- A new queue, which nobody uses yet. -/
def init : SharedQueue Θ T where
  queue := SafeQueue.new
  mutex := none
  pcs := fun _ => .idle
  history := []

section Steps

variable [DecidableEq Θ]

/-- A thread moves on. -/
def move (s : SharedQueue Θ T) (p : Θ) (pc : QueuePc T) : SharedQueue Θ T :=
  { s with pcs := Function.update s.pcs p pc }

/-- A thread takes the lock. -/
def acquire (s : SharedQueue Θ T) (p : Θ) (pc : QueuePc T) : SharedQueue Θ T :=
  { s.move p pc with mutex := some p }

/-- A thread gives the lock back. -/
def release (s : SharedQueue Θ T) (p : Θ) (pc : QueuePc T) : SharedQueue Θ T :=
  { s.move p pc with mutex := none }

/-- A call or a return. -/
def record (s : SharedQueue Θ T) (e : QueueEvent Θ T) : SharedQueue Θ T :=
  { s with history := s.history ++ [e] }

/-- One step. It is refused if the thread is elsewhere, or has to wait. -/
def step [Fintype Θ] (s : SharedQueue Θ T) : QueueAction Θ T → Option (SharedQueue Θ T)
  | .callPush p item => match s.pcs p with
      | .idle => some ((s.move p (.pushLock item)).record (.call p (.push item)))
      | _ => none
  | .callPop p => match s.pcs p with
      | .idle => some ((s.move p .popLock).record (.call p .pop))
      | _ => none
  | .lock p => match s.mutex, s.pcs p with
      | none, .pushLock item => some (s.acquire p (.pushItem item))
      | none, .popLock => some (s.acquire p .popTest)
      | none, .awake => some (s.acquire p .popTest)
      | _, _ => none
  | .enqueue p => match s.pcs p with
      | .pushItem item => some { s.move p .pushNotify with queue := s.queue.push item }
      | _ => none
  -- `notify_one` unblocks one of the blocked threads, if there is one
  | .notify p (some q) => match s.pcs p, s.pcs q with
      | .pushNotify, .asleep => some ((s.move p .pushUnlock).move q .awake)
      | _, _ => none
  | .notify p none => match s.pcs p with
      | .pushNotify =>
          if ∀ q, (s.pcs q).isAsleep = false then some (s.move p .pushUnlock) else none
      | _ => none
  | .test p => match s.pcs p with
      | .popTest =>
          if s.queue.queue.isEmpty then some (s.release p .asleep) else some (s.move p .popFront)
      | _ => none
  | .spurious p => match s.pcs p with
      | .asleep => some (s.move p .awake)
      | _ => none
  | .front p => match s.pcs p, s.queue.queue.head? with
      | .popFront, some item => some (s.move p (.popDrop item))
      | _, _ => none
  -- the item that leaves the queue is whatever is in front then
  | .dequeue p => match s.pcs p, s.queue.pop with
      | .popDrop item, some (_, queue) => some { s.move p (.popUnlock item) with queue := queue }
      | _, _ => none
  | .unlock p => match s.pcs p with
      | .pushUnlock => some ((s.release p .idle).record (.ret p none))
      | .popUnlock item => some ((s.release p .idle).record (.ret p (some item)))
      | _ => none

/-! ## What a step does -/

/-- The accepted steps, one constructor for each way a step goes. -/
inductive Transition (s : SharedQueue Θ T) : QueueAction Θ T → SharedQueue Θ T → Prop where
  | callPush (p : Θ) (item : T) (hpc : s.pcs p = .idle) :
      Transition s (.callPush p item)
        ((s.move p (.pushLock item)).record (.call p (.push item)))
  | callPop (p : Θ) (hpc : s.pcs p = .idle) :
      Transition s (.callPop p) ((s.move p .popLock).record (.call p .pop))
  | lockPush (p : Θ) (item : T) (hmutex : s.mutex = none) (hpc : s.pcs p = .pushLock item) :
      Transition s (.lock p) (s.acquire p (.pushItem item))
  | lockPop (p : Θ) (hmutex : s.mutex = none) (hpc : s.pcs p = .popLock ∨ s.pcs p = .awake) :
      Transition s (.lock p) (s.acquire p .popTest)
  | enqueue (p : Θ) (item : T) (hpc : s.pcs p = .pushItem item) :
      Transition s (.enqueue p) { s.move p .pushNotify with queue := s.queue.push item }
  | notifyOne (p q : Θ) (hpc : s.pcs p = .pushNotify) (hasleep : s.pcs q = .asleep) :
      Transition s (.notify p (some q)) ((s.move p .pushUnlock).move q .awake)
  | notifyNone (p : Θ) (hpc : s.pcs p = .pushNotify)
      (hasleep : ∀ q, (s.pcs q).isAsleep = false) :
      Transition s (.notify p none) (s.move p .pushUnlock)
  | sleep (p : Θ) (hpc : s.pcs p = .popTest) (hqueue : s.queue.queue = []) :
      Transition s (.test p) (s.release p .asleep)
  | pass (p : Θ) (hpc : s.pcs p = .popTest) (hqueue : s.queue.queue ≠ []) :
      Transition s (.test p) (s.move p .popFront)
  | spurious (p : Θ) (hpc : s.pcs p = .asleep) : Transition s (.spurious p) (s.move p .awake)
  | front (p : Θ) (item : T) (hpc : s.pcs p = .popFront)
      (hfront : s.queue.queue.head? = some item) :
      Transition s (.front p) (s.move p (.popDrop item))
  | dequeue (p : Θ) (item dropped : T) (queue : SafeQueue T) (hpc : s.pcs p = .popDrop item)
      (hpop : s.queue.pop = some (dropped, queue)) :
      Transition s (.dequeue p) { s.move p (.popUnlock item) with queue := queue }
  | unlockPush (p : Θ) (hpc : s.pcs p = .pushUnlock) :
      Transition s (.unlock p) ((s.release p .idle).record (.ret p none))
  | unlockPop (p : Θ) (item : T) (hpc : s.pcs p = .popUnlock item) :
      Transition s (.unlock p) ((s.release p .idle).record (.ret p (some item)))

/-- **Inversion.** What an accepted step found and what it left. -/
theorem step_cases [Fintype Θ] {s s' : SharedQueue Θ T} {a : QueueAction Θ T}
    (h : s.step a = some s') : Transition s a s' := by
  cases a with
  | lock p =>
      rw [step] at h
      split at h
      · cases h
        exact .lockPush p _ ‹_› ‹_›
      · cases h
        exact .lockPop p ‹_› (.inl ‹_›)
      · cases h
        exact .lockPop p ‹_› (.inr ‹_›)
      · cases h
  | notify p woken =>
      cases woken with
      | some q =>
          rw [step] at h
          split at h
          · cases h
            exact .notifyOne p q ‹_› ‹_›
          · cases h
      | none =>
          rw [step] at h
          split at h
          · split at h
            · cases h
              exact .notifyNone p ‹_› ‹_›
            · cases h
          · cases h
  | test p =>
      rw [step] at h
      split at h
      · split at h
        · cases h
          exact .sleep p ‹_› (List.isEmpty_iff.mp ‹_›)
        · cases h
          exact .pass p ‹_› (mt List.isEmpty_iff.mpr ‹_›)
      · cases h
  | unlock p =>
      rw [step] at h
      split at h
      · cases h
        exact .unlockPush p ‹_›
      · cases h
        exact .unlockPop p _ ‹_›
      · cases h
  | _ =>
      rw [step] at h
      split at h
      · cases h
        constructor <;> assumption
      · cases h

/-! ## The lock -/

/-- The threads between a lock and an unlock are the one that has the mutex. -/
def Exclusive (s : SharedQueue Θ T) : Prop := ∀ p, (s.pcs p).locked = true ↔ s.mutex = some p

section Exclusive

variable {s : SharedQueue Θ T} {p q : Θ} {pc : QueuePc T}

@[simp] theorem move_pcs_self : (s.move p pc).pcs p = pc := by
  show Function.update s.pcs p pc p = pc
  exact Function.update_self p pc s.pcs

theorem move_pcs_of_ne (h : q ≠ p) : (s.move p pc).pcs q = s.pcs q := by
  show Function.update s.pcs p pc q = s.pcs q
  exact Function.update_of_ne h pc s.pcs

theorem Exclusive.move (h : s.Exclusive) (hpc : pc.locked = (s.pcs p).locked) :
    (s.move p pc).Exclusive := by
  intro q
  by_cases hq : q = p
  · rw [hq, move_pcs_self, hpc]
    exact h p
  · rw [move_pcs_of_ne hq]
    exact h q

theorem Exclusive.acquire (h : s.Exclusive) (hmutex : s.mutex = none) (hpc : pc.locked = true) :
    (s.acquire p pc).Exclusive := by
  intro q
  show ((s.move p pc).pcs q).locked = true ↔ some p = some q
  by_cases hq : q = p
  · rw [hq, move_pcs_self]
    exact iff_of_true hpc rfl
  · rw [move_pcs_of_ne hq, h q, hmutex]
    exact iff_of_false (by simp) (by simpa using Ne.symm hq)

theorem Exclusive.release (h : s.Exclusive) (hold : (s.pcs p).locked = true)
    (hpc : pc.locked = false) : (s.release p pc).Exclusive := by
  have hmutex : s.mutex = some p := (h p).mp hold
  intro q
  show ((s.move p pc).pcs q).locked = true ↔ none = some q
  by_cases hq : q = p
  · rw [hq, move_pcs_self, hpc]
    simp
  · rw [move_pcs_of_ne hq, h q, hmutex]
    exact iff_of_false (by simpa using Ne.symm hq) (by simp)

omit [DecidableEq Θ] in
/-- Two threads are not between a lock and an unlock at once. -/
theorem Exclusive.unique (h : s.Exclusive) (hp : (s.pcs p).locked = true)
    (hq : (s.pcs q).locked = true) : q = p := by
  have hmutex := ((h q).mp hq).symm.trans ((h p).mp hp)
  exact Option.some_inj.mp hmutex

end Exclusive

/-- What holds at every step: the lock excludes, and a thread finds the queue as it left it. -/
structure Guarded (s : SharedQueue Θ T) : Prop where
  exclusive : s.Exclusive
  relies : ∀ p, (s.pcs p).Relies s.queue.queue

omit [DecidableEq Θ] in
theorem guarded_init : (init : SharedQueue Θ T).Guarded :=
  ⟨fun _ => iff_of_false Bool.false_ne_true nofun, fun _ => trivial⟩

variable {s s' : SharedQueue Θ T} {a : QueueAction Θ T}

theorem Transition.exclusive (h : Transition s a s') (hs : s.Exclusive) : s'.Exclusive := by
  cases h with
  | callPush p item hpc => exact hs.move (by rw [hpc]; rfl)
  | callPop p hpc => exact hs.move (by rw [hpc]; rfl)
  | lockPush p item hmutex hpc => exact hs.acquire hmutex rfl
  | lockPop p hmutex hpc => exact hs.acquire hmutex rfl
  | enqueue p item hpc => exact hs.move (by rw [hpc]; rfl)
  | notifyOne p q hpc hasleep =>
      have hne : q ≠ p := by
        rintro rfl
        rw [hpc] at hasleep
        cases hasleep
      have hfirst : (s.move p .pushUnlock).Exclusive := hs.move (by rw [hpc]; rfl)
      exact hfirst.move (by rw [move_pcs_of_ne hne, hasleep]; rfl)
  | notifyNone p hpc hasleep => exact hs.move (by rw [hpc]; rfl)
  | sleep p hpc hqueue => exact hs.release (by rw [hpc]; rfl) rfl
  | pass p hpc hqueue => exact hs.move (by rw [hpc]; rfl)
  | spurious p hpc => exact hs.move (by rw [hpc]; rfl)
  | front p item hpc hfront => exact hs.move (by rw [hpc]; rfl)
  | dequeue p item dropped queue hpc hpop => exact hs.move (by rw [hpc]; rfl)
  | unlockPush p hpc => exact hs.release (by rw [hpc]; rfl) rfl
  | unlockPop p item hpc => exact hs.release (by rw [hpc]; rfl) rfl

/-- A thread that moves on relies on the queue as it is. -/
theorem relies_move (p : Θ) {pc : QueuePc T} (hpc : pc.Relies s.queue.queue)
    (hs : ∀ q, (s.pcs q).Relies s.queue.queue) :
    ∀ q, ((s.move p pc).pcs q).Relies s.queue.queue := by
  intro q
  by_cases hqp : q = p
  · rw [hqp, move_pcs_self]
    exact hpc
  · rw [move_pcs_of_ne hqp]
    exact hs q

/-- **Every step keeps the lock exclusive**, and what the threads rely on. -/
theorem Transition.guarded (h : Transition s a s') (hs : s.Guarded) : s'.Guarded := by
  refine ⟨h.exclusive hs.exclusive, ?_⟩
  have hmove := fun (p : Θ) (pc : QueuePc T) (hpc : pc.Relies s.queue.queue) =>
    relies_move p hpc hs.relies
  cases h with
  | callPush p item hpc => exact hmove p _ trivial
  | callPop p hpc => exact hmove p _ trivial
  | lockPush p item hmutex hpc => exact hmove p _ trivial
  | lockPop p hmutex hpc => exact hmove p _ trivial
  | enqueue p item hpc =>
      intro q
      exact (hmove p .pushNotify trivial q).append item
  | notifyOne p q hpc hasleep =>
      intro r
      have hawake : (QueuePc.awake : QueuePc T).Relies (s.move p .pushUnlock).queue.queue := trivial
      exact relies_move q hawake (hmove p .pushUnlock trivial) r
  | notifyNone p hpc hasleep => exact hmove p _ trivial
  | sleep p hpc hqueue => exact hmove p _ trivial
  | pass p hpc hqueue => exact hmove p _ hqueue
  | spurious p hpc => exact hmove p _ trivial
  | front p item hpc hfront => exact hmove p _ hfront
  | dequeue p item dropped queue hpc hpop =>
      -- nobody else relies on the front, since `p` has the lock
      intro q
      show ((s.move p (.popUnlock item)).pcs q).Relies queue.queue
      by_cases hq : q = p
      · rw [hq, move_pcs_self]
        trivial
      · rw [move_pcs_of_ne hq]
        refine QueuePc.relies_of_unlocked ?_ _
        by_contra hlocked
        exact hq (hs.exclusive.unique (by rw [hpc]; rfl) (by simpa using hlocked))
  | unlockPush p hpc => exact hmove p _ trivial
  | unlockPop p item hpc => exact hmove p _ trivial

theorem guarded_of_reaches [Fintype Θ] (h : Reaches step init s) : s.Guarded :=
  h.inv Guarded (fun _ _ _ hstep hs => (step_cases hstep).guarded hs) guarded_init

end Steps

end SharedQueue

end VadService
