import VadService.Queue.Basic
import VadService.Lib.Progress

set_option autoImplicit false

/-! # Nobody sleeps beside a full queue

`notify_one` wakes one thread at most, a thread that wakes up may find the queue empty, and a
thread that has tested the queue but not locked it yet may be late. Still no item stays in the
queue while a thread sleeps, once the others have done what they can (`no_lost_wakeup`): each
item in the queue has a thread that will look for it or a notification to come
(`Attended`).
-/

namespace VadService

open Machine

namespace QueuePc

variable {T : Type}

/-- The steps a thread still takes by itself, with those of a thread it wakes up. -/
def steps : QueuePc T → ℕ
  | .pushLock _ => 9
  | .pushItem _ => 8
  | .pushNotify => 7
  | .pushUnlock => 1
  | .popLock => 5
  | .awake => 5
  | .popTest => 4
  | .popFront => 3
  | .popDrop _ => 2
  | .popUnlock _ => 1
  | _ => 0

/-- The items a thread will take, or wake up another thread for. -/
def attends : QueuePc T → ℕ
  | .pushNotify => 1
  | .popLock => 1
  | .popTest => 1
  | .awake => 1
  | .popFront => 1
  | .popDrop _ => 1
  | _ => 0

theorem steps_le (pc : QueuePc T) : pc.steps ≤ 9 := by
  cases pc <;> simp [steps]

end QueuePc

/-- The steps the threads take by themselves: not the calls, and not the wakeups for no
reason. -/
def QueueAction.own {Θ T : Type} : QueueAction Θ T → Bool
  | .callPush _ _ => false
  | .callPop _ => false
  | .spurious _ => false
  | _ => true

namespace SharedQueue

variable {Θ T : Type} [DecidableEq Θ] [Fintype Θ] {s s' : SharedQueue Θ T} {a : QueueAction Θ T}

/-! ## The steps are bounded -/

/-- The steps all threads still take by themselves. -/
def work (s : SharedQueue Θ T) : ℕ := ∑ p, (s.pcs p).steps

/-- The items that are attended to. -/
def attended (s : SharedQueue Θ T) : ℕ := ∑ p, (s.pcs p).attends

omit [DecidableEq Θ] in
theorem work_le (s : SharedQueue Θ T) : s.work ≤ 9 * Fintype.card Θ := by
  calc s.work ≤ ∑ _p : Θ, 9 := Finset.sum_le_sum fun p _ => (s.pcs p).steps_le
    _ = 9 * Fintype.card Θ := by simp [mul_comm]

theorem work_move (s : SharedQueue Θ T) (p : Θ) (pc : QueuePc T) :
    (s.move p pc).work + (s.pcs p).steps = s.work + pc.steps :=
  sum_update QueuePc.steps s.pcs p pc

theorem attended_move (s : SharedQueue Θ T) (p : Θ) (pc : QueuePc T) :
    (s.move p pc).attended + (s.pcs p).attends = s.attended + pc.attends :=
  sum_update QueuePc.attends s.pcs p pc

/-- A thread that moves on has less to do. -/
theorem work_move_lt (p : Θ) (pc : QueuePc T) (h : pc.steps < (s.pcs p).steps) :
    (s.move p pc).work < s.work := by
  have hmove := s.work_move p pc
  omega

/-- A notification moves a thread on and wakes another one. -/
theorem notify_move (s : SharedQueue Θ T) {p q : Θ} (hpc : s.pcs p = .pushNotify)
    (hasleep : s.pcs q = .asleep) :
    ((s.move p .pushUnlock).move q .awake).work + 1 = s.work ∧
      ((s.move p .pushUnlock).move q .awake).attended = s.attended := by
  have hne : q ≠ p := by
    rintro rfl
    rw [hpc] at hasleep
    cases hasleep
  have hwork := s.work_move p .pushUnlock
  have hwork' := (s.move p .pushUnlock).work_move q .awake
  have hattended := s.attended_move p .pushUnlock
  have hattended' := (s.move p .pushUnlock).attended_move q .awake
  rw [hpc] at hwork hattended
  rw [move_pcs_of_ne hne, hasleep] at hwork' hattended'
  simp only [QueuePc.steps, QueuePc.attends] at hwork hwork' hattended hattended'
  omega

/-- A thread's own step leaves less to do. -/
theorem Transition.work_lt (h : Transition s a s') (hown : a.own = true) : s'.work < s.work := by
  cases h with
  | callPush p item hpc => cases hown
  | callPop p hpc => cases hown
  | lockPush p item hmutex hpc =>
      exact work_move_lt p (.pushItem item) (by simp [hpc, QueuePc.steps])
  | lockPop p hmutex hpc =>
      refine work_move_lt p .popTest ?_
      rcases hpc with hpc | hpc
      · simp [hpc, QueuePc.steps]
      · simp [hpc, QueuePc.steps]
  | enqueue p item hpc =>
      exact work_move_lt p .pushNotify (by simp [hpc, QueuePc.steps])
  | notifyOne p q hpc hasleep =>
      have hwork := (s.notify_move hpc hasleep).1
      omega
  | notifyNone p hpc hasleep => exact work_move_lt p _ (by simp [hpc, QueuePc.steps])
  | sleep p hpc hqueue =>
      exact work_move_lt p .asleep (by simp [hpc, QueuePc.steps])
  | pass p hpc hqueue => exact work_move_lt p _ (by simp [hpc, QueuePc.steps])
  | spurious p hpc => cases hown
  | front p item hpc hfront => exact work_move_lt p _ (by simp [hpc, QueuePc.steps])
  | dequeue p item dropped queue hpc hpop =>
      exact work_move_lt p (.popUnlock item) (by simp [hpc, QueuePc.steps])
  | unlockPush p hpc =>
      exact work_move_lt p .idle (by simp [hpc, QueuePc.steps])
  | unlockPop p item hpc =>
      exact work_move_lt p .idle (by simp [hpc, QueuePc.steps])

/-! ## Every item is attended to -/

/-- While a thread sleeps, every item in the queue is attended to. -/
def Attended (s : SharedQueue Θ T) : Prop :=
  ∀ p, s.pcs p = .asleep → s.queue.queue.length ≤ s.attended

/-- A thread that attends to as much as before, and does not go to sleep. -/
theorem Attended.move (h : s.Attended) {p : Θ} {pc : QueuePc T}
    (hpc : (s.pcs p).attends ≤ pc.attends) (hnew : pc ≠ .asleep) : (s.move p pc).Attended := by
  intro q hq
  have hne : q ≠ p := by
    rintro rfl
    rw [move_pcs_self] at hq
    exact hnew hq
  rw [move_pcs_of_ne hne] at hq
  have hlen := h q hq
  have hmove := s.attended_move p pc
  show s.queue.queue.length ≤ (s.move p pc).attended
  omega

/-- **Every step keeps the items attended to.** -/
theorem Transition.attended (h : Transition s a s') (hs : s.Attended) : s'.Attended := by
  have hmove : ∀ {p : Θ} {pc : QueuePc T}, (s.pcs p).attends ≤ pc.attends → pc ≠ .asleep →
      (s.move p pc).Attended := fun hpc hnew => hs.move hpc hnew
  cases h with
  | callPush p item hpc => exact hmove (p := p) (by simp [hpc, QueuePc.attends]) (by simp)
  | callPop p hpc => exact hmove (p := p) (by simp [hpc, QueuePc.attends]) (by simp)
  | lockPush p item hmutex hpc => exact hmove (p := p) (by simp [hpc, QueuePc.attends]) (by simp)
  | lockPop p hmutex hpc =>
      refine hmove (p := p) ?_ (by simp)
      rcases hpc with hpc | hpc
      · simp [hpc, QueuePc.attends]
      · simp [hpc, QueuePc.attends]
  | enqueue p item hpc =>
      -- one item more, and its notification
      intro q hq
      have hne : q ≠ p := by
        rintro rfl
        rw [show ({ s.move q .pushNotify with queue := s.queue.push item } :
          SharedQueue Θ T).pcs q = .pushNotify from move_pcs_self] at hq
        cases hq
      have hq : s.pcs q = .asleep := (move_pcs_of_ne hne).symm.trans hq
      have hlen := hs q hq
      have hattended := s.attended_move p .pushNotify
      rw [hpc] at hattended
      simp only [QueuePc.attends] at hattended
      show (s.queue.queue ++ [item]).length ≤ (s.move p .pushNotify).attended
      rw [List.length_append, List.length_singleton]
      omega
  | notifyOne p q hpc hasleep =>
      intro _ _
      have hlen := hs q hasleep
      have hattended := (s.notify_move hpc hasleep).2
      show s.queue.queue.length ≤ ((s.move p .pushUnlock).move q .awake).attended
      omega
  | notifyNone p hpc hasleep =>
      intro q hq
      have hne : q ≠ p := by
        rintro rfl
        rw [move_pcs_self] at hq
        cases hq
      rw [move_pcs_of_ne hne] at hq
      exact absurd (hasleep q) (by simp [hq, QueuePc.isAsleep])
  | sleep p hpc hqueue =>
      intro q _
      show s.queue.queue.length ≤ _
      rw [hqueue]
      exact Nat.zero_le _
  | pass p hpc hqueue => exact hmove (by simp [hpc, QueuePc.attends]) (by simp)
  | spurious p hpc => exact hmove (by simp [hpc, QueuePc.attends]) (by simp)
  | front p item hpc hfront => exact hmove (by simp [hpc, QueuePc.attends]) (by simp)
  | dequeue p item dropped queue hpc hpop =>
      -- one item less, and the thread that took it
      intro q hq
      have hne : q ≠ p := by
        rintro rfl
        rw [show ({ s.move q (.popUnlock item) with queue := queue } :
          SharedQueue Θ T).pcs q = .popUnlock item from move_pcs_self] at hq
        cases hq
      have hq : s.pcs q = .asleep := (move_pcs_of_ne hne).symm.trans hq
      have hlen := hs q hq
      have hattended := s.attended_move p (.popUnlock item)
      rw [hpc] at hattended
      simp only [QueuePc.attends] at hattended
      rw [SafeQueue.pop_eq_some.mp hpop, List.length_cons] at hlen
      show queue.queue.length ≤ (s.move p (.popUnlock item)).attended
      omega
  | unlockPush p hpc => exact hmove (p := p) (by simp [hpc, QueuePc.attends]) (by simp)
  | unlockPop p item hpc => exact hmove (p := p) (by simp [hpc, QueuePc.attends]) (by simp)

omit [DecidableEq Θ] in
theorem attended_init : (init : SharedQueue Θ T).Attended := nofun

theorem attended_of_reaches (h : Reaches step init s) : s.Attended :=
  h.inv Attended (fun _ _ _ hstep hs => (step_cases hstep).attended hs) attended_init

/-! ## When nothing is left to do -/

/-- The thread that has the lock can go on. -/
theorem Guarded.mutex_of_settled (hs : s.Guarded)
    (hsettled : Settled step (fun a : QueueAction Θ T => a.own = true) s) : s.mutex = none := by
  by_contra hmutex
  obtain ⟨p, hp⟩ := Option.ne_none_iff_exists'.mp hmutex
  have hlocked := (hs.exclusive p).mpr hp
  have henqueue := hsettled (.enqueue p) rfl
  have htest := hsettled (.test p) rfl
  have hfront := hsettled (.front p) rfl
  have hdequeue := hsettled (.dequeue p) rfl
  have hunlock := hsettled (.unlock p) rfl
  cases hpc : s.pcs p with
  | idle => simp [hpc, QueuePc.locked] at hlocked
  | pushLock item => simp [hpc, QueuePc.locked] at hlocked
  | pushItem item => simp [step, hpc] at henqueue
  | pushNotify =>
      by_cases hasleep : ∀ q, (s.pcs q).isAsleep = false
      · have hnotify := hsettled (.notify p none) rfl
        simp [step, hpc, hasleep] at hnotify
      · push Not at hasleep
        obtain ⟨q, hq⟩ := hasleep
        have hq : s.pcs q = .asleep := QueuePc.isAsleep_iff.mp (by simpa using hq)
        have hnotify := hsettled (.notify p (some q)) rfl
        simp [step, hpc, hq] at hnotify
  | pushUnlock => simp [step, hpc] at hunlock
  | popLock => simp [hpc, QueuePc.locked] at hlocked
  | popTest =>
      rw [step, hpc] at htest
      dsimp only at htest
      split_ifs at htest
  | asleep => simp [hpc, QueuePc.locked] at hlocked
  | awake => simp [hpc, QueuePc.locked] at hlocked
  | popFront =>
      have hrelies := hs.relies p
      rw [hpc] at hrelies
      obtain ⟨item, items, hqueue⟩ := List.exists_cons_of_ne_nil hrelies
      simp [step, hpc, hqueue] at hfront
  | popDrop item =>
      have hrelies := hs.relies p
      rw [hpc] at hrelies
      obtain ⟨items, hqueue⟩ := List.head?_eq_some_iff.mp hrelies
      have hpop : s.queue.pop = some (item, ⟨items⟩) := SafeQueue.pop_eq_some.mpr hqueue
      simp [step, hpc, hpop] at hdequeue
  | popUnlock item => simp [step, hpc] at hunlock

/-- Then every thread is outside of the calls, or asleep. -/
theorem Guarded.pcs_of_settled (hs : s.Guarded)
    (hsettled : Settled step (fun a : QueueAction Θ T => a.own = true) s) (p : Θ) :
    s.pcs p = .idle ∨ s.pcs p = .asleep := by
  have hmutex := hs.mutex_of_settled hsettled
  have hlock := hsettled (.lock p) rfl
  have hfree : (s.pcs p).locked = false := by
    by_contra hlocked
    have hp := (hs.exclusive p).mp (by simpa using hlocked)
    rw [hmutex] at hp
    cases hp
  cases hpc : s.pcs p with
  | idle => exact .inl rfl
  | asleep => exact .inr rfl
  | pushLock item => simp [step, hmutex, hpc] at hlock
  | popLock => simp [step, hmutex, hpc] at hlock
  | awake => simp [step, hmutex, hpc] at hlock
  | _ => simp [hpc, QueuePc.locked] at hfree

omit [DecidableEq Θ] in
/-- Nothing is attended to when every thread is outside of the calls or asleep. -/
theorem attended_eq_zero (h : ∀ p, s.pcs p = .idle ∨ s.pcs p = .asleep) : s.attended = 0 := by
  refine Finset.sum_eq_zero fun p _ => ?_
  rcases h p with hp | hp
  · rw [hp]
    rfl
  · rw [hp]
    rfl

/-- **No wakeup is lost.** Two threads are never between a lock and an unlock at once. Left
alone, the threads take at most `9` steps for each of them in all, and they come to a point
where they have none left. Then each of them is outside of `push` and `pop` or waits for an item,
and if one waits, the queue is empty. -/
theorem no_lost_wakeup (h : Reaches step init s) :
    (∀ p q, (s.pcs p).locked = true → (s.pcs q).locked = true → q = p) ∧
    (∀ as t, exec step s as = some t → (∀ a ∈ as, a.own = true) →
      as.length ≤ 9 * Fintype.card Θ) ∧
    (∃ as t, (∀ a ∈ as, a.own = true) ∧ exec step s as = some t ∧
      Settled step (fun a : QueueAction Θ T => a.own = true) t) ∧
    (Settled step (fun a : QueueAction Θ T => a.own = true) s →
      (∀ p, s.pcs p = .idle ∨ s.pcs p = .asleep) ∧
        ∀ p, s.pcs p = .asleep → s.queue.queue = []) := by
  have hguarded := guarded_of_reaches h
  have hinv : ∀ (s : SharedQueue Θ T) a s', step s a = some s' → True → True :=
    fun _ _ _ _ _ => trivial
  have hwork : ∀ (s : SharedQueue Θ T) a s', step s a = some s' → True → a.own = true →
      s'.work < s.work := fun _ _ _ hstep _ hown => (step_cases hstep).work_lt hown
  refine ⟨fun p q hp hq => hguarded.exclusive.unique hp hq, ?_, ?_, ?_⟩
  · intro as t hexec hown
    have hlen := exec_length_le hinv hwork hexec hown trivial
    have hle := s.work_le
    omega
  · exact exists_settled hinv hwork trivial
  · intro hsettled
    have hpcs := hguarded.pcs_of_settled hsettled
    refine ⟨hpcs, fun p hp => ?_⟩
    have hlen := attended_of_reaches h p hp
    rw [attended_eq_zero hpcs] at hlen
    exact List.length_eq_zero_iff.mp (Nat.le_zero.mp hlen)

theorem no_lost_wakeup_asleep :
    ∃ s : SharedQueue (Fin 2) ℕ,
      exec step init [.callPop 1, .lock 1, .test 1] = some s ∧ s.pcs 1 = .asleep ∧
        ∀ as t, exec step s as = some t → (∀ a ∈ as, a.own = true) → as.length ≤ 18 := by
  refine ⟨_, rfl, rfl, ?_⟩
  exact (no_lost_wakeup ⟨[.callPop 1, .lock 1, .test 1], rfl⟩).2.1

end SharedQueue

end VadService
