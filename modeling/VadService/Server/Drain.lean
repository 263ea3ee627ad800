import VadService.Server.Isolation
import VadService.Server.Shutdown
import VadService.Lib.Progress

set_option autoImplicit false

/-! # The worker gets to the end of its queue

While the other threads rest, the worker takes at most five steps for each task, and it stops
only when it waits in `pop` on an empty queue or has left its loop. At that point every message
of an open connection has its response, and the responses have been sent if the library has
refused none (`drains`).
-/

namespace VadService

open Machine

/-- The steps of the worker thread. -/
def Action.ofWorker {H : Type} : Action H → Bool
  | .test => true
  | .pop => true
  | .lookup => true
  | .process _ => true
  | .send _ => true
  | _ => false

/-- The steps in which the library does not refuse the response. -/
def Action.delivers {H : Type} : Action H → Bool
  | .send delivered => delivered
  | _ => true

/-- The steps the worker takes until it is back in `pop`. -/
def Worker.steps {H : Type} : Worker H → ℕ
  | .lookup _ => 4
  | .process _ _ => 3
  | .send _ _ => 2
  | .test => 1
  | _ => 0

namespace System

variable {E H : Type} [DecidableEq H] {env : Env E} {st st' : System E H} {a : Action H}

/-- The steps the worker takes until its queue is empty. -/
def workerSteps (st : System E H) : ℕ :=
  5 * st.server.taskQueue.queue.length + st.worker.steps

/-- A step of the worker leaves less to do. -/
theorem workerSteps_lt (h : st.step env a = some st') (ha : a.ofWorker = true) :
    st'.workerSteps < st.workerSteps := by
  unfold workerSteps
  cases step_cases h with
  | test hworker =>
      rw [hworker]
      cases st.server.running <;> simp [Worker.steps]
  | pop task taskQueue hworker hqueue =>
      rw [hworker, hqueue, List.length_cons]
      simp only [Worker.steps]
      omega
  | found task ptr hworker hsession | skip task hworker hsession =>
      rw [hworker]
      simp [Worker.steps]
  | process now task ptr session hworker hobject =>
      rw [hworker]
      simp [Worker.steps]
  | send delivered hdl resp hworker =>
      rw [hworker]
      simp [Worker.steps]
  | _ => cases ha

/-- The worker has nothing to do: it waits in `pop` on an empty queue, or it is not in its
loop. -/
theorem worker_of_settled (howned : st.Owned)
    (hsettled : Settled (step env) (fun a => a.ofWorker = true) st) :
    (st.worker = .pop ∧ st.server.taskQueue.queue = []) ∨ st.worker = .unborn ∨
      st.worker = .exited := by
  cases hworker : st.worker with
  | unborn => exact .inr (.inl rfl)
  | exited => exact .inr (.inr rfl)
  | test =>
      have htest := hsettled .test rfl
      simp [step, hworker] at htest
  | pop =>
      have hpop := hsettled .pop rfl
      cases hqueue : st.server.taskQueue.queue with
      | nil => exact .inl ⟨rfl, rfl⟩
      | cons task tasks =>
          have hfront : st.server.taskQueue.pop = some (task, ⟨tasks⟩) :=
            SafeQueue.pop_eq_some.mpr hqueue
          simp [step, hworker, hfront] at hpop
  | lookup task =>
      have hlookup := hsettled .lookup rfl
      cases hsession : st.server.sessions task.hdl with
      | none => simp [step, hworker, hsession] at hlookup
      | some ptr => simp [step, hworker, hsession] at hlookup
  | process task ptr =>
      -- the object is on the heap
      have hprocess := hsettled (.process 0) rfl
      have howner := howned.process task ptr hworker
      rw [owners, List.getElem?_map] at howner
      obtain ⟨session, hobject, -⟩ := Option.map_eq_some_iff.mp howner
      simp [step, hworker, AudioServer.serve, hobject] at hprocess
  | send hdl resp =>
      have hsend := hsettled (.send true) rfl
      simp [step, hworker] at hsend

/-- A worker that waits in `pop` on an empty queue takes no step. -/
theorem settled_of_pop (hworker : st.worker = .pop) (hqueue : st.server.taskQueue.queue = []) :
    Settled (step env) (fun a => a.ofWorker = true) st := by
  intro a ha
  cases a with
  | test | lookup | process | send => simp [step, hworker]
  | pop =>
      have hempty : st.server.taskQueue.pop = none := by
        rw [SafeQueue.pop, hqueue]
      simp [step, hworker, hempty]
  | _ => cases ha

/-! ## What was sent -/

/-- A response that is not refused is sent. -/
theorem sent_eq_step (h : st.step env a = some st') (ha : a.delivers = true)
    (hs : st.sent ++ st.worker.toSend = st.computed) :
    st'.sent ++ st'.worker.toSend = st'.computed := by
  have hnil : st.worker.toSend = [] → st.sent ++ [] = st.computed := fun hworker => by
    rw [← hworker]
    exact hs
  cases step_cases h with
  | process now task ptr session hworker hobject =>
      have hsent := hnil (by rw [hworker]; rfl)
      rw [List.append_nil] at hsent
      show st.sent ++ [(task.hdl, _)] = List.map _ (st.answered ++ [_])
      rw [List.map_append, hsent]
      rfl
  | send delivered hdl resp hworker =>
      have hdelivered : delivered = true := ha
      rw [hworker] at hs
      show (if delivered = true then st.sent ++ [(hdl, resp)] else st.sent) ++ [] = st.computed
      rw [if_pos hdelivered, List.append_nil]
      exact hs
  | test hworker =>
      have hsent := hnil (by rw [hworker]; rfl)
      cases hrunning : st.server.running <;> exact hsent
  | spawn hmain hworker => exact hnil (by rw [hworker]; rfl)
  | pop task taskQueue hworker | found task ptr hworker | skip task hworker =>
      exact hnil (by rw [hworker]; rfl)
  | setRunning | listen | runEnds | openConn | closeConn | receive | handle => exact hs
  | enter | clear | stopServer | askJoinable | join => exact hs

theorem sent_eq_of_exec {as : List (Action H)} (h : exec (step env) init as = some st)
    (ha : ∀ a ∈ as, a.delivers = true) : st.sent ++ st.worker.toSend = st.computed := by
  induction as using List.reverseRecOn generalizing st with
  | nil =>
      cases h
      rfl
  | append_singleton as a ih =>
      rw [exec_append] at h
      obtain ⟨mid, hmid, hlast⟩ := Option.bind_eq_some_iff.mp h
      have hstep : mid.step env a = some st := by
        simpa [exec_cons] using hlast
      exact sent_eq_step hstep (ha a (by simp))
        (ih hmid fun b hb => ha b (List.mem_append_left _ hb))

/-- **The worker drains its queue.** In every reachable state with `n` queued tasks it has at
most `5 * n + 4` steps to take in all, and it can take them until it has none left. Then, if it
is in its loop, every message of an open connection has been answered, in order; and if the
library has refused no response, the client has been sent these responses and no others. -/
theorem drains {as : List (Action H)} (h : exec (step env) init as = some st) :
    (∀ bs st', exec (step env) st bs = some st' → (∀ a ∈ bs, a.ofWorker = true) →
      bs.length ≤ 5 * st.server.taskQueue.queue.length + 4) ∧
    (∃ bs st', (∀ a ∈ bs, a.ofWorker = true) ∧ exec (step env) st bs = some st' ∧
      Settled (step env) (fun a => a.ofWorker = true) st') ∧
    (Settled (step env) (fun a => a.ofWorker = true) st → st.worker ≠ .unborn →
      st.worker ≠ .exited → ∀ hdl, st.conns hdl = .opened →
        (st.answersOf hdl).map Answer.task = st.tasksOf hdl ∧
        ((∀ a ∈ as, a.delivers = true) →
          (st.sent.filter fun resp => resp.1 = hdl).map Prod.snd
            = (st.answersOf hdl).map Answer.response)) := by
  have hsim := simulates_of_reaches ⟨as, h⟩
  have hinv : ∀ (s : System E H) a s', s.step env a = some s' → True → True :=
    fun _ _ _ _ _ => trivial
  have hless : ∀ (s : System E H) a s', s.step env a = some s' → True → a.ofWorker = true →
      s'.workerSteps < s.workerSteps := fun _ _ _ hstep _ ha => workerSteps_lt hstep ha
  refine ⟨?_, exists_settled hinv hless trivial, ?_⟩
  · intro bs st' hbs hworker
    have hlen := exec_length_le hinv hless hbs hworker trivial
    have hle : st.worker.steps ≤ 4 := by
      cases st.worker <;> simp [Worker.steps]
    unfold workerSteps at hlen
    omega
  · intro hsettled hborn hinside hdl hconn
    have hidle : st.worker = .pop ∧ st.server.taskQueue.queue = [] := by
      rcases worker_of_settled hsim.owned hsettled with hidle | hworker | hworker
      · exact hidle
      · exact absurd hworker hborn
      · exact absurd hworker hinside
    obtain ⟨hworker, hqueue⟩ := hidle
    have hdrained : st.Drained := ⟨hqueue, by rw [hworker]; rfl, by rw [hworker]; rfl⟩
    obtain ⟨skipped, uid, hl, -⟩ := hsim.client hdl
    refine ⟨hl.map_task_eq hdrained hconn, fun ha => ?_⟩
    have hsent := sent_eq_of_exec h ha
    rw [hworker] at hsent
    rw [show st.sent = st.computed from (List.append_nil _).symm.trans hsent, computed,
      List.filter_map, List.map_map]
    rfl

/-- Two messages wait while the first one is served. -/
def backlog : List (Action Bool) :=
  [.setRunning, .spawn, .listen, .openConn true, .receive true ⟨.binary, [1]⟩, .handle, .test,
    .pop, .receive true ⟨.binary, [2, 3]⟩, .handle, .receive true ⟨.binary, []⟩, .handle]

/-- The worker serves the messages of `backlog`. -/
def workOff : List (Action Bool) :=
  [.lookup, .process 1, .send true, .test, .pop, .lookup, .process 2, .send true, .test, .pop,
    .lookup, .process 3, .send true, .test]

theorem drains_backlog : ∃ st : System (SileroVadEngine (List F32)) Bool,
    exec (step (scriptedEnv [])) init (backlog ++ workOff) = some st ∧
      st.tasksOf true = [binaryTask true [1], binaryTask true [2, 3], binaryTask true []] ∧
      (st.answersOf true).map Answer.task = st.tasksOf true ∧
      (st.sent.filter fun resp => resp.1 = true).map Prod.snd
        = (st.answersOf true).map Answer.response := by
  have hsome : (exec (step (scriptedEnv [])) init (backlog ++ workOff)).isSome = true := rfl
  refine ⟨_, (Option.some_get hsome).symm, rfl, ?_⟩
  obtain ⟨-, -, hsettled⟩ := drains (Option.some_get hsome).symm
  obtain ⟨htasks, hsent⟩ := hsettled (settled_of_pop rfl rfl) nofun nofun true rfl
  exact ⟨htasks, hsent (by decide)⟩

end System

end VadService
