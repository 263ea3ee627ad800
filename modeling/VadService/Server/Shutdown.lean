import VadService.Server.System

set_option autoImplicit false

/-! # Shutdown

`stop` sets `running_` to false, stops the library and joins the worker. The worker tests
`running_` between two calls of `pop` only, and nothing but a task wakes it up there. So a call
of `stop` that clears the flag over a worker in `pop` may wait for it in `join` forever, and it
does when `listen` throws (`listen_throws_deadlocks`). In runs in which no call clears the flag
over such a worker there is no deadlock (`not_deadlocked`), and no weaker condition will do
(`deadlocks_of_stranded`).
-/

namespace VadService

open Machine

/-- In `stop`, behind `running_ = false`. -/
def Stop.behindClear : Stop → Prop
  | .cleared | .stopped | .joining => True
  | _ => False

/-- The write `running_ = false`. -/
def Action.isClear {H : Type} : Action H → Bool
  | .clear _ => true
  | _ => false

namespace System

variable {E H : Type}

/-- The task the running handler is about to push. -/
def pendingTask (env : Env E) (st : System E H) : Option (AudioTask H) :=
  match st.main with
  | .handling hdl msg => taskOf env.parse hdl msg
  | _ => none

/-- The worker waits in `pop` on an empty queue, and no handler is about to push a task. -/
structure Stranded (env : Env E) (st : System E H) : Prop where
  worker : st.worker = .pop
  taskQueue : st.server.taskQueue.queue = []
  pending : st.pendingTask env = none

/-- `Stranded` as a test. -/
def isStranded (env : Env E) (st : System E H) : Bool :=
  match st.worker, st.server.taskQueue.queue, st.pendingTask env with
  | .pop, [], none => true
  | _, _, _ => false

theorem isStranded_iff (env : Env E) (st : System E H) :
    st.isStranded env = true ↔ st.Stranded env := by
  rw [isStranded]
  split
  · exact ⟨fun _ => ⟨‹_›, ‹_›, ‹_›⟩, fun _ => rfl⟩
  · rename_i hne
    exact ⟨fun h => absurd h Bool.false_ne_true,
      fun h => (hne h.worker h.taskQueue h.pending).elim⟩

instance (env : Env E) (st : System E H) : Decidable (st.Stranded env) :=
  decidable_of_iff _ (isStranded_iff env st)

/-- A step that does not clear the flag over a stranded worker. -/
def ClearsAwake (env : Env E) (st : System E H) (a : Action H) : Prop :=
  a.isClear = true → ¬ st.Stranded env

instance (env : Env E) (st : System E H) (a : Action H) : Decidable (st.ClearsAwake env a) :=
  inferInstanceAs (Decidable (_ → _))

variable {env : Env E} {st st' : System E H} {a : Action H}

/-! ## Runs without a deadlock -/

/-- Before `run` nobody gets into `stop`; behind the write the flag is false; and while the
flag is false the worker is not stranded. -/
structure Awake (env : Env E) (st : System E H) : Prop where
  start : st.main = .start →
    st.server.running = false ∧ ∀ c, st.stops c = .idle ∨ st.stops c = .returned
  cleared : ∀ c, (st.stops c).behindClear → st.server.running = false
  awake : st.server.running = false → ¬ st.Stranded env

theorem awake_init : Awake env (init : System E H) := by
  refine ⟨fun _ => ⟨rfl, fun _ => .inl rfl⟩, ?_, ?_⟩
  · intro c hc
    exact hc.elim
  · intro _ hs
    exact nomatch hs.worker

theorem pendingTask_eq_some {task : AudioTask H} (h : st.pendingTask env = some task) :
    ∃ hdl msg, st.main = .handling hdl msg ∧ taskOf env.parse hdl msg = some task := by
  rw [pendingTask] at h
  split at h
  · exact ⟨_, _, ‹_›, h⟩
  · cases h

/-- Before the worker thread is created there is no worker, and a worker that is there and
has not left its loop can be joined. -/
structure Joinable (st : System E H) : Prop where
  unborn : st.main = .start ∨ st.main = .running → st.worker = .unborn
  joinable : st.joinable = true ∨ st.worker = .unborn ∨ st.worker = .exited

theorem joinable_init : (init : System E H).Joinable := ⟨fun _ => rfl, .inr (.inl rfl)⟩

variable [DecidableEq H]

/-- A call of `stop` waits in `join` for a worker that waits in `pop` on an empty queue, and
no step that is still to come pushes a task. -/
structure Deadlocked (env : Env E) (st : System E H) : Prop where
  joining : ∃ c, st.stops c = .joining
  worker : st.worker = .pop
  taskQueue : st.server.taskQueue.queue = []
  noPush : ∀ st', Reaches (step env) st st' → st'.received = st.received

/-- A worker gets stranded by its own test of the flag only. -/
theorem stranded_of_step (h : st.step env a = some st') (hs : st'.Stranded env) :
    st.Stranded env ∨ (st.worker = .test ∧ st'.server.running = true) := by
  cases step_cases h with
  | handle hdl msg hmain =>
      -- a push would have filled the queue
      have hqueue := hs.taskQueue
      have hnone : taskOf env.parse hdl msg = none := by
        cases htask : taskOf env.parse hdl msg with
        | none => rfl
        | some task => simp [AudioServer.onMessage, htask, SafeQueue.push] at hqueue
      refine .inl ⟨hs.worker, ?_, ?_⟩
      · rw [AudioServer.onMessage, hnone] at hqueue
        exact hqueue
      · rw [pendingTask, hmain]
        exact hnone
  | test hworker =>
      have hpop := hs.worker
      cases hrunning : st.server.running with
      | true => exact .inr ⟨hworker, rfl⟩
      | false => simp [hrunning] at hpop
  | setRunning hmain | listen hmain | receive _ _ hmain | openConn _ hmain | closeConn _ hmain =>
      -- the main thread is in no handler
      exact .inl ⟨hs.worker, hs.taskQueue, by rw [pendingTask, hmain]⟩
  | runEnds hmain =>
      refine .inl ⟨hs.worker, hs.taskQueue, ?_⟩
      rcases hmain with hmain | hmain
      · rw [pendingTask, hmain]
      · rw [pendingTask, hmain]
  | spawn | pop | found | skip | process | send => exact nomatch hs.worker
  | enter | clear | stopServer | askJoinable | join =>
      exact .inl ⟨hs.worker, hs.taskQueue, hs.pending⟩

/-- **Every step that clears the flag over no stranded worker** keeps the worker from being
stranded under a false flag. -/
theorem awake_step (h : st.step env a = some st') (ha : st.ClearsAwake env a)
    (hst : st.Awake env) : st'.Awake env := by
  have hawake : st'.server.running = st.server.running → st'.server.running = false →
      ¬ st'.Stranded env := by
    intro heq hfalse hs
    rcases stranded_of_step h hs with hbefore | ⟨_, htrue⟩
    · exact hst.awake (heq ▸ hfalse) hbefore
    · exact absurd (hfalse.symm.trans htrue) (by decide)
  have hmoves : ∀ c pc, (pc.behindClear → st.server.running = false) →
      ∀ c', (Function.update st.stops c pc c').behindClear → st.server.running = false := by
    intro c pc hpc c' hc'
    by_cases heq : c' = c
    · subst heq
      rw [Function.update_self] at hc'
      exact hpc hc'
    · rw [Function.update_of_ne heq] at hc'
      exact hst.cleared c' hc'
  -- a call inside of `stop` has found the flag true, which it is not before `run`
  have hinside : ∀ {c}, st.stops c ≠ .idle → st.stops c ≠ .returned → st.main ≠ .start := by
    intro c hidle hreturned hmain
    rcases (hst.start hmain).2 c with hc | hc
    · exact hidle hc
    · exact hreturned hc
  cases step_cases h with
  | setRunning hmain =>
      -- nobody is in `stop` yet
      refine ⟨(fun h => nomatch h), ?_, (fun h => nomatch h)⟩
      intro c hc
      rcases (hst.start hmain).2 c with hpc | hpc
      · exact (hpc ▸ hc : Stop.behindClear .idle).elim
      · exact (hpc ▸ hc : Stop.behindClear .returned).elim
  | clear c hstop =>
      -- the one step that makes the flag false, taken over no stranded worker
      refine ⟨?_, fun _ _ => rfl, ?_⟩
      · intro hmain
        exact absurd hmain (hinside (c := c) (by simp [hstop]) (by simp [hstop]))
      · intro _ hs
        rcases stranded_of_step h hs with hbefore | ⟨_, htrue⟩
        · exact ha rfl hbefore
        · exact absurd htrue Bool.false_ne_true
  | enter c hstop hmay =>
      refine ⟨?_, hmoves c _ ?_, hawake rfl⟩
      · intro hmain
        obtain ⟨hrunning, hstops⟩ := hst.start hmain
        refine ⟨hrunning, ?_⟩
        intro c'
        show Function.update st.stops c (if st.server.running then .entered else .returned) c'
            = .idle ∨
          Function.update st.stops c (if st.server.running then .entered else .returned) c'
            = .returned
        by_cases heq : c' = c
        · simp [heq, hrunning]
        · simp [heq, hstops c']
      · intro hpc
        cases hrunning : st.server.running with
        | true => simp [hrunning, Stop.behindClear] at hpc
        | false => rfl
  | stopServer c hstop | askJoinable c hstop | join c hstop =>
      refine ⟨?_, hmoves c _ ?_, hawake rfl⟩
      · intro hmain
        exact absurd hmain (hinside (c := c) (by simp [hstop]) (by simp [hstop]))
      · intro _
        exact hst.cleared c (by simp [hstop, Stop.behindClear])
  | handle hdl msg hmain =>
      have hrunning : (st.server.onMessage env.parse hdl msg).running = st.server.running := by
        rw [AudioServer.onMessage]
        cases taskOf env.parse hdl msg <;> rfl
      refine ⟨(fun h => nomatch h), ?_, hawake hrunning⟩
      intro c hc
      exact hrunning.trans (hst.cleared c hc)
  | openConn hdl hmain | closeConn hdl hmain =>
      exact ⟨fun h => (by cases hmain.symm.trans h), hst.cleared, hawake rfl⟩
  | spawn | listen | runEnds | receive =>
      exact ⟨(fun h => nomatch h), hst.cleared, hawake rfl⟩
  | test | pop | found | skip | process | send => exact ⟨hst.start, hst.cleared, hawake rfl⟩

/-- A deadlocked worker is stranded: the handler would push its task. -/
theorem Deadlocked.stranded (hdead : st.Deadlocked env) : st.Stranded env := by
  refine ⟨hdead.worker, hdead.taskQueue, ?_⟩
  by_contra hne
  obtain ⟨task, htask⟩ := Option.ne_none_iff_exists'.mp hne
  obtain ⟨hdl, msg, hmain, hpush⟩ := pendingTask_eq_some htask
  have hstep : st.step env .handle = some
      { st with
        main := .serving
        server := st.server.onMessage env.parse hdl msg
        received := st.received ++ (taskOf env.parse hdl msg).toList } := by
    rw [step, hmain]
  have hkept : st.received ++ (taskOf env.parse hdl msg).toList = st.received :=
    hdead.noPush _ (.single hstep)
  rw [hpush] at hkept
  simp at hkept

/-- **Shutdown without a deadlock.** In a run in which no call of `stop` clears the flag over
a stranded worker, no state is deadlocked. -/
theorem not_deadlocked {as : List (Action H)} (h : exec (step env) init as = some st)
    (ha : ExecAlong (ClearsAwake env) (step env) init as) : ¬ st.Deadlocked env := by
  have hst : st.Awake env :=
    ha.inv (Awake env) (fun _ _ _ hstep hc hs => awake_step hstep hc hs) h awake_init
  intro hdead
  obtain ⟨c, hc⟩ := hdead.joining
  have hfalse : st.server.running = false := hst.cleared c (by simp [hc, Stop.behindClear])
  exact hst.awake hfalse hdead.stranded

/-! ## Runs into a deadlock -/

theorem joinable_step (h : st.step env a = some st') (hst : st.Joinable) : st'.Joinable := by
  -- a worker that takes a step was created
  have hborn : st.worker ≠ .unborn → ¬ (st.main = .start ∨ st.main = .running) :=
    fun hne hmain => hne (hst.unborn hmain)
  have hjoinable : st.worker ≠ .unborn → st.worker ≠ .exited → st.joinable = true := by
    intro hunborn hexited
    rcases hst.joinable with h | h | h
    · exact h
    · exact absurd h hunborn
    · exact absurd h hexited
  cases step_cases h with
  | setRunning hmain => exact ⟨fun _ => hst.unborn (.inl hmain), hst.joinable⟩
  | spawn hmain => exact ⟨fun h => (by rcases h with h | h <;> cases h), .inl rfl⟩
  | listen hmain | runEnds hmain | receive _ _ hmain | handle _ _ hmain =>
      exact ⟨fun h => (by rcases h with h | h <;> cases h), hst.joinable⟩
  | openConn _ hmain | closeConn _ hmain => exact ⟨hst.unborn, hst.joinable⟩
  | test hworker | pop _ _ hworker | found _ _ hworker | skip _ hworker
  | process _ _ _ _ hworker | send _ _ _ hworker =>
      refine ⟨fun hmain => absurd hmain (hborn (by simp [hworker])), ?_⟩
      exact .inl (hjoinable (by simp [hworker]) (by simp [hworker]))
  | join c hstop hworker =>
      exact ⟨hst.unborn, .inr (.inr hworker)⟩
  | enter | clear | stopServer | askJoinable => exact ⟨hst.unborn, hst.joinable⟩

/-- When `run` is over, nothing is pushed any more. -/
theorem received_of_finished (h : Reaches (step env) st st') (hmain : st.main = .finished) :
    st'.received = st.received := by
  have hinv : st'.main = .finished ∧ st'.received = st.received := by
    refine h.inv (fun s => s.main = .finished ∧ s.received = st.received) ?_ ⟨hmain, rfl⟩
    rintro s a s' hstep ⟨hs, hreceived⟩
    cases step_cases hstep with
    | runEnds => exact ⟨rfl, hreceived⟩
    | setRunning hmain' | spawn hmain' | listen hmain' | handle _ _ hmain' | openConn _ hmain'
    | closeConn _ hmain' | receive _ _ hmain' => cases hs.symm.trans hmain'
    | test | pop | found | skip | process | send => exact ⟨hs, hreceived⟩
    | enter | clear | stopServer | askJoinable | join => exact ⟨hs, hreceived⟩
  exact hinv.2

/-- From the flag to the deadlock, once `run` is over. -/
theorem deadlocks_of_finished (hst : st.Stranded env) (hmain : st.main = .finished)
    (hjoinable : st.joinable = true) {c : Caller} (hstop : st.stops c = .cleared) :
    ∃ st', Reaches (step env) st st' ∧ st'.Deadlocked env := by
  have hserver : st.step env (.stopServer c)
      = some { st.setStop c .stopped with srvStopped := true } := by
    rw [step, hstop]
  have hask : step env { st.setStop c .stopped with srvStopped := true } (.askJoinable c)
      = some (setStop { st.setStop c .stopped with srvStopped := true } c .joining) := by
    simp [step, setStop, hjoinable]
  refine ⟨_, (Reaches.single hserver).trans (.single hask), ?_⟩
  refine ⟨⟨c, Function.update_self _ _ _⟩, hst.worker, hst.taskQueue, ?_⟩
  intro st' hreach
  exact received_of_finished hreach hmain

theorem deadlocks_of_serving (hst : st.Stranded env)
    (hmain : st.main = .spawned ∨ st.main = .serving) (hjoinable : st.joinable = true)
    {c : Caller} (hstop : st.stops c = .cleared) :
    ∃ st', Reaches (step env) st st' ∧ st'.Deadlocked env := by
  have hends : st.step env .runEnds = some { st with main := .finished } := by
    rcases hmain with hmain | hmain <;> rw [step, hmain]
  have hst' : Stranded env { st with main := .finished } := ⟨hst.worker, hst.taskQueue, rfl⟩
  obtain ⟨st', hreach, hdead⟩ := deadlocks_of_finished hst' rfl hjoinable hstop
  exact ⟨st', (Reaches.single hends).trans hreach, hdead⟩

/-- A handler that has no task to push changes nothing. -/
theorem deadlocks_of_handling (hst : st.Stranded env) {hdl : H} {msg : Message}
    (hmain : st.main = .handling hdl msg) (hjoinable : st.joinable = true)
    {c : Caller} (hstop : st.stops c = .cleared) :
    ∃ st', Reaches (step env) st st' ∧ st'.Deadlocked env := by
  have hnone : taskOf env.parse hdl msg = none := by
    have hpending := hst.pending
    rw [pendingTask, hmain] at hpending
    exact hpending
  have hhandle : st.step env .handle = some { st with main := .serving } := by
    rw [step, hmain]
    simp [AudioServer.onMessage, hnone]
  have hst' : Stranded env { st with main := .serving } := ⟨hst.worker, hst.taskQueue, rfl⟩
  obtain ⟨st', hreach, hdead⟩ := deadlocks_of_serving hst' (.inr rfl) hjoinable hstop
  exact ⟨st', (Reaches.single hhandle).trans hreach, hdead⟩

/-- **The condition cannot be weakened.** When a call of `stop` is about to clear the flag
over a stranded worker, it can go on to a deadlock. -/
theorem deadlocks_of_stranded (h : Reaches (step env) init st) (hst : st.Stranded env)
    {c : Caller} (hstop : st.stops c = .entered) :
    ∃ st', st.step env (.clear c) = some ((st.setRunning false).setStop c .cleared) ∧
      Reaches (step env) ((st.setRunning false).setStop c .cleared) st' ∧
      st'.Deadlocked env := by
  have hj : st.Joinable :=
    h.inv Joinable (fun _ _ _ hstep hs => joinable_step hstep hs) joinable_init
  have hjoinable : st.joinable = true := by
    rcases hj.joinable with hj | hworker | hworker
    · exact hj
    · exact nomatch hworker.symm.trans hst.worker
    · exact nomatch hworker.symm.trans hst.worker
  have hclear : st.step env (.clear c) = some ((st.setRunning false).setStop c .cleared) := by
    rw [step, hstop]
  have hcleared : ((st.setRunning false).setStop c .cleared).stops c = .cleared :=
    Function.update_self _ _ _
  have hst' : ((st.setRunning false).setStop c .cleared).Stranded env :=
    ⟨hst.worker, hst.taskQueue, hst.pending⟩
  suffices hdead : ∃ st', Reaches (step env) ((st.setRunning false).setStop c .cleared) st' ∧
      st'.Deadlocked env by
    obtain ⟨st', hreach, hdead⟩ := hdead
    exact ⟨st', hclear, hreach, hdead⟩
  cases hmain : st.main with
  | start => exact nomatch (hj.unborn (.inl hmain)).symm.trans hst.worker
  | running => exact nomatch (hj.unborn (.inr hmain)).symm.trans hst.worker
  | spawned => exact deadlocks_of_serving hst' (.inl hmain) hjoinable hcleared
  | serving => exact deadlocks_of_serving hst' (.inr hmain) hjoinable hcleared
  | handling hdl msg => exact deadlocks_of_handling hst' hmain hjoinable hcleared
  | finished => exact deadlocks_of_finished hst' hmain hjoinable hcleared

/-- `listen` throws after the worker has found its queue empty; the destructor stops the
server. -/
def listenThrows : List (Action ℕ) :=
  [.setRunning, .spawn, .test, .runEnds, .enter .destructor, .clear .destructor,
    .stopServer .destructor, .askJoinable .destructor]

/-- A server whose `listen` throws does not shut down. -/
theorem listen_throws_deadlocks :
    ¬ ∀ (as : List (Action ℕ)) (st : System (SileroVadEngine (List F32)) ℕ),
      exec (step (scriptedEnv [])) init as = some st → ¬ st.Deadlocked (scriptedEnv []) := by
  intro h
  refine h listenThrows _ rfl ⟨⟨.destructor, rfl⟩, rfl, rfl, ?_⟩
  intro st' hreach
  exact received_of_finished hreach rfl

/-- `stop` is called while the worker serves a task. -/
def stopWhileServing : List (Action ℕ) :=
  [.setRunning, .spawn, .listen, .openConn 0, .receive 0 ⟨.binary, []⟩, .handle, .test, .pop,
    .lookup, .enter (.thread 0), .clear (.thread 0), .process 0, .stopServer (.thread 0),
    .send false, .askJoinable (.thread 0), .test, .join (.thread 0)]

theorem not_deadlocked_serving : ∃ st : System (SileroVadEngine (List F32)) ℕ,
    exec (step (scriptedEnv [])) init stopWhileServing = some st ∧
      st.stops (.thread 0) = .returned ∧ ¬ st.Deadlocked (scriptedEnv []) := by
  have hawake : ExecAlong (ClearsAwake (scriptedEnv [])) (step (scriptedEnv [])) init
      stopWhileServing := by decide
  exact ⟨_, rfl, rfl, not_deadlocked rfl hawake⟩

end System

end VadService
