import VadService.Server.System

set_option autoImplicit false

/-! # Clients do not disturb each other

Whatever the threads do in whatever order, the responses computed for a connection are those
of one session that is served its tasks alone, in the order of arrival (`isolated`). The
proof follows the sessions' objects (`Owned`), the way of a task from the handler to its
answer (`Ledger`) and the run of one client's session (`Follows`).
-/

namespace VadService

open Machine

variable {E H : Type}

namespace System

variable {env : Env E} {st st' : System E H} {a : Action H}

/-! ## The objects -/

/-- The connections of the objects on the heap. -/
def owners (st : System E H) : List H := st.server.objects.map Session.hdl

/-- Every connection that was ever opened has one object, `sessions_` points to it as long as
the connection is open, and the worker points to the object of its task. -/
structure Owned (st : System E H) : Prop where
  nodup : st.owners.Nodup
  fresh : ∀ hdl, hdl ∈ st.owners ↔ st.conns hdl ≠ .fresh
  opened : ∀ hdl, (st.server.sessions hdl).isSome ↔ st.conns hdl = .opened
  sessions : ∀ hdl ptr, st.server.sessions hdl = some ptr → st.owners[ptr]? = some hdl
  process : ∀ task ptr, st.worker = .process task ptr → st.owners[ptr]? = some task.hdl
  handling : ∀ hdl msg, st.main = .handling hdl msg → st.conns hdl ≠ .fresh
  received : ∀ task ∈ st.received, st.conns task.hdl ≠ .fresh

theorem owned_init : (init : System E H).Owned := by
  refine ⟨List.nodup_nil, ?_, ?_, ?_, ?_, ?_, ?_⟩
  · intro hdl
    simp [owners, init, AudioServer.new]
  · intro hdl
    simp [init, AudioServer.new]
  · intro hdl ptr h
    exact absurd h (by simp [init, AudioServer.new])
  · intro task ptr h
    exact absurd h (by simp [init])
  · intro hdl msg h
    exact absurd h (by simp [init])
  · intro task h
    exact absurd h (by simp [init])

theorem onMessage_objects (parse : List UInt8 → Except JsonException Json)
    (s : AudioServer E H) (hdl : H) (msg : Message) :
    (s.onMessage parse hdl msg).objects = s.objects ∧
      (s.onMessage parse hdl msg).sessions = s.sessions := by
  rw [AudioServer.onMessage]
  cases taskOf parse hdl msg <;> exact ⟨rfl, rfl⟩

/-- Serving a session changes none of the owners. -/
theorem owners_set (st : System E H) {ptr : ℕ} {session : Session E H}
    (hobject : st.server.objects[ptr]? = some session) (input : AudioTask H × ℕ) :
    (st.server.objects.set ptr (session.serve env.engine input).2).map Session.hdl = st.owners := by
  obtain ⟨hptr, hsession⟩ := List.getElem?_eq_some_iff.mp hobject
  rw [List.map_set, Session.serve_hdl, ← List.map_set, ← hsession, List.set_getElem_self, owners]

/-- A step that leaves the owners, the pointers and the connections alone. -/
theorem Owned.of_owners (hst : st.Owned) (howners : st'.owners = st.owners)
    (hsessions : st'.server.sessions = st.server.sessions) (hconns : st'.conns = st.conns)
    (hworker : ∀ task ptr, st'.worker = .process task ptr → st.worker = .process task ptr)
    (hmain : ∀ hdl msg, st'.main = .handling hdl msg → st.main = .handling hdl msg)
    (hreceived : ∀ task ∈ st'.received, st.conns task.hdl ≠ .fresh) : st'.Owned := by
  constructor
  · rw [howners]
    exact hst.nodup
  · rw [howners, hconns]
    exact hst.fresh
  · rw [hsessions, hconns]
    exact hst.opened
  · rw [howners, hsessions]
    exact hst.sessions
  · rw [howners]
    exact fun task ptr h => hst.process task ptr (hworker task ptr h)
  · rw [hconns]
    exact fun hdl msg h => hst.handling hdl msg (hmain hdl msg h)
  · rw [hconns]
    exact hreceived

theorem owned_handle (hst : st.Owned) {hdl : H} {msg : Message}
    (hmain : st.main = .handling hdl msg) :
    Owned { st with
      main := .serving
      server := st.server.onMessage env.parse hdl msg
      received := st.received ++ (taskOf env.parse hdl msg).toList } := by
  obtain ⟨hobjects, hsessions⟩ := onMessage_objects env.parse st.server hdl msg
  refine hst.of_owners (congrArg (List.map Session.hdl) hobjects) hsessions rfl
    (fun _ _ h => h) (fun _ _ h => nomatch h) ?_
  intro task htask
  rcases List.mem_append.mp htask with hold | hnew
  · exact hst.received task hold
  · rw [taskOf_hdl (Option.mem_toList.mp hnew)]
    exact hst.handling hdl msg hmain

variable [DecidableEq H]

theorem owners_onOpen (st : System E H) (vadEngine : E) (hdl : H) :
    (st.server.onOpen vadEngine hdl).objects.map Session.hdl = st.owners ++ [hdl] := by
  simp [AudioServer.onOpen, owners, Session.new]

theorem owned_openConn (hst : st.Owned) {hdl : H} (hmain : st.main = .serving)
    (hconn : st.conns hdl = .fresh) :
    Owned { st.setConn hdl .opened with server := st.server.onOpen env.vadEngine hdl } := by
  have hnew : hdl ∉ st.owners := fun hmem => (hst.fresh hdl).mp hmem hconn
  have howners := owners_onOpen st env.vadEngine hdl
  -- the pointers to the old objects stay good
  have hkeep : ∀ {ptr : ℕ} {hdl' : H}, st.owners[ptr]? = some hdl' →
      (st.owners ++ [hdl])[ptr]? = some hdl' := by
    intro ptr hdl' hptr
    rw [List.getElem?_append_left (List.getElem?_eq_some_iff.mp hptr).1]
    exact hptr
  refine ⟨?_, ?_, ?_, ?_, ?_, ?_, ?_⟩
  · show ((st.server.onOpen env.vadEngine hdl).objects.map Session.hdl).Nodup
    rw [howners]
    exact List.nodup_append.mpr ⟨hst.nodup, List.nodup_singleton hdl, by
      rintro hdl' hmem hdl'' hmem' rfl
      exact hnew (List.mem_singleton.mp hmem' ▸ hmem)⟩
  · intro hdl'
    show hdl' ∈ (st.server.onOpen env.vadEngine hdl).objects.map Session.hdl ↔
      Function.update st.conns hdl .opened hdl' ≠ .fresh
    rw [howners, List.mem_append, List.mem_singleton, hst.fresh]
    by_cases heq : hdl' = hdl
    · simp [heq]
    · simp [heq]
  · intro hdl'
    show (Function.update st.server.sessions hdl (some st.server.objects.length) hdl').isSome ↔
      Function.update st.conns hdl .opened hdl' = .opened
    by_cases heq : hdl' = hdl
    · simp [heq]
    · simp [heq, ← hst.opened]
  · intro hdl' ptr hptr
    show ((st.server.onOpen env.vadEngine hdl).objects.map Session.hdl)[ptr]? = some hdl'
    rw [howners]
    by_cases heq : hdl' = hdl
    · -- the new pointer is the length of the old heap
      subst heq
      have hlen : ptr = st.owners.length := by
        have : some st.server.objects.length = some ptr := by
          simpa [AudioServer.onOpen] using hptr
        rw [owners, List.length_map]
        exact (Option.some.inj this).symm
      rw [hlen, List.getElem?_concat_length]
    · refine hkeep (hst.sessions hdl' ptr ?_)
      simpa [AudioServer.onOpen, heq] using hptr
  · intro task ptr hworker
    show ((st.server.onOpen env.vadEngine hdl).objects.map Session.hdl)[ptr]? = some task.hdl
    rw [howners]
    exact hkeep (hst.process task ptr hworker)
  · intro hdl' msg hmain'
    cases hmain.symm.trans hmain'
  · intro task htask
    show Function.update st.conns hdl .opened task.hdl ≠ .fresh
    by_cases heq : task.hdl = hdl
    · simp [heq]
    · simpa [heq] using hst.received task htask

theorem owned_closeConn (hst : st.Owned) {hdl : H} (hmain : st.main = .serving)
    (hconn : st.conns hdl = .opened) :
    Owned { st.setConn hdl .closed with server := st.server.onClose hdl } := by
  have hfresh : ∀ hdl', Function.update st.conns hdl .closed hdl' ≠ .fresh ↔
      st.conns hdl' ≠ .fresh := by
    intro hdl'
    by_cases heq : hdl' = hdl
    · simp [heq, hconn]
    · simp [heq]
  refine ⟨hst.nodup, ?_, ?_, ?_, hst.process, ?_, ?_⟩
  · intro hdl'
    exact (hst.fresh hdl').trans (hfresh hdl').symm
  · intro hdl'
    show (Function.update st.server.sessions hdl none hdl').isSome ↔
      Function.update st.conns hdl .closed hdl' = .opened
    by_cases heq : hdl' = hdl
    · simp [heq]
    · simp [heq, ← hst.opened]
  · intro hdl' ptr hptr
    apply hst.sessions hdl' ptr
    by_cases heq : hdl' = hdl
    · simp [AudioServer.onClose, heq] at hptr
    · simpa [AudioServer.onClose, heq] using hptr
  · intro hdl' msg hmain'
    cases hmain.symm.trans hmain'
  · intro task htask
    exact (hfresh task.hdl).mpr (hst.received task htask)

theorem owned_step (h : st.step env a = some st') (hst : st.Owned) : st'.Owned := by
  cases step_cases h with
  | openConn hdl hmain hstop hconn => exact owned_openConn hst hmain hconn
  | closeConn hdl hmain hstop hconn => exact owned_closeConn hst hmain hconn
  | receive hdl msg hmain hstop hconn =>
      refine { hst with handling := ?_ }
      rintro hdl' msg' hmain'
      cases hmain'
      rw [hconn]
      exact Conn.noConfusion
  | handle hdl msg hmain => exact owned_handle hst hmain
  | test hworker =>
      refine { hst with process := ?_ }
      intro task ptr hworker'
      cases hrunning : st.server.running <;> simp [hrunning] at hworker'
  | found task ptr hworker hsession =>
      refine { hst with process := ?_ }
      rintro task' ptr' hworker'
      cases hworker'
      exact hst.sessions task.hdl ptr hsession
  | process now task ptr session hworker hobject =>
      exact hst.of_owners (owners_set st hobject (task, now)) rfl rfl (fun _ _ h => nomatch h)
        (fun _ _ h => h) hst.received
  | spawn =>
      exact hst.of_owners rfl rfl rfl (fun _ _ h => nomatch h) (fun _ _ h => nomatch h) hst.received
  | pop | skip | send =>
      exact hst.of_owners rfl rfl rfl (fun _ _ h => nomatch h) (fun _ _ h => h) hst.received
  | setRunning | listen | runEnds =>
      exact hst.of_owners rfl rfl rfl (fun _ _ h => h) (fun _ _ h => nomatch h) hst.received
  | enter | clear | stopServer | askJoinable | join => exact { hst with }

end System

/-! ## The tasks of one connection -/

variable [DecidableEq H]

/-- The tasks of one connection. -/
def own (hdl : H) (tasks : List (AudioTask H)) : List (AudioTask H) :=
  tasks.filter fun task => task.hdl = hdl

@[simp] theorem own_nil (hdl : H) : own hdl ([] : List (AudioTask H)) = [] := rfl

@[simp] theorem own_append (hdl : H) (tasks tasks' : List (AudioTask H)) :
    own hdl (tasks ++ tasks') = own hdl tasks ++ own hdl tasks' :=
  List.filter_append tasks tasks'

theorem own_cons (hdl : H) (task : AudioTask H) (tasks : List (AudioTask H)) :
    own hdl (task :: tasks) = own hdl [task] ++ own hdl tasks := own_append hdl [task] tasks

theorem own_singleton_of_ne {hdl : H} {task : AudioTask H} (h : task.hdl ≠ hdl) :
    own hdl [task] = [] := by simp [own, h]

/-- The task whose session the worker is about to look up. -/
def Worker.lookedUp : Worker H → List (AudioTask H)
  | .lookup task => [task]
  | _ => []

/-- The task the worker is about to serve. -/
def Worker.inProcess : Worker H → List (AudioTask H)
  | .process task _ => [task]
  | _ => []

/-- The response the worker is about to send. -/
def Worker.toSend : Worker H → List (H × VadResponse)
  | .send hdl resp => [(hdl, resp)]
  | _ => []

namespace System

variable {env : Env E} {st st' : System E H} {a : Action H}

/-- The tasks enqueued for a connection, in the order of arrival. -/
def tasksOf (st : System E H) (hdl : H) : List (AudioTask H) := own hdl st.received

/-- The tasks of a connection that were served, with their responses. -/
def answersOf (st : System E H) (hdl : H) : List (Answer H) :=
  st.answered.filter fun answer => answer.task.hdl = hdl

/-- The queue is drained: no task waits in it or with the worker. -/
structure Drained (st : System E H) : Prop where
  taskQueue : st.server.taskQueue.queue = []
  lookedUp : st.worker.lookedUp = []
  inProcess : st.worker.inProcess = []

/-! ## The way of a task -/

/-- The tasks of a connection, in the order of arrival: those that were served, the one the
worker is about to serve, those `skipped` for want of a session, the one whose session the
worker is about to look up and those in the queue. -/
structure Ledger (st : System E H) (hdl : H) (skipped : List (AudioTask H)) : Prop where
  tasks : st.tasksOf hdl = own hdl (st.answered.map Answer.task) ++ own hdl st.worker.inProcess
    ++ skipped ++ own hdl st.worker.lookedUp ++ own hdl st.server.taskQueue.queue
  closed : skipped ≠ [] → st.conns hdl = .closed
  idle : skipped ≠ [] → own hdl st.worker.inProcess = []

theorem ledger_init (hdl : H) : (init : System E H).Ledger hdl [] :=
  ⟨rfl, fun h => absurd rfl h, fun h => absurd rfl h⟩

variable {hdl : H} {skipped : List (AudioTask H)}

/-- The handler appends the task to what was received and to the queue. -/
theorem ledger_handle (hl : st.Ledger hdl skipped) {hdl' : H} {msg : Message} :
    Ledger { st with
      main := .serving
      server := st.server.onMessage env.parse hdl' msg
      received := st.received ++ (taskOf env.parse hdl' msg).toList } hdl skipped := by
  have htasks := hl.tasks
  constructor
  · show own hdl (st.received ++ (taskOf env.parse hdl' msg).toList) = _ ++
      own hdl (st.server.onMessage env.parse hdl' msg).taskQueue.queue
    rw [own_append, ← tasksOf, htasks, AudioServer.onMessage]
    cases taskOf env.parse hdl' msg with
    | none => simp
    | some task => simp [SafeQueue.push]
  · exact hl.closed
  · exact hl.idle

/-- A task whose session is found is about to be served: nothing was skipped before it, as
its connection is open. -/
theorem ledger_found (howned : st.Owned) (hl : st.Ledger hdl skipped) {task : AudioTask H}
    {ptr : ℕ} (hworker : st.worker = .lookup task)
    (hsession : st.server.sessions task.hdl = some ptr) :
    Ledger { st with worker := .process task ptr } hdl skipped := by
  have htasks := hl.tasks
  rw [hworker] at htasks
  by_cases hown : task.hdl = hdl
  · -- a task of this connection moves past `skipped`, which is empty
    have hopened : st.conns hdl = .opened := by
      rw [← howned.opened, ← hown, hsession]
      rfl
    have hskipped : skipped = [] := by
      by_contra hne
      exact absurd (hopened.symm.trans (hl.closed hne)) (by decide)
    subst hskipped
    refine ⟨?_, fun h => absurd rfl h, fun h => absurd rfl h⟩
    simpa [tasksOf, Worker.inProcess, Worker.lookedUp] using htasks
  · refine ⟨?_, hl.closed, fun _ => own_singleton_of_ne hown⟩
    simpa [tasksOf, Worker.inProcess, Worker.lookedUp, own_singleton_of_ne hown] using htasks

/-- A task without a session is skipped: its connection is closed. -/
theorem ledger_skip (howned : st.Owned) (hl : st.Ledger hdl skipped) {task : AudioTask H}
    (hworker : st.worker = .lookup task) (hsession : st.server.sessions task.hdl = none) :
    Ledger { st with worker := .test } hdl (skipped ++ own hdl [task]) := by
  have htasks := hl.tasks
  rw [hworker] at htasks
  refine ⟨?_, ?_, fun _ => rfl⟩
  · simpa [tasksOf, Worker.inProcess, Worker.lookedUp] using htasks
  · intro hne
    by_cases hown : task.hdl = hdl
    · have hopened : st.conns hdl ≠ .opened := by
        intro hopened
        have hsome := (howned.opened hdl).mpr hopened
        rw [← hown, hsession] at hsome
        exact absurd hsome (by decide)
      have hfresh : st.conns hdl ≠ .fresh := by
        refine hown ▸ howned.received task ?_
        have hmem : task ∈ st.tasksOf hdl := by
          rw [htasks]
          simp [Worker.lookedUp, own, hown]
        exact (List.mem_filter.mp hmem).1
      show st.conns hdl = .closed
      cases hconn : st.conns hdl with
      | fresh => exact absurd hconn hfresh
      | opened => exact absurd hconn hopened
      | closed => rfl
    · -- a task of another connection adds nothing to `skipped`
      rw [own_singleton_of_ne hown, List.append_nil] at hne
      exact hl.closed hne

theorem ledger_step (h : st.step env a = some st') (howned : st.Owned)
    (hl : st.Ledger hdl skipped) : ∃ skipped', st'.Ledger hdl skipped' := by
  have htasks := hl.tasks
  cases step_cases h with
  | openConn hdl' hmain hstop hconn =>
      refine ⟨skipped, htasks, ?_, hl.idle⟩
      intro hne
      have hclosed := hl.closed hne
      have hother : hdl ≠ hdl' := by
        rintro rfl
        exact absurd (hconn.symm.trans hclosed) (by decide)
      exact (Function.update_of_ne hother _ _).trans hclosed
  | closeConn hdl' hmain hstop hconn =>
      refine ⟨skipped, htasks, ?_, hl.idle⟩
      intro hne
      show Function.update st.conns hdl' .closed hdl = .closed
      by_cases heq : hdl = hdl'
      · simp [heq]
      · rw [Function.update_of_ne heq]
        exact hl.closed hne
  | handle hdl' msg hmain => exact ⟨skipped, ledger_handle hl⟩
  | found task ptr hworker hsession => exact ⟨skipped, ledger_found howned hl hworker hsession⟩
  | skip task hworker hsession => exact ⟨_, ledger_skip howned hl hworker hsession⟩
  | pop task taskQueue hworker hqueue =>
      rw [hworker, hqueue, own_cons] at htasks
      refine ⟨skipped, ?_, hl.closed, fun _ => rfl⟩
      simpa [tasksOf, Worker.inProcess, Worker.lookedUp] using htasks
  | process now task ptr session hworker hobject =>
      rw [hworker] at htasks
      refine ⟨skipped, ?_, hl.closed, fun _ => rfl⟩
      simpa [tasksOf, Worker.inProcess, Worker.lookedUp] using htasks
  | spawn hmain hworker =>
      rw [hworker] at htasks
      exact ⟨skipped, htasks, hl.closed, fun _ => rfl⟩
  | test hworker =>
      -- the worker goes into `pop` or leaves its loop, and has no task either way
      refine ⟨skipped, ?_, hl.closed, ?_⟩
      · rw [hworker] at htasks
        cases hrunning : st.server.running <;> exact htasks
      · cases hrunning : st.server.running <;> exact fun _ => rfl
  | send delivered hdl' resp hworker =>
      rw [hworker] at htasks
      exact ⟨skipped, htasks, hl.closed, fun _ => rfl⟩
  | setRunning | listen | runEnds | receive => exact ⟨skipped, { hl with }⟩
  | enter | clear | stopServer | askJoinable | join => exact ⟨skipped, { hl with }⟩

/-! ## The run of one session -/

/-- What the session of a connection was given: its tasks and the times they were served at. -/
def inputsOf (st : System E H) (hdl : H) : List (AudioTask H × ℕ) :=
  (st.answersOf hdl).map fun answer => (answer.task, answer.now)

/-- The session of the connection is where a session created under the name `uid` gets to
when it is served the tasks of the connection alone, and the responses are the ones it gives
on the way. -/
structure Follows (env : Env E) (st : System E H) (hdl : H) (uid : String) : Prop where
  session : ∀ (ptr : ℕ) (session : Session E H), st.server.objects[ptr]? = some session →
    session.hdl = hdl →
    session = final (Session.serve env.engine) (Session.new uid hdl env.vadEngine)
      (st.inputsOf hdl)
  responses : (st.answersOf hdl).map Answer.response
    = outputs (Session.serve env.engine) (Session.new uid hdl env.vadEngine) (st.inputsOf hdl)

theorem follows_init (hdl : H) (uid : String) : Follows env (init : System E H) hdl uid := by
  constructor
  · intro ptr session hobject
    exact absurd hobject (by simp [init, AudioServer.new])
  · rfl

theorem map_task_answersOf (st : System E H) (hdl : H) :
    (st.answersOf hdl).map Answer.task = own hdl (st.answered.map Answer.task) := by
  rw [own, List.filter_map, answersOf]
  rfl

/-- Nothing was computed for a connection that was not opened yet. -/
theorem answersOf_eq_nil (howned : st.Owned) (hl : st.Ledger hdl skipped)
    (hconn : st.conns hdl = .fresh) : st.answersOf hdl = [] := by
  have htasks : st.tasksOf hdl = [] := by
    rw [tasksOf, own, List.filter_eq_nil_iff]
    intro task htask
    -- what was received came from connections that had been opened
    have hfresh := howned.received task htask
    rw [decide_eq_true_eq]
    rintro rfl
    exact hfresh hconn
  have hnil := hl.tasks.symm.trans htasks
  simp only [List.append_eq_nil_iff, ← map_task_answersOf, List.map_eq_nil_iff] at hnil
  exact hnil.1.1.1.1

theorem follows_openConn (howned : st.Owned) (hl : st.Ledger hdl skipped) {uid : String}
    (hf : st.Follows env hdl uid) {hdl' : H} (hconn : st.conns hdl' = .fresh) :
    ∃ uid', Follows env
      { st.setConn hdl' .opened with server := st.server.onOpen env.vadEngine hdl' } hdl uid' := by
  have hobjects : ∀ (ptr : ℕ) (session : Session E H),
      (st.server.onOpen env.vadEngine hdl').objects[ptr]? = some session →
        st.server.objects[ptr]? = some session ∨
          session =
            Session.new ("user_" ++ toString (st.server.idCounter + 1)) hdl' env.vadEngine := by
    intro ptr session hobject
    rcases List.getElem?_eq_some_iff.mp hobject with ⟨hptr, rfl⟩
    simp only [AudioServer.onOpen, List.getElem_append]
    split
    · exact .inl (List.getElem?_eq_getElem _)
    · exact .inr (List.getElem_singleton _)
  by_cases heq : hdl = hdl'
  · -- the object is new, and nothing was computed before
    subst heq
    have hanswers : st.answersOf hdl = [] := answersOf_eq_nil howned hl hconn
    refine ⟨"user_" ++ toString (st.server.idCounter + 1), ?_, ?_⟩
    · intro ptr session hobject hhdl
      have hinputs : inputsOf
          { st.setConn hdl .opened with server := st.server.onOpen env.vadEngine hdl } hdl = [] :=
        congrArg (List.map _) hanswers
      rw [hinputs, final_nil]
      rcases hobjects ptr session hobject with hold | hnew
      · have hmem : hdl ∈ st.owners :=
          List.mem_map.mpr ⟨session, List.mem_of_getElem? hold, hhdl⟩
        exact absurd hconn ((howned.fresh hdl).mp hmem)
      · exact hnew
    · show (st.answersOf hdl).map _ = outputs _ _ ((st.answersOf hdl).map _)
      rw [hanswers]
      rfl
  · refine ⟨uid, ?_, hf.responses⟩
    intro ptr session hobject hhdl
    rcases hobjects ptr session hobject with hold | rfl
    · exact hf.session ptr session hold hhdl
    · exact absurd hhdl.symm heq

theorem follows_process (howned : st.Owned) {uid : String} (hf : st.Follows env hdl uid)
    {now : ℕ} {task : AudioTask H} {ptr : ℕ} {session : Session E H}
    (hworker : st.worker = .process task ptr)
    (hobject : st.server.objects[ptr]? = some session) :
    Follows env
      { st with
        worker := .send task.hdl (session.serve env.engine (task, now)).1
        server := { st.server with
          objects := st.server.objects.set ptr (session.serve env.engine (task, now)).2 }
        answered := st.answered ++ [⟨task, now, (session.serve env.engine (task, now)).1⟩] }
      hdl uid := by
  have howner : st.owners[ptr]? = some task.hdl := howned.process task ptr hworker
  have hsession : session.hdl = task.hdl := by
    rw [owners, List.getElem?_map, hobject] at howner
    exact Option.some.inj howner
  set answer : Answer H := ⟨task, now, (session.serve env.engine (task, now)).1⟩ with hanswer
  by_cases hown : task.hdl = hdl
  · -- the session of this connection is served one task more
    have hrun := hf.session ptr session hobject (hsession.trans hown)
    have hanswers : (st.answered ++ [answer]).filter (fun answer => answer.task.hdl = hdl)
        = st.answersOf hdl ++ [answer] := by
      simp [answersOf, hanswer, hown]
    have hinputs : ((st.answered ++ [answer]).filter fun answer => answer.task.hdl = hdl).map
        (fun answer => (answer.task, answer.now)) = st.inputsOf hdl ++ [(task, now)] := by
      rw [hanswers, List.map_append]
      rfl
    constructor
    · intro ptr' session' hobject' hhdl'
      show session' = final _ _ (List.map _ (List.filter _ _))
      rw [hinputs, final_append, ← hrun]
      by_cases heq : ptr' = ptr
      · rw [heq, List.getElem?_set_self (List.getElem?_eq_some_iff.mp hobject).1] at hobject'
        exact (Option.some.inj hobject').symm
      · -- a second object of the connection
        rw [List.getElem?_set_ne (Ne.symm heq)] at hobject'
        have howner' : st.owners[ptr']? = some hdl := by
          rw [owners, List.getElem?_map, hobject', ← hhdl']
          rfl
        have hlt := (List.getElem?_eq_some_iff.mp howner').1
        exact absurd ((List.getElem?_inj hlt howned.nodup).mp
          (howner'.trans (hown ▸ howner.symm))) heq
    · show List.map _ (List.filter _ _) = outputs _ _ (List.map _ (List.filter _ _))
      rw [hinputs, hanswers, List.map_append, outputs_append, ← hrun, hf.responses]
      rfl
  · -- another session is served, and this one is left alone
    have hanswers : (st.answered ++ [answer]).filter (fun answer => answer.task.hdl = hdl)
        = st.answersOf hdl := by
      simp [answersOf, hanswer, hown]
    constructor
    · intro ptr' session' hobject' hhdl'
      show session' = final _ _ (List.map _ (List.filter _ _))
      rw [hanswers]
      by_cases heq : ptr' = ptr
      · rw [heq, List.getElem?_set_self (List.getElem?_eq_some_iff.mp hobject).1] at hobject'
        rw [← Option.some.inj hobject', Session.serve_hdl, hsession] at hhdl'
        exact absurd hhdl' hown
      · rw [List.getElem?_set_ne (Ne.symm heq)] at hobject'
        exact hf.session ptr' session' hobject' hhdl'
    · show List.map _ (List.filter _ _) = outputs _ _ (List.map _ (List.filter _ _))
      rw [hanswers]
      exact hf.responses

theorem follows_step (h : st.step env a = some st') (howned : st.Owned)
    (hl : st.Ledger hdl skipped) {uid : String} (hf : st.Follows env hdl uid) :
    ∃ uid', st'.Follows env hdl uid' := by
  cases step_cases h with
  | openConn hdl' hmain hstop hconn => exact follows_openConn howned hl hf hconn
  | handle hdl' msg hmain =>
      refine ⟨uid, ?_, hf.responses⟩
      intro ptr session hobject
      apply hf.session ptr session
      rw [← (onMessage_objects env.parse st.server hdl' msg).1]
      exact hobject
  | process now task ptr session hworker hobject =>
      exact ⟨uid, follows_process howned hf hworker hobject⟩
  | _ => exact ⟨uid, hf.session, hf.responses⟩

/-! ## What is sent -/

/-- The responses computed so far, with their connections. -/
def computed (st : System E H) : List (H × VadResponse) :=
  st.answered.map fun answer => (answer.task.hdl, answer.response)

theorem sent_step (h : st.step env a = some st')
    (hs : (st.sent ++ st.worker.toSend).Sublist st.computed) :
    (st'.sent ++ st'.worker.toSend).Sublist st'.computed := by
  have hsent : st.sent.Sublist st.computed := (List.sublist_append_left _ _).trans hs
  have hnil : (st.sent ++ []).Sublist st.computed := by
    rw [List.append_nil]
    exact hsent
  cases step_cases h with
  | process now task ptr session hworker hobject =>
      show (st.sent ++ [(task.hdl, _)]).Sublist (List.map _ (st.answered ++ [_]))
      rw [List.map_append]
      exact hsent.append (List.Sublist.refl _)
  | send delivered hdl resp hworker =>
      rw [hworker] at hs
      cases delivered with
      | false => exact hnil
      | true =>
          -- the response moves from the worker to what was sent
          show ((st.sent ++ [(hdl, resp)]) ++ []).Sublist st.computed
          rw [List.append_nil]
          exact hs
  | test => cases hrunning : st.server.running <;> exact hnil
  | spawn | pop | found | skip => exact hnil
  | setRunning | listen | runEnds | openConn | closeConn | receive | handle => exact hs
  | enter | clear | stopServer | askJoinable | join => exact hs

/-- **Only computed responses are sent**, each at most once and in the order they were computed
in, to the connections they were computed for. -/
theorem sent_sublist (h : Reaches (step env) init st) : st.sent.Sublist st.computed := by
  have hall := h.inv (fun s => (s.sent ++ s.worker.toSend).Sublist s.computed)
    (fun _ _ _ hstep hs => sent_step hstep hs) (List.Sublist.refl _)
  exact (List.sublist_append_left _ _).trans hall

/-! ## Isolation -/

/-- The simulation of the clients, each alone with a session of its own. -/
structure Simulates (env : Env E) (st : System E H) : Prop where
  owned : st.Owned
  client : ∀ hdl, ∃ skipped uid, st.Ledger hdl skipped ∧ st.Follows env hdl uid

theorem simulates_init : Simulates env (init : System E H) :=
  ⟨owned_init, fun hdl => ⟨[], "", ledger_init hdl, follows_init hdl ""⟩⟩

theorem simulates_step (h : st.step env a = some st') (hs : st.Simulates env) :
    st'.Simulates env := by
  refine ⟨owned_step h hs.owned, ?_⟩
  intro hdl
  obtain ⟨skipped, uid, hl, hf⟩ := hs.client hdl
  obtain ⟨skipped', hl'⟩ := ledger_step h hs.owned hl
  obtain ⟨uid', hf'⟩ := follows_step h hs.owned hl hf
  exact ⟨skipped', uid', hl', hf'⟩

theorem simulates_of_reaches (h : Reaches (step env) init st) : st.Simulates env :=
  h.inv (Simulates env) (fun _ _ _ hstep hs => simulates_step hstep hs) simulates_init

theorem Ledger.map_task_isPrefix (hl : st.Ledger hdl skipped) :
    (st.answersOf hdl).map Answer.task <+: st.tasksOf hdl := by
  rw [hl.tasks, map_task_answersOf]
  simp only [List.append_assoc]
  exact List.prefix_append _ _

/-- Nothing is skipped as long as the connection is open, so that at the end every task has
been answered. -/
theorem Ledger.map_task_eq (hl : st.Ledger hdl skipped) (hdrained : st.Drained)
    (hconn : st.conns hdl = .opened) : (st.answersOf hdl).map Answer.task = st.tasksOf hdl := by
  have hskipped : skipped = [] := by
    by_contra hne
    exact absurd (hconn.symm.trans (hl.closed hne)) (by decide)
  calc (st.answersOf hdl).map Answer.task = own hdl (st.answered.map Answer.task) :=
        map_task_answersOf st hdl
    _ = st.tasksOf hdl := by
        rw [hl.tasks, hdrained.taskQueue, hdrained.lookedUp, hdrained.inProcess, hskipped]
        simp only [own_nil, List.append_nil]

/-- The names of a response are those in force after the messages up to its own. -/
theorem Follows.metadata {uid : String} (hf : st.Follows env hdl uid)
    (hl : st.Ledger hdl skipped) (i : ℕ) (hi : i < (st.answersOf hdl).length) :
    (st.answersOf hdl)[i].response.metadata
      = Metadata.last ⟨uid, "", ""⟩ (((st.tasksOf hdl).take (i + 1)).map AudioTask.metadata) := by
  have hlen : i < (outputs (Session.serve env.engine) (Session.new uid hdl env.vadEngine)
      (st.inputsOf hdl)).length := by
    rw [← hf.responses, List.length_map]
    exact hi
  have hresponse : (st.answersOf hdl)[i].response = (outputs (Session.serve env.engine)
      (Session.new uid hdl env.vadEngine) (st.inputsOf hdl))[i] := by
    simp only [← hf.responses, List.getElem_map]
  have htasks : (st.inputsOf hdl).map (fun input => input.1)
      = (st.answersOf hdl).map Answer.task := by
    rw [inputsOf, List.map_map]
    rfl
  obtain ⟨rest, hrest⟩ := hl.map_task_isPrefix
  -- the inputs of the session so far are the first tasks that arrived
  have htake : ((st.inputsOf hdl).take (i + 1)).map (fun input => input.1)
      = (st.tasksOf hdl).take (i + 1) := by
    rw [List.map_take, htasks, ← hrest, List.take_append_of_le_length (by simpa using hi)]
  calc (st.answersOf hdl)[i].response.metadata
      = Metadata.last ⟨uid, "", ""⟩
          (((st.inputsOf hdl).take (i + 1)).map fun input => input.1.metadata) := by
        rw [hresponse, Session.outputs_metadata]
        rfl
    _ = Metadata.last ⟨uid, "", ""⟩ (((st.tasksOf hdl).take (i + 1)).map AudioTask.metadata) := by
        rw [← htake, List.map_map]
        rfl

/-- **Isolation and order.** In every reachable state, the tasks of a connection that were
served are a prefix of the tasks that arrived, and the responses computed for it are those of
one session alone, created under some name, that is served these tasks; they are all of its
tasks once the queue is drained, if the connection is open. Each response carries the names
in force after the messages up to its own. -/
theorem isolated (h : Reaches (step env) init st) (hdl : H) :
    ∃ uid : String,
      (st.answersOf hdl).map Answer.task <+: st.tasksOf hdl ∧
      (st.answersOf hdl).map Answer.response
        = outputs (Session.serve env.engine) (Session.new uid hdl env.vadEngine)
            ((st.answersOf hdl).map fun answer => (answer.task, answer.now)) ∧
      (st.Drained → st.conns hdl = .opened →
        (st.answersOf hdl).map Answer.task = st.tasksOf hdl) ∧
      ∀ (i : ℕ) (hi : i < (st.answersOf hdl).length), (st.answersOf hdl)[i].response.metadata
        = Metadata.last ⟨uid, "", ""⟩ (((st.tasksOf hdl).take (i + 1)).map AudioTask.metadata) := by
  obtain ⟨skipped, uid, hl, hf⟩ := (simulates_of_reaches h).client hdl
  exact ⟨uid, hl.map_task_isPrefix, hf.responses, hl.map_task_eq, hf.metadata hl⟩

/-- Two clients take turns. The first one leaves while its message is being served. -/
def twoClients : List (Action Bool) :=
  [.setRunning, .spawn, .test, .listen, .openConn false, .openConn true,
    .receive false ⟨.binary, []⟩, .handle, .pop, .receive true ⟨.binary, [1]⟩, .lookup, .handle,
    .closeConn false, .process 5, .receive true ⟨.binary, [2, 3]⟩, .send false, .test, .pop,
    .handle, .lookup, .process 6, .send true, .test, .pop, .lookup, .process 8]

/-- The responses to the second client after the turns of `twoClients`. -/
theorem isolated_twoClients : ∃ st : System (SileroVadEngine (List F32)) Bool,
    exec (step (scriptedEnv [])) init twoClients = some st ∧
      st.tasksOf true = [binaryTask true [1], binaryTask true [2, 3]] ∧ ∃ uid : String,
        (st.answersOf true).map Answer.task = st.tasksOf true ∧
        (st.answersOf true).map Answer.response
          = outputs (Session.serve (scriptedEnv []).engine)
              (Session.new uid true (scriptedEnv []).vadEngine)
              ((st.answersOf true).map fun answer => (answer.task, answer.now)) := by
  have hsome : (exec (step (scriptedEnv [])) init twoClients).isSome = true := rfl
  refine ⟨_, (Option.some_get hsome).symm, rfl, ?_⟩
  have hreach : Reaches (step (scriptedEnv [])) init _ :=
    ⟨twoClients, (Option.some_get hsome).symm⟩
  obtain ⟨uid, _, hresponses, hall, _⟩ := isolated hreach true
  exact ⟨uid, hall ⟨rfl, rfl, rfl⟩ rfl, hresponses⟩

end System

end VadService
