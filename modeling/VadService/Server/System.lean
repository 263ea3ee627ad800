import VadService.Server.Basic
import VadService.Iterator.Run

set_option autoImplicit false

/-! # Threads

The server as its threads run it. The main thread runs `main`: `run` and, inside of
`srv_.run()`, one handler after the other. The worker thread runs `worker_loop`. Any number
of threads may call `stop`, and so does the destructor once `run` is over. A step is an
access to what the threads share, or a call that blocks; the threads take them in any order.

Of the WebSocket library the model has what the server relies on: a connection is opened
once, its messages arrive while it is open, handlers run one at a time inside of
`srv_.run()`, and none is started after `srv_.stop()`.
-/

namespace VadService

/-- A connection, in the eyes of the library. -/
inductive Conn where
  | fresh
  | opened
  | closed
  deriving DecidableEq

/-- Where the main thread is. -/
inductive Main (H : Type) where
  /-- before `running_ = true` -/
  | start
  /-- before the worker thread is created -/
  | running
  /-- before `listen` and `start_accept` -/
  | spawned
  /-- in `srv_.run()`, between two handlers -/
  | serving
  /-- in `on_message`, before the push -/
  | handling (hdl : H) (msg : Message)
  /-- `run` has returned or thrown -/
  | finished

/-- Where the worker thread is. -/
inductive Worker (H : Type) where
  | unborn
  /-- before the test of `running_` -/
  | test
  /-- in `pop` -/
  | pop
  /-- before the lookup of the session -/
  | lookup (task : AudioTask H)
  /-- before the session is served -/
  | process (task : AudioTask H) (ptr : ℕ)
  /-- before the response is sent -/
  | send (hdl : H) (resp : VadResponse)
  | exited

/-- Those who call `stop`. -/
inductive Caller where
  | destructor
  | thread (n : ℕ)
  deriving DecidableEq

/-- Where a call of `stop` is. -/
inductive Stop where
  | idle
  /-- `running_` was true -/
  | entered
  /-- `running_` is set to false -/
  | cleared
  /-- `srv_.stop()` has returned -/
  | stopped
  /-- in `join` -/
  | joining
  | returned
  deriving DecidableEq

/-- A task that was served: when, and what was computed for it. -/
structure Answer (H : Type) where
  task : AudioTask H
  now : ℕ
  response : VadResponse

/-- The state of the threads, of the library and of the server object. The last three
members only record what has happened. -/
structure System (E H : Type) where
  server : AudioServer E H
  conns : H → Conn
  srvStopped : Bool
  main : Main H
  worker : Worker H
  stops : Caller → Stop
  joinable : Bool
  received : List (AudioTask H)
  answered : List (Answer H)
  sent : List (H × VadResponse)

/-- What the server is built with: the JSON parser, the engine and the state a new session's
engine is in. -/
structure Env (E : Type) where
  parse : List UInt8 → Except JsonException Json
  engine : IVadEngine E
  vadEngine : E

/-- A server whose model reads its answers from a script, for clients that send no text. -/
def scriptedEnv (script : List F32) : Env (SileroVadEngine (List F32)) where
  parse := fun _ => .error .parseError
  engine := SileroVadEngine.engine VadIterator.scripted
  vadEngine := SileroVadEngine.new script 16000 32 SileroVadEngine.windowSize_default

/-- The steps of the threads. -/
inductive Action (H : Type) where
  | setRunning
  | spawn
  | listen
  | runEnds
  | openConn (hdl : H)
  | closeConn (hdl : H)
  | receive (hdl : H) (msg : Message)
  | handle
  | test
  | pop
  | lookup
  | process (now : ℕ)
  | send (delivered : Bool)
  | enter (c : Caller)
  | clear (c : Caller)
  | stopServer (c : Caller)
  | askJoinable (c : Caller)
  | join (c : Caller)

namespace System

variable {E H : Type}

/-- Nothing has happened yet. -/
def init : System E H where
  server := AudioServer.new
  conns := fun _ => .fresh
  srvStopped := false
  main := .start
  worker := .unborn
  stops := fun _ => .idle
  joinable := false
  received := []
  answered := []
  sent := []

/-- The member `running_` is written. -/
def setRunning (st : System E H) (b : Bool) : System E H :=
  { st with server := { st.server with running := b } }

/-- A call of `stop` moves on. -/
def setStop (st : System E H) (c : Caller) (pc : Stop) : System E H :=
  { st with stops := Function.update st.stops c pc }

/-- A connection is opened or closed. -/
def setConn [DecidableEq H] (st : System E H) (hdl : H) (conn : Conn) : System E H :=
  { st with conns := Function.update st.conns hdl conn }

/-- The destructor runs after `run`, the other callers whenever they like. -/
def mayCall (st : System E H) : Caller → Bool
  | .destructor => match st.main with
      | .finished => true
      | _ => false
  | .thread _ => true

variable [DecidableEq H]

/-- One step. It is refused if its thread is not there, or has to wait. -/
def step (env : Env E) (st : System E H) : Action H → Option (System E H)
  -- `run`
  | .setRunning => match st.main with
      | .start => some { st.setRunning true with main := .running }
      | _ => none
  | .spawn => match st.main, st.worker with
      | .running, .unborn =>
          some { st with main := .spawned, worker := .test, joinable := true }
      | _, _ => none
  | .listen => match st.main with
      | .spawned => some { st with main := .serving }
      | _ => none
  -- `listen`, `start_accept` or `srv_.run()` throws, or `srv_.run()` returns
  | .runEnds => match st.main with
      | .spawned => some { st with main := .finished }
      | .serving => some { st with main := .finished }
      | _ => none
  -- the handlers
  | .openConn hdl => match st.main, st.srvStopped, st.conns hdl with
      | .serving, false, .fresh =>
          some { st.setConn hdl .opened with server := st.server.onOpen env.vadEngine hdl }
      | _, _, _ => none
  | .closeConn hdl => match st.main, st.srvStopped, st.conns hdl with
      | .serving, false, .opened =>
          some { st.setConn hdl .closed with server := st.server.onClose hdl }
      | _, _, _ => none
  | .receive hdl msg => match st.main, st.srvStopped, st.conns hdl with
      | .serving, false, .opened => some { st with main := .handling hdl msg }
      | _, _, _ => none
  | .handle => match st.main with
      | .handling hdl msg => some
          { st with
            main := .serving
            server := st.server.onMessage env.parse hdl msg
            received := st.received ++ (taskOf env.parse hdl msg).toList }
      | _ => none
  -- `worker_loop`
  | .test => match st.worker with
      | .test => some { st with worker := if st.server.running then .pop else .exited }
      | _ => none
  | .pop => match st.worker, st.server.taskQueue.pop with
      | .pop, some (task, taskQueue) => some
          { st with
            worker := .lookup task
            server := { st.server with taskQueue := taskQueue } }
      | _, _ => none
  | .lookup => match st.worker with
      | .lookup task => match st.server.sessions task.hdl with
          | some ptr => some { st with worker := .process task ptr }
          | none => some { st with worker := .test }
      | _ => none
  | .process now => match st.worker with
      | .process task ptr => match st.server.serve env.engine ptr task now with
          | some (resp, server) => some
              { st with
                worker := .send task.hdl resp
                server := server
                answered := st.answered ++ [⟨task, now, resp⟩] }
          | none => none
      | _ => none
  -- a failed `send` is logged
  | .send delivered => match st.worker with
      | .send hdl resp => some
          { st with
            worker := .test
            sent := if delivered then st.sent ++ [(hdl, resp)] else st.sent }
      | _ => none
  -- `stop`
  | .enter c => match st.stops c, st.mayCall c with
      | .idle, true => some (st.setStop c (if st.server.running then .entered else .returned))
      | _, _ => none
  | .clear c => match st.stops c with
      | .entered => some ((st.setRunning false).setStop c .cleared)
      | _ => none
  | .stopServer c => match st.stops c with
      | .cleared => some { st.setStop c .stopped with srvStopped := true }
      | _ => none
  | .askJoinable c => match st.stops c with
      | .stopped => some (st.setStop c (if st.joinable then .joining else .returned))
      | _ => none
  | .join c => match st.stops c, st.worker with
      | .joining, .exited => some { st.setStop c .returned with joinable := false }
      | _, _ => none

/-! ## What a step does -/

/-- The accepted steps, one constructor for each way a step goes. -/
inductive Transition (env : Env E) (st : System E H) : Action H → System E H → Prop where
  | setRunning (hmain : st.main = .start) :
      Transition env st .setRunning { st.setRunning true with main := .running }
  | spawn (hmain : st.main = .running) (hworker : st.worker = .unborn) :
      Transition env st .spawn { st with main := .spawned, worker := .test, joinable := true }
  | listen (hmain : st.main = .spawned) : Transition env st .listen { st with main := .serving }
  | runEnds (hmain : st.main = .spawned ∨ st.main = .serving) :
      Transition env st .runEnds { st with main := .finished }
  | openConn (hdl : H) (hmain : st.main = .serving) (hstop : st.srvStopped = false)
      (hconn : st.conns hdl = .fresh) :
      Transition env st (.openConn hdl)
        { st.setConn hdl .opened with server := st.server.onOpen env.vadEngine hdl }
  | closeConn (hdl : H) (hmain : st.main = .serving) (hstop : st.srvStopped = false)
      (hconn : st.conns hdl = .opened) :
      Transition env st (.closeConn hdl)
        { st.setConn hdl .closed with server := st.server.onClose hdl }
  | receive (hdl : H) (msg : Message) (hmain : st.main = .serving)
      (hstop : st.srvStopped = false) (hconn : st.conns hdl = .opened) :
      Transition env st (.receive hdl msg) { st with main := .handling hdl msg }
  | handle (hdl : H) (msg : Message) (hmain : st.main = .handling hdl msg) :
      Transition env st .handle
        { st with
          main := .serving
          server := st.server.onMessage env.parse hdl msg
          received := st.received ++ (taskOf env.parse hdl msg).toList }
  | test (hworker : st.worker = .test) :
      Transition env st .test { st with worker := if st.server.running then .pop else .exited }
  | pop (task : AudioTask H) (taskQueue : SafeQueue (AudioTask H)) (hworker : st.worker = .pop)
      (hqueue : st.server.taskQueue.queue = task :: taskQueue.queue) :
      Transition env st .pop
        { st with
          worker := .lookup task
          server := { st.server with taskQueue := taskQueue } }
  | found (task : AudioTask H) (ptr : ℕ) (hworker : st.worker = .lookup task)
      (hsession : st.server.sessions task.hdl = some ptr) :
      Transition env st .lookup { st with worker := .process task ptr }
  | skip (task : AudioTask H) (hworker : st.worker = .lookup task)
      (hsession : st.server.sessions task.hdl = none) :
      Transition env st .lookup { st with worker := .test }
  | process (now : ℕ) (task : AudioTask H) (ptr : ℕ) (session : Session E H)
      (hworker : st.worker = .process task ptr)
      (hobject : st.server.objects[ptr]? = some session) :
      Transition env st (.process now)
        { st with
          worker := .send task.hdl (session.serve env.engine (task, now)).1
          server := { st.server with
            objects := st.server.objects.set ptr (session.serve env.engine (task, now)).2 }
          answered := st.answered ++ [⟨task, now, (session.serve env.engine (task, now)).1⟩] }
  | send (delivered : Bool) (hdl : H) (resp : VadResponse) (hworker : st.worker = .send hdl resp) :
      Transition env st (.send delivered)
        { st with
          worker := .test
          sent := if delivered then st.sent ++ [(hdl, resp)] else st.sent }
  | enter (c : Caller) (hstop : st.stops c = .idle) (hmay : st.mayCall c = true) :
      Transition env st (.enter c)
        (st.setStop c (if st.server.running then .entered else .returned))
  | clear (c : Caller) (hstop : st.stops c = .entered) :
      Transition env st (.clear c) ((st.setRunning false).setStop c .cleared)
  | stopServer (c : Caller) (hstop : st.stops c = .cleared) :
      Transition env st (.stopServer c) { st.setStop c .stopped with srvStopped := true }
  | askJoinable (c : Caller) (hstop : st.stops c = .stopped) :
      Transition env st (.askJoinable c)
        (st.setStop c (if st.joinable then .joining else .returned))
  | join (c : Caller) (hstop : st.stops c = .joining) (hworker : st.worker = .exited) :
      Transition env st (.join c) { st.setStop c .returned with joinable := false }

/-- **Inversion.** What an accepted step found and what it left. -/
theorem step_cases {env : Env E} {st st' : System E H} {a : Action H}
    (h : st.step env a = some st') : Transition env st a st' := by
  cases a with
  | lookup =>
      rw [step] at h
      split at h
      · split at h
        · cases h
          exact .found _ _ ‹_› ‹_›
        · cases h
          exact .skip _ ‹_› ‹_›
      · cases h
  | process now =>
      rw [step] at h
      split at h
      · rename_i task ptr hworker
        split at h
        · rename_i resp server hserve
          obtain ⟨session, hobject, rfl, rfl⟩ := AudioServer.serve_eq_some hserve
          cases h
          exact .process now task ptr session hworker hobject
        · cases h
      · cases h
  | pop =>
      rw [step] at h
      split at h
      · cases h
        exact .pop _ _ ‹_› (SafeQueue.pop_eq_some.mp ‹_›)
      · cases h
  | runEnds =>
      rw [step] at h
      split at h
      · cases h
        exact .runEnds (.inl ‹_›)
      · cases h
        exact .runEnds (.inr ‹_›)
      · cases h
  | _ =>
      -- one accepting branch, whose guards are the arguments of the constructor
      rw [step] at h
      split at h
      · cases h
        constructor <;> assumption
      · cases h

end System

end VadService
