import VadService.Server.Isolation
import VadService.Lib.Lockstep

set_option autoImplicit false

/-! # The names do not matter

The names of a task (`uid`, `connect_session`, `current_session`) are copied to the session and
from there to its responses, and nothing else depends on them. Nor does it matter whether the
audio of a message came as bytes or as Base64 in a text. So two runs whose messages carry the
same audio take the same steps, and end in states that differ in these names only
(`names_do_not_matter`).
-/

namespace VadService

open Machine

/-! ## Without names -/

/-- A response without names. -/
def VadResponse.anonymous (r : VadResponse) : VadResponse :=
  { r with uid := "", connectSession := "", currentSession := "" }

/-- A task without names. -/
def AudioTask.anonymous {H : Type} (task : AudioTask H) : AudioTask H :=
  binaryTask task.hdl task.data

/-- An answer without names. -/
def Answer.anonymous {H : Type} (answer : Answer H) : Answer H where
  task := answer.task.anonymous
  now := answer.now
  response := answer.response.anonymous

@[simp] theorem VadResponse.anonymous_anonymous (r : VadResponse) :
    r.anonymous.anonymous = r.anonymous := rfl

@[simp] theorem AudioTask.anonymous_hdl {H : Type} (task : AudioTask H) :
    task.anonymous.hdl = task.hdl := rfl

@[simp] theorem AudioTask.anonymous_data {H : Type} (task : AudioTask H) :
    task.anonymous.data = task.data := rfl

@[simp] theorem AudioTask.anonymous_anonymous {H : Type} (task : AudioTask H) :
    task.anonymous.anonymous = task.anonymous := rfl

@[simp] theorem Answer.anonymous_anonymous {H : Type} (answer : Answer H) :
    answer.anonymous.anonymous = answer.anonymous := rfl

namespace Session

variable {E H : Type} {V : IVadEngine E}

/-- A session without its names. -/
def anonymous (s : Session E H) : Session E H :=
  { s with id := "", connectSession := "", currentSession := "" }

@[simp] theorem anonymous_anonymous (s : Session E H) : s.anonymous.anonymous = s.anonymous := rfl

theorem anonymous_updateMetadata (s : Session E H) (task : AudioTask H) :
    (s.updateMetadata task).anonymous = s.anonymous := by
  simp only [updateMetadata, setId, setConnectSession, setCurrentSession]
  split_ifs <;> rfl

theorem processAudio_anonymous (s : Session E H) (rawData : List UInt8) (now : ℕ) :
    (s.processAudio V rawData now).1.anonymous
        = (s.anonymous.processAudio V rawData now).1.anonymous ∧
      (s.processAudio V rawData now).2.anonymous
        = (s.anonymous.processAudio V rawData now).2.anonymous := by
  have hanswer : s.anonymous.answered V rawData = s.answered V rawData := rfl
  rw [processAudio_eq, processAudio_eq, hanswer]
  cases s.answered V rawData <;> exact ⟨rfl, rfl⟩

/-- **Serving a task looks at its audio only.** -/
theorem serve_anonymous (s : Session E H) (task : AudioTask H) (now : ℕ) :
    (s.serve V (task, now)).1.anonymous
        = (s.anonymous.processAudio V task.data now).1.anonymous ∧
      (s.serve V (task, now)).2.anonymous
        = (s.anonymous.processAudio V task.data now).2.anonymous := by
  have hserve := processAudio_anonymous (V := V) (s.updateMetadata task) task.data now
  rw [anonymous_updateMetadata] at hserve
  exact hserve

end Session

/-! ## Messages as audio -/

/-- The message as bytes: the audio it carries, or a ping if it is no task. -/
def Message.spoken {H : Type} (parse : List UInt8 → Except JsonException Json) (hdl : H)
    (msg : Message) : Message :=
  match taskOf parse hdl msg with
  | some task => ⟨.binary, task.data⟩
  | none => ⟨.ping, []⟩

section Spoken

variable {H : Type} (parse : List UInt8 → Except JsonException Json) (hdl : H) (msg : Message)

theorem taskOf_spoken :
    taskOf parse hdl (msg.spoken parse hdl) = (taskOf parse hdl msg).map AudioTask.anonymous := by
  rw [Message.spoken]
  cases htask : taskOf parse hdl msg with
  | none => rfl
  | some task =>
      rw [Option.map_some, AudioTask.anonymous, taskOf_hdl htask]
      rfl

theorem spoken_spoken : (msg.spoken parse hdl).spoken parse hdl = msg.spoken parse hdl := by
  rw [Message.spoken, taskOf_spoken, Message.spoken]
  cases taskOf parse hdl msg <;> rfl

end Spoken

/-- The action with its message as bytes. -/
def Action.spoken {H : Type} (parse : List UInt8 → Except JsonException Json) :
    Action H → Action H
  | .receive hdl msg => .receive hdl (msg.spoken parse hdl)
  | a => a

/-! ## The server without names -/

/-- The main thread with the message in its hands as bytes. -/
def Main.spoken {H : Type} (parse : List UInt8 → Except JsonException Json) : Main H → Main H
  | .handling hdl msg => .handling hdl (msg.spoken parse hdl)
  | main => main

/-- The worker with a task or a response without names in its hands. -/
def Worker.anonymous {H : Type} : Worker H → Worker H
  | .lookup task => .lookup task.anonymous
  | .process task ptr => .process task.anonymous ptr
  | .send hdl resp => .send hdl resp.anonymous
  | worker => worker

@[simp] theorem Main.spoken_spoken {H : Type} (parse : List UInt8 → Except JsonException Json)
    (main : Main H) : (main.spoken parse).spoken parse = main.spoken parse := by
  cases main with
  | handling hdl msg => simp [Main.spoken, VadService.spoken_spoken]
  | _ => rfl

@[simp] theorem Worker.anonymous_anonymous {H : Type} (worker : Worker H) :
    worker.anonymous.anonymous = worker.anonymous := by
  cases worker <;> rfl

/-- The server object without names. -/
def AudioServer.anonymous {E H : Type} (s : AudioServer E H) : AudioServer E H :=
  { s with
    taskQueue := ⟨s.taskQueue.queue.map AudioTask.anonymous⟩
    objects := s.objects.map Session.anonymous }

namespace System

variable {E H : Type} {env : Env E} {st : System E H}

/-- The system without names. -/
def anonymous (env : Env E) (st : System E H) : System E H :=
  { st with
    server := st.server.anonymous
    main := st.main.spoken env.parse
    worker := st.worker.anonymous
    received := st.received.map AudioTask.anonymous
    answered := st.answered.map Answer.anonymous
    sent := st.sent.map fun resp => (resp.1, resp.2.anonymous) }

variable [DecidableEq H]

section Steps

attribute [local simp] step anonymous Action.spoken setRunning setStop setConn
  AudioServer.anonymous Function.comp_def

/-- **A step does not see the names**: it is refused with them if it is without them, and leaves
the same behind, but for the names. -/
theorem step_anonymous (a : Action H) :
    (st.step env a).map (anonymous env)
      = ((st.anonymous env).step env (a.spoken env.parse)).map (anonymous env) := by
  -- the cases are those of `step`: where the thread is, and what it has to wait for
  cases a with
  | setRunning => cases hmain : st.main <;> simp [hmain, Main.spoken]
  | spawn =>
      cases hmain : st.main <;> cases hworker : st.worker <;>
        simp [hmain, Main.spoken, hworker, Worker.anonymous]
  | listen => cases hmain : st.main <;> simp [hmain, Main.spoken]
  | runEnds => cases hmain : st.main <;> simp [hmain, Main.spoken]
  | openConn hdl =>
      cases hmain : st.main <;> cases hstop : st.srvStopped <;> cases hconn : st.conns hdl <;>
        simp [hmain, Main.spoken, hstop, hconn, AudioServer.onOpen]
  | closeConn hdl =>
      cases hmain : st.main <;> cases hstop : st.srvStopped <;> cases hconn : st.conns hdl <;>
        simp [hmain, Main.spoken, hstop, hconn, AudioServer.onClose]
  | receive hdl msg =>
      cases hmain : st.main <;> cases hstop : st.srvStopped <;> cases hconn : st.conns hdl <;>
        simp [hmain, Main.spoken, hstop, hconn, spoken_spoken]
  | handle =>
      cases hmain : st.main with
      | handling hdl msg =>
          -- the task of the message has no names on the right
          have htask := taskOf_spoken env.parse hdl msg
          cases hmsg : taskOf env.parse hdl msg <;>
            simp [hmain, Main.spoken, hmsg, htask, AudioServer.onMessage, SafeQueue.push]
      | _ => simp [hmain, Main.spoken]
  | test =>
      cases hworker : st.worker <;> cases hrunning : st.server.running <;>
        simp [hworker, Worker.anonymous, hrunning]
  | pop =>
      rcases hqueue : st.server.taskQueue with ⟨_ | ⟨task, tasks⟩⟩ <;>
        cases hworker : st.worker <;>
        simp [hworker, Worker.anonymous, hqueue, SafeQueue.pop]
  | lookup =>
      cases hworker : st.worker with
      | lookup task =>
          cases hsession : st.server.sessions task.hdl <;>
            simp [hworker, Worker.anonymous, hsession]
      | _ => simp [hworker, Worker.anonymous]
  | process now =>
      cases hworker : st.worker with
      | process task ptr =>
          cases hobject : st.server.objects[ptr]? with
          | none => simp [hworker, Worker.anonymous, hobject, AudioServer.serve]
          | some session =>
              -- the session answers the same without its names, and without those of the task
              obtain ⟨hresp, hnext⟩ := session.serve_anonymous (V := env.engine) task now
              obtain ⟨hresp', hnext'⟩ :=
                session.anonymous.serve_anonymous (V := env.engine) task.anonymous now
              rw [Session.anonymous_anonymous, AudioTask.anonymous_data, ← hresp] at hresp'
              rw [Session.anonymous_anonymous, AudioTask.anonymous_data, ← hnext] at hnext'
              simp [hworker, Worker.anonymous, hobject, AudioServer.serve, Answer.anonymous,
                List.map_set, hresp', hnext']
      | _ => simp [hworker, Worker.anonymous]
  | send delivered =>
      cases hworker : st.worker <;> cases delivered <;> simp [hworker, Worker.anonymous]
  | enter c =>
      cases c with
      | destructor =>
          cases hmain : st.main <;> cases hstop : st.stops .destructor <;>
            cases hrunning : st.server.running <;>
            simp [mayCall, hmain, Main.spoken, hstop, hrunning]
      | thread n =>
          cases hstop : st.stops (.thread n) <;> cases hrunning : st.server.running <;>
            simp [mayCall, hstop, hrunning]
  | clear c => cases hstop : st.stops c <;> simp [hstop]
  | stopServer c => cases hstop : st.stops c <;> simp [hstop]
  | askJoinable c =>
      cases hstop : st.stops c <;> cases hjoinable : st.joinable <;> simp [hstop, hjoinable]
  | join c =>
      cases hstop : st.stops c <;> cases hworker : st.worker <;>
        simp [hstop, hworker, Worker.anonymous]

end Steps

variable {as bs : List (Action H)}

/-- **The names do not matter.** Take two runs that do the same, but for their messages, which
may come as texts or as bytes, with any names, as long as they carry the same audio. The one is
accepted if the other is, and then the two systems are the same but for the names: every client
has been sent as many responses, with the same states, the same audio and the same time. -/
theorem names_do_not_matter
    (h : as.map (Action.spoken env.parse) = bs.map (Action.spoken env.parse)) :
    (exec (step env) init as).map (anonymous env)
      = (exec (step env) init bs).map (anonymous env) := by
  refine exec_map_eq (anonymous env) (anonymous env) (Action.spoken env.parse)
    (Action.spoken env.parse) ?_ rfl h
  intro st st' a b hst hab
  rw [step_anonymous, hst, hab, ← step_anonymous]

/-- A text with a name, in bytes. -/
def namedText : List UInt8 :=
  "\x7b\"uid\":\"bob\",\"data\":\x7b\"audio\":\"QUJD\"\x7d\x7d".toList.map
    fun c => UInt8.ofNat c.toNat

/-- A server whose parser knows this text. -/
def namedEnv : Env (SileroVadEngine (List F32)) :=
  { scriptedEnv [] with
    parse := fun payload =>
      if payload = namedText then
        .ok (.object [("uid", .string "bob"), ("data", .object [("audio", .string "QUJD")])])
      else .error .parseError }

/-- A client that sends one message, which is served. -/
def oneMessage (msg : Message) : List (Action Unit) :=
  [.setRunning, .spawn, .test, .listen, .openConn (), .receive () msg, .handle, .pop, .lookup,
    .process 5, .send true]

theorem names_do_not_matter_text :
    (exec (step namedEnv) init (oneMessage ⟨.text, namedText⟩)).map (anonymous namedEnv)
      = (exec (step namedEnv) init (oneMessage ⟨.binary, [65, 66, 67]⟩)).map
          (anonymous namedEnv) := by
  have htask : taskOf namedEnv.parse () ⟨.text, namedText⟩
      = some ⟨(), [65, 66, 67], "bob", "", ""⟩ := by decide +kernel
  refine names_do_not_matter ?_
  simp only [oneMessage, List.map_cons, List.map_nil, Action.spoken, Message.spoken, htask]
  rfl

end System

end VadService
