import VadService.Server.Message
import VadService.Session.Basic
import VadService.Lib.Machine

set_option autoImplicit false

/-! # The server object

The members of `AudioServer` and what its handlers and its worker do to them. The sessions
live on a heap of objects: `sessions_` holds pointers to them, and the worker may hold one
too, so that closing a connection does not end the session it is being served with.
-/

namespace VadService

open Machine

/-! ## `SafeQueue` -/

/-- `SafeQueue`: what `queue_` holds, from the front to the back. -/
structure SafeQueue (T : Type) where
  queue : List T
  deriving DecidableEq

namespace SafeQueue

variable {T : Type}

/-- The queue a server starts with. -/
def new : SafeQueue T := ⟨[]⟩

/-- `push` -/
def push (q : SafeQueue T) (item : T) : SafeQueue T := ⟨q.queue ++ [item]⟩

/-- `pop`, which waits while the queue is empty. -/
def pop (q : SafeQueue T) : Option (T × SafeQueue T) :=
  match q.queue with
  | [] => none
  | item :: items => some (item, ⟨items⟩)

theorem pop_eq_some {q q' : SafeQueue T} {item : T} :
    q.pop = some (item, q') ↔ q.queue = item :: q'.queue := by
  rcases q with ⟨_ | ⟨a, items⟩⟩
  · simp [pop]
  · rcases q' with ⟨items'⟩
    simp [pop]

end SafeQueue

/-! ## Serving a task with a session -/

namespace Session

variable {E H : Type}

/-- The part of `worker_loop` headed `Update Metadata`. -/
def updateMetadata (s : Session E H) (task : AudioTask H) : Session E H :=
  -- an empty name leaves the one of the session
  let s := if task.uid ≠ "" ∧ s.getId ≠ task.uid then s.setId task.uid else s
  let s := if task.connectSession ≠ "" then s.setConnectSession task.connectSession else s
  if task.currentSession ≠ "" then s.setCurrentSession task.currentSession else s

/-- What `worker_loop` does with the session of a task: the metadata of the task, then its
audio. The clock is read once. -/
def serve (V : IVadEngine E) (s : Session E H) (input : AudioTask H × ℕ) :
    VadResponse × Session E H :=
  (s.updateMetadata input.1).processAudio V input.1.data input.2

end Session

/-! ## `AudioServer` -/

/-- The members of `AudioServer` the handlers and the worker share, the objects `sessions_`
points to and the counter of `on_open`, an `int` that holds the number of the connections as long
as less than `2^31` of them were opened. -/
structure AudioServer (E H : Type) where
  running : Bool
  taskQueue : SafeQueue (AudioTask H)
  sessions : H → Option ℕ
  objects : List (Session E H)
  idCounter : ℕ

namespace AudioServer

variable {E H : Type}

/-- `AudioServer()` -/
def new : AudioServer E H where
  running := false
  taskQueue := SafeQueue.new
  sessions := fun _ => none
  objects := []
  idCounter := 0

section Handlers

variable [DecidableEq H]

/-- `on_open`. `vadEngine` is the engine every session is created with. -/
def onOpen (s : AudioServer E H) (vadEngine : E) (hdl : H) : AudioServer E H :=
  let idCounter := s.idCounter + 1
  let uid := "user_" ++ toString idCounter
  { s with
    idCounter := idCounter
    objects := s.objects ++ [Session.new uid hdl vadEngine]
    sessions := Function.update s.sessions hdl (some s.objects.length) }

/-- `on_close` -/
def onClose (s : AudioServer E H) (hdl : H) : AudioServer E H :=
  { s with sessions := Function.update s.sessions hdl none }

end Handlers

/-- `on_message` -/
def onMessage (parse : List UInt8 → Except JsonException Json) (s : AudioServer E H) (hdl : H)
    (msg : Message) : AudioServer E H :=
  match taskOf parse hdl msg with
  | some task => { s with taskQueue := s.taskQueue.push task }
  | none => s

/-- One round of `worker_loop` with the session it has found at `ptr`, up to the response. -/
def serve (V : IVadEngine E) (s : AudioServer E H) (ptr : ℕ) (task : AudioTask H) (now : ℕ) :
    Option (VadResponse × AudioServer E H) :=
  match s.objects[ptr]? with
  | some session =>
      let (resp, session) := session.serve V (task, now)
      some (resp, { s with objects := s.objects.set ptr session })
  | none => none

theorem serve_eq_some {V : IVadEngine E} {s s' : AudioServer E H} {ptr now : ℕ}
    {task : AudioTask H} {resp : VadResponse} (h : s.serve V ptr task now = some (resp, s')) :
    ∃ session, s.objects[ptr]? = some session ∧ resp = (session.serve V (task, now)).1 ∧
      s' = { s with objects := s.objects.set ptr (session.serve V (task, now)).2 } := by
  rw [serve] at h
  cases hobject : s.objects[ptr]? with
  | none => simp [hobject] at h
  | some session =>
      rw [hobject] at h
      cases h
      exact ⟨session, rfl, rfl, rfl⟩

end AudioServer

/-! ## The metadata of a session -/

/-- The last of the values `vs` that is not empty, or else `v`. -/
def lastNonEmpty (v : String) (vs : List String) : String :=
  (vs.filter fun x => x ≠ "").getLast?.getD v

theorem lastNonEmpty_append_singleton (v x : String) (vs : List String) :
    lastNonEmpty v (vs ++ [x]) = if x = "" then lastNonEmpty v vs else x := by
  rw [lastNonEmpty, List.filter_append]
  by_cases hx : x = ""
  · rw [if_pos hx, List.filter_singleton, hx]
    simp [lastNonEmpty]
  · rw [if_neg hx, List.filter_singleton]
    simp [hx]

/-- The names a client gives itself. -/
structure Metadata where
  uid : String
  connectSession : String
  currentSession : String
  deriving DecidableEq

/-- The names in force after the messages with the names `ms`: of each the last that is not
empty, or else the one of `m`. -/
def Metadata.last (m : Metadata) (ms : List Metadata) : Metadata where
  uid := lastNonEmpty m.uid (ms.map Metadata.uid)
  connectSession := lastNonEmpty m.connectSession (ms.map Metadata.connectSession)
  currentSession := lastNonEmpty m.currentSession (ms.map Metadata.currentSession)

/-- The names a task brings; an empty one brings nothing. -/
def AudioTask.metadata {H : Type} (task : AudioTask H) : Metadata :=
  ⟨task.uid, task.connectSession, task.currentSession⟩

/-- The names a response carries. -/
def VadResponse.metadata (resp : VadResponse) : Metadata :=
  ⟨resp.uid, resp.connectSession, resp.currentSession⟩

namespace Session

variable {E H : Type} {V : IVadEngine E}

/-- The names of a session. -/
def metadata (s : Session E H) : Metadata := ⟨s.id, s.connectSession, s.currentSession⟩

theorem updateMetadata_metadata (s : Session E H) (task : AudioTask H) :
    (s.updateMetadata task).metadata =
      ⟨if task.uid = "" then s.id else task.uid,
        if task.connectSession = "" then s.connectSession else task.connectSession,
        if task.currentSession = "" then s.currentSession else task.currentSession⟩ := by
  simp only [metadata, updateMetadata, setId, setConnectSession, setCurrentSession, getId]
  split_ifs <;> grind

/-- A packet is answered under the names of the session, and leaves them. -/
theorem processAudio_metadata (s : Session E H) (rawData : List UInt8) (now : ℕ) :
    (s.processAudio V rawData now).1.metadata = s.metadata ∧
      (s.processAudio V rawData now).2.metadata = s.metadata := by
  rw [processAudio_eq]
  cases s.answered V rawData <;> exact ⟨rfl, rfl⟩

@[simp] theorem updateMetadata_hdl (s : Session E H) (task : AudioTask H) :
    (s.updateMetadata task).hdl = s.hdl := by
  simp only [updateMetadata, setId, setConnectSession, setCurrentSession]
  split_ifs <;> rfl

/-- A session keeps its connection. -/
theorem serve_hdl (s : Session E H) (input : AudioTask H × ℕ) :
    (s.serve V input).2.hdl = s.hdl := by
  calc (s.serve V input).2.hdl
      = (s.updateMetadata input.1).hdl := by
        rw [serve, processAudio_eq]
        cases (s.updateMetadata input.1).answered V input.1.data <;> rfl
    _ = s.hdl := updateMetadata_hdl s input.1

/-- The names of a session after a run of tasks. -/
theorem final_metadata (s : Session E H) (inputs : List (AudioTask H × ℕ)) :
    (final (serve V) s inputs).metadata
      = s.metadata.last (inputs.map fun input => input.1.metadata) := by
  induction inputs using List.reverseRecOn with
  | nil => rfl
  | append_singleton inputs input ih =>
      have hserve : (final (serve V) s (inputs ++ [input])).metadata
          = ((final (serve V) s inputs).updateMetadata input.1).metadata := by
        rw [final_append]
        exact (processAudio_metadata _ input.1.data input.2).2
      have hnames := congrArg Metadata.uid ih
      have hconnect := congrArg Metadata.connectSession ih
      have hcurrent := congrArg Metadata.currentSession ih
      rw [hserve, updateMetadata_metadata]
      simp only [Metadata.last, List.map_append, List.map_map, List.map_cons, List.map_nil,
        lastNonEmpty_append_singleton]
      simp only [metadata, Metadata.last, List.map_map] at hnames hconnect hcurrent
      rw [hnames, hconnect, hcurrent]
      rfl

/-- **The names of a response** are those in force after its task. -/
theorem outputs_metadata (s : Session E H) (inputs : List (AudioTask H × ℕ)) (i : ℕ)
    (hi : i < (outputs (serve V) s inputs).length) :
    (outputs (serve V) s inputs)[i].metadata
      = s.metadata.last ((inputs.take (i + 1)).map fun input => input.1.metadata) := by
  have hi' : i < inputs.length := length_outputs (serve V) s inputs ▸ hi
  have hlast : (final (serve V) s (inputs.take (i + 1))).metadata
      = (serve V (final (serve V) s (inputs.take i)) inputs[i]).2.metadata := by
    rw [← List.take_concat_get' inputs i hi', final_append]
    rfl
  have hnames := processAudio_metadata (V := V)
    ((final (serve V) s (inputs.take i)).updateMetadata inputs[i].1) inputs[i].1.data inputs[i].2
  calc (outputs (serve V) s inputs)[i].metadata
      = (serve V (final (serve V) s (inputs.take i)) inputs[i]).1.metadata := by
        rw [getElem_outputs]
        rfl
    _ = (final (serve V) s (inputs.take (i + 1))).metadata := by
        rw [hlast]
        exact hnames.1.trans hnames.2.symm
    _ = s.metadata.last ((inputs.take (i + 1)).map fun input => input.1.metadata) :=
        final_metadata s _

end Session

end VadService
