import VadService.Engine.Basic
import VadService.Base64.Basic

set_option autoImplicit false

/-! # Sessions

`Session` of `session.cpp`: the bytes of a packet become samples, the engine reports a
state, and the session answers with a message and buffers the bytes of the segment. The
engine is any implementation of `IVadEngine`; the handle of the connection is of a type `H`.
-/

namespace VadService

/-- The JSON message of `build_vad_response`. -/
structure VadResponse where
  uid : String
  connectSession : String
  currentSession : String
  newSession : Option String
  vadState : String
  vadAudio : String
  deriving DecidableEq

/-- `Session` -/
structure Session (E H : Type) where
  id : String
  connectSession : String
  currentSession : String
  newSession : String
  hdl : H
  vadEngine : E
  lastState : VadState
  audioBuffer : List UInt8

/-- A wrap of `n` to `int16_t`. -/
def toInt16 (n : ℤ) : ℤ := (n + 2 ^ 15) % 2 ^ 16 - 2 ^ 15

/-- The sample of two bytes: `static_cast<int16_t>(lo | (hi << 8)) / 32768.0f` -/
def sampleOf (lo hi : UInt8) : F32 :=
  (F32.ofInt (toInt16 (lo.toNat ||| hi.toNat <<< 8 : ℕ))).divRat 32768

/-- The samples of a packet; the last byte of an odd packet is left out. -/
def toFloatAudio : List UInt8 → List F32
  | lo :: hi :: rawData => sampleOf lo hi :: toFloatAudio rawData
  | _ => []

theorem length_toFloatAudio (rawData : List UInt8) :
    (toFloatAudio rawData).length = rawData.length / 2 := by
  induction rawData using toFloatAudio.induct with
  | case1 lo hi rawData ih =>
      rw [toFloatAudio, List.length_cons, ih, List.length_cons, List.length_cons]
      omega
  | case2 rawData h =>
      rcases rawData with _ | ⟨lo, _ | ⟨hi, rawData⟩⟩
      · rfl
      · simp [toFloatAudio]
      · exact absurd rfl (h lo hi rawData)

/-- The `vad_state` of a state. -/
def VadState.label : VadState → String
  | .silence => "SILENCE"
  | .startSpeaking => "VAD_BEGIN"
  | .speaking => "SPEAKING"
  | .endSpeaking => "VAD_END"

theorem VadState.label_injective : Function.Injective VadState.label := by
  intro state state' h
  cases state <;> cases state' <;> first | rfl | exact absurd h (by decide)

/-- What the session remembers of a state. -/
def VadState.remembered : VadState → VadState
  | .startSpeaking => .speaking
  | .speaking => .speaking
  | .endSpeaking => .silence
  | .silence => .silence

namespace Session

variable {E H : Type}

/-- The members the constructor sets, around an engine. -/
def new (id : String) (hdl : H) (vadEngine : E) : Session E H where
  id := id
  connectSession := ""
  currentSession := ""
  newSession := ""
  hdl := hdl
  vadEngine := vadEngine
  lastState := .silence
  audioBuffer := []

/-- The constructor: a Silero engine with its default parameters. -/
def silero {σ : Type} (id : String) (hdl : H) (session : σ) : Session (SileroVadEngine σ) H :=
  new id hdl (SileroVadEngine.new session 16000 32 SileroVadEngine.windowSize_default)

/-- `get_id` -/
def getId (s : Session E H) : String := s.id

/-- `set_id` -/
def setId (s : Session E H) (id : String) : Session E H := { s with id := id }

/-- `set_connect_session` -/
def setConnectSession (s : Session E H) (v : String) : Session E H := { s with connectSession := v }

/-- `set_current_session` -/
def setCurrentSession (s : Session E H) (v : String) : Session E H := { s with currentSession := v }

/-- `get_hdl` -/
def getHdl (s : Session E H) : H := s.hdl

/-- `build_vad_response` -/
def buildVadResponse (s : Session E H) (vadState audioB64 newSession : String) : VadResponse where
  uid := s.id
  connectSession := s.connectSession
  currentSession := s.currentSession
  newSession := if newSession = "" then none else some newSession
  vadState := vadState
  vadAudio := audioB64

/-- `build_begin_response` -/
def buildBeginResponse (s : Session E H) (audioB64 : String) : VadResponse :=
  s.buildVadResponse "VAD_BEGIN" audioB64 s.newSession

/-- `build_end_response` -/
def buildEndResponse (s : Session E H) (audioB64 : String) : VadResponse :=
  s.buildVadResponse "VAD_END" audioB64 ""

/-- `build_speaking_response` -/
def buildSpeakingResponse (s : Session E H) (audioB64 : String) : VadResponse :=
  s.buildVadResponse "SPEAKING" audioB64 ""

/-- `build_silence_response` -/
def buildSilenceResponse (s : Session E H) : VadResponse := s.buildVadResponse "SILENCE" "" ""

/-- `base64::encode(v.data(), v.size())`, whose length argument is an `unsigned int`. -/
def encodeAll (v : List UInt8) : String := Base64.encode v (v.length % 2 ^ 32)

/-- The state a packet is answered with: a segment the engine did not report the start of
starts now. -/
def currentState (s : Session E H) (state : VadState) : VadState :=
  if state = .speaking ∧ s.lastState = .silence then .startSpeaking else state

/-- The answer to a packet, by its state. `now` is the clock in microseconds. -/
def respond (s : Session E H) (rawData : List UInt8) (now : ℕ) :
    VadState → VadResponse × Session E H
  | .startSpeaking =>
      let s := { s with audioBuffer := rawData, newSession := toString now }
      (s.buildBeginResponse (encodeAll rawData), { s with lastState := .speaking })
  | .speaking =>
      let s := { s with audioBuffer := s.audioBuffer ++ rawData }
      (s.buildSpeakingResponse (encodeAll rawData), { s with lastState := .speaking })
  | .endSpeaking =>
      let s := { s with audioBuffer := s.audioBuffer ++ rawData }
      (s.buildEndResponse (encodeAll s.audioBuffer),
        { s with audioBuffer := [], lastState := .silence })
  | .silence =>
      -- a segment the engine has dropped without an end is forgotten
      let s := { s with audioBuffer := [] }
      (s.buildSilenceResponse, { s with lastState := .silence })

/-- `process_audio` -/
def processAudio (V : IVadEngine E) (s : Session E H) (rawData : List UInt8) (now : ℕ) :
    VadResponse × Session E H :=
  let floatAudio := toFloatAudio rawData
  let (res, vadEngine) := V.processFrame s.vadEngine floatAudio
  let s := { s with vadEngine := vadEngine }
  s.respond rawData now (s.currentState res.state)

/-- `process_audio` as a step, on a packet and the clock. -/
def audioStep (V : IVadEngine E) (s : Session E H) (packet : List UInt8 × ℕ) :
    VadResponse × Session E H :=
  s.processAudio V packet.1 packet.2

/-! ## One packet -/

theorem respond_vadState (s : Session E H) (rawData : List UInt8) (now : ℕ) (state : VadState) :
    (s.respond rawData now state).1.vadState = state.label := by
  cases state <;> rfl

theorem respond_lastState (s : Session E H) (rawData : List UInt8) (now : ℕ) (state : VadState) :
    (s.respond rawData now state).2.lastState = state.remembered := by
  cases state <;> rfl

theorem respond_vadEngine (s : Session E H) (rawData : List UInt8) (now : ℕ) (state : VadState) :
    (s.respond rawData now state).2.vadEngine = s.vadEngine := by
  cases state <;> rfl

theorem respond_audioBuffer (s : Session E H) (rawData : List UInt8) (now : ℕ)
    (state : VadState) : (s.respond rawData now state).2.audioBuffer =
      match state with
      | .startSpeaking => rawData
      | .speaking => s.audioBuffer ++ rawData
      | .endSpeaking => []
      | .silence => [] := by
  cases state <;> rfl

/-- The state a packet is answered with. -/
def answered (V : IVadEngine E) (s : Session E H) (rawData : List UInt8) : VadState :=
  s.currentState (V.processFrame s.vadEngine (toFloatAudio rawData)).1.state

theorem processAudio_vadState (V : IVadEngine E) (s : Session E H) (rawData : List UInt8)
    (now : ℕ) : (s.processAudio V rawData now).1.vadState = (s.answered V rawData).label :=
  respond_vadState _ _ _ _

theorem processAudio_lastState (V : IVadEngine E) (s : Session E H) (rawData : List UInt8)
    (now : ℕ) : (s.processAudio V rawData now).2.lastState = (s.answered V rawData).remembered :=
  respond_lastState _ _ _ _

theorem processAudio_vadEngine (V : IVadEngine E) (s : Session E H) (rawData : List UInt8)
    (now : ℕ) : (s.processAudio V rawData now).2.vadEngine
      = (V.processFrame s.vadEngine (toFloatAudio rawData)).2 :=
  respond_vadEngine _ _ _ _

theorem processAudio_audioBuffer (V : IVadEngine E) (s : Session E H) (rawData : List UInt8)
    (now : ℕ) : (s.processAudio V rawData now).2.audioBuffer =
      match s.answered V rawData with
      | .startSpeaking => rawData
      | .speaking => s.audioBuffer ++ rawData
      | .endSpeaking => []
      | .silence => [] :=
  respond_audioBuffer _ _ _ _

/-- A packet reaches the engine, and then gets its answer. -/
theorem processAudio_eq (V : IVadEngine E) (s : Session E H) (rawData : List UInt8) (now : ℕ) :
    s.processAudio V rawData now
      = Session.respond
          { s with vadEngine := (V.processFrame s.vadEngine (toFloatAudio rawData)).2 }
          rawData now (s.answered V rawData) := rfl

theorem audioStep_vadState (V : IVadEngine E) (s : Session E H) (packet : List UInt8 × ℕ) :
    (audioStep V s packet).1.vadState = (s.answered V packet.1).label :=
  processAudio_vadState V s packet.1 packet.2

theorem audioStep_vadEngine (V : IVadEngine E) (s : Session E H) (packet : List UInt8 × ℕ) :
    (audioStep V s packet).2.vadEngine
      = (V.processFrame s.vadEngine (toFloatAudio packet.1)).2 :=
  processAudio_vadEngine V s packet.1 packet.2

theorem audioStep_audioBuffer (V : IVadEngine E) (s : Session E H) (packet : List UInt8 × ℕ) :
    (audioStep V s packet).2.audioBuffer =
      match s.answered V packet.1 with
      | .startSpeaking => packet.1
      | .speaking => s.audioBuffer ++ packet.1
      | .endSpeaking => []
      | .silence => [] :=
  processAudio_audioBuffer V s packet.1 packet.2

end Session

end VadService
