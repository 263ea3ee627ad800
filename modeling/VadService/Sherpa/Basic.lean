import VadService.Engine.Basic

set_option autoImplicit false

/-! # `SherpaVadDetector`

The second engine, of `sherpa_vad_detector.h` and `sherpa_vad_detector.cpp`. It cuts the
stream into frames of 20 ms, asks its `VadIterator` for the probability of each, and runs a
state machine with two counters of milliseconds over the frames that are active. The state
machine (`Phase`) was written after the Go detector, and is shared with its model.
-/

namespace VadService

/-! ## The state machine -/

/-- `GoState` -/
inductive GoState where
  | inactivity
  | inactivityTransition
  | activity
  deriving DecidableEq

/-- The members of a detector that its state machine is made of. The durations are in
milliseconds. -/
structure Phase where
  state : GoState
  recognitionDuration : F32
  silenceDuration : F32

namespace Phase

/-- `frame_duration_ms_`, and `FrameDuration20` -/
def frameDuration : F32 := F32.ofInt 20

/-- `vad_voice_begin_duration_ms_`, and `VadVoiceBeginDurationMilliseconds` -/
def voiceBeginDuration : F32 := F32.ofInt 250

/-- `vad_voice_stop_duration_ms_`, and `VADVoiceStopDurationMilliseconds` -/
def voiceStopDuration : F32 := F32.ofInt 600

/-- `set_state`, and `setState` -/
def setState (state : GoState) : Phase where
  state := state
  recognitionDuration := F32.zero
  silenceDuration := F32.zero

/-- The counters in a frame of `Inactivity`. An inactive frame takes `decay` off the
recognised duration. -/
def recognise (decay : F32) (frameActive : Bool) (p : Phase) : Phase :=
  if frameActive then
    { p with recognitionDuration := p.recognitionDuration.add frameDuration }
  else
    let p :=
      if frameDuration.le p.recognitionDuration then
        { p with recognitionDuration := p.recognitionDuration.sub decay }
      else p
    { p with silenceDuration := p.silenceDuration.add frameDuration }

/-- The counter in the frame that begins an utterance. -/
def begin (frameActive : Bool) : Phase :=
  let p := setState .activity
  if !frameActive then { p with silenceDuration := p.silenceDuration.add frameDuration } else p

/-- The counter in a frame of `Activity`. -/
def listen (frameActive : Bool) (p : Phase) : Phase :=
  let p :=
    if frameActive then { p with silenceDuration := p.silenceDuration.sub frameDuration }
    else { p with silenceDuration := p.silenceDuration.add frameDuration }
  if p.silenceDuration.lt F32.zero then { p with silenceDuration := F32.zero } else p

end Phase

/-! ## The detector -/

/-- `SherpaVadDetector`. Its frames are not empty: the program divides by their size. -/
structure SherpaVadDetector (σ : Type) extends Phase where
  vad : VadIterator σ
  frameSizeSamples : ℕ
  fixedBufferCapacity : ℕ
  frameIndex : ℤ
  marginBuffer : List F32
  fixedBuffer : List F32
  frameSize_pos : 0 < frameSizeSamples

namespace SherpaVadDetector

variable {σ : Type}

/-- `max_silence_duration_ms_` -/
def maxSilenceDuration : F32 := F32.ofInt 15000

/-- `FrameDuration10`, as `process_internal` has it. -/
def frameDuration10 : F32 := F32.ofInt 10

/-- The threshold of `process_internal`, `0.5f`. -/
def frameThreshold : F32 := binary32.round (1 / 2)

/-- `reset` -/
def reset (d : SherpaVadDetector σ) : SherpaVadDetector σ :=
  { d with
    toPhase := Phase.setState .inactivity
    vad := d.vad.reset
    frameIndex := 0
    marginBuffer := []
    fixedBuffer := [] }

/-- The constructor, for a positive frame size. -/
def new (session : σ) (threshold : F32) (sampleRate : ℤ)
    (h : 0 < (sampleRate * 20).tdiv 1000) : SherpaVadDetector σ :=
  reset
    { toPhase := Phase.setState .inactivity
      vad := VadIterator.new (VadConfig.new sampleRate 20 threshold) session
      frameSizeSamples := ((sampleRate * 20).tdiv 1000).toNat
      fixedBufferCapacity := ((sampleRate * 20).tdiv 1000 * 5 * 10).toNat
      frameIndex := 0
      marginBuffer := []
      fixedBuffer := []
      frameSize_pos := by omega }

/-- The default sample rate makes a frame. -/
theorem frameSize_default : 0 < ((16000 : ℤ) * 20).tdiv 1000 := by decide

/-- The result of an event: its state, with the probability of the last frame. -/
def emit (d : SherpaVadDetector σ) (state : VadState) : VadResult where
  state := state
  probability := d.vad.getLastProbability
  timestamp := ""

/-- `emit_voice_begin` -/
def emitVoiceBegin (d : SherpaVadDetector σ) : VadResult := d.emit .startSpeaking

/-- `emit_voice_ongoing` -/
def emitVoiceOngoing (d : SherpaVadDetector σ) : VadResult := d.emit .speaking

/-- `emit_voice_end` -/
def emitVoiceEnd (d : SherpaVadDetector σ) : VadResult := d.emit .endSpeaking

/-- `emit_voice_silent` -/
def emitVoiceSilent (d : SherpaVadDetector σ) : VadResult := d.emit .silence

/-- `fixed_buffer_` with a frame appended, cut to its capacity from the front. -/
def appendFixed (d : SherpaVadDetector σ) (frame : List F32) : SherpaVadDetector σ :=
  let fixedBuffer := d.fixedBuffer ++ frame
  { d with fixedBuffer := fixedBuffer.drop (fixedBuffer.length - d.fixedBufferCapacity) }

/-- The case `Inactivity` of `process_internal`. -/
def inInactivity (frameActive : Bool) (d : SherpaVadDetector σ) : VadResult × SherpaVadDetector σ :=
  let d := { d with toPhase := d.toPhase.recognise frameDuration10 frameActive }
  if Phase.voiceBeginDuration.le d.recognitionDuration then
    -- the next frame begins the utterance, this one is still silent
    (d.emit .silence, { d with toPhase := Phase.setState .inactivityTransition })
  else if maxSilenceDuration.le d.silenceDuration then (d.emitVoiceSilent, d)
  else (d.emit .silence, d)

/-- The case `InactivityTransition` of `process_internal`. -/
def inTransition (frameActive : Bool) (d : SherpaVadDetector σ) : VadResult × SherpaVadDetector σ :=
  let d := { d with toPhase := Phase.begin frameActive }
  (d.emitVoiceBegin, d)

/-- The case `Activity` of `process_internal`. -/
def inActivity (frameActive : Bool) (d : SherpaVadDetector σ) : VadResult × SherpaVadDetector σ :=
  let d := { d with toPhase := d.toPhase.listen frameActive }
  if Phase.voiceStopDuration.le d.silenceDuration then
    let d := { d with toPhase := Phase.setState .inactivity }
    (d.emitVoiceEnd, d)
  else (d.emitVoiceOngoing, d)

variable (run : OrtRun σ)

/-- `frame_active`, of the frame that has just been predicted. -/
def frameActive (d : SherpaVadDetector σ) : Bool := frameThreshold.le d.vad.getLastProbability

/-- `process_internal` -/
def processInternal (d : SherpaVadDetector σ) (frame : List F32) :
    VadResult × SherpaVadDetector σ :=
  let d := { d with vad := d.vad.predict run frame }
  let frameActive := d.frameActive
  let d := { d with frameIndex := d.frameIndex + 1 }
  match d.state with
  | .inactivity => (d.appendFixed frame).inInactivity frameActive
  | .inactivityTransition => (d.appendFixed frame).inTransition frameActive
  | .activity => d.inActivity frameActive

/-- The loop of `process_frame`, with `last_result` and `triggered_any`. -/
def blockLoop : ℕ → SherpaVadDetector σ → VadResult → Bool → VadResult × SherpaVadDetector σ
  | 0, d, lastResult, _ => (lastResult, d)
  | blocks + 1, d, lastResult, triggeredAny =>
      let frame := d.marginBuffer.take d.frameSizeSamples
      let d := { d with marginBuffer := d.marginBuffer.drop d.frameSizeSamples }
      let (res, d) := d.processInternal run frame
      if res.state ≠ .silence ∧ res.state ≠ .speaking then blockLoop blocks d res true
      else if res.state = .speaking ∧ triggeredAny = false then blockLoop blocks d res triggeredAny
      else blockLoop blocks d lastResult triggeredAny

/-- `blocks` of `process_frame`, an `int`. -/
def blocks (d : SherpaVadDetector σ) (audioFrame : List F32) : ℤ :=
  WordArith.bits32.toSigned
    ((d.marginBuffer.length + audioFrame.length) / d.frameSizeSamples : ℕ)

/-- `process_frame` -/
def processFrame (d : SherpaVadDetector σ) (audioFrame : List F32) :
    VadResult × SherpaVadDetector σ :=
  let blocks := d.blocks audioFrame
  let d := { d with marginBuffer := d.marginBuffer ++ audioFrame }
  if blocks ≤ 0 then (d.emit .silence, d)
  else
    blockLoop run blocks.toNat d { state := .silence, probability := F32.zero, timestamp := "" }
      false

/-- The detector with the model `run`, as an engine. -/
def engine : IVadEngine (SherpaVadDetector σ) where
  processFrame := processFrame run
  reset := reset

end SherpaVadDetector

end VadService
