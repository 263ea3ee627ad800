import VadService.Iterator.Run

set_option autoImplicit false

/-! # VAD engines

The engine interface of `vad_engine.h` and its Silero implementation, which regroups the
packets of a stream into the windows of its `VadIterator` and reports one state for each
packet.
-/

namespace VadService

/-- `VadState` -/
inductive VadState where
  | silence
  | startSpeaking
  | speaking
  | endSpeaking
  deriving DecidableEq

/-- `VadResult` -/
structure VadResult where
  state : VadState
  probability : F32
  timestamp : String

/-- `IVadEngine` -/
structure IVadEngine (E : Type) where
  processFrame : E → List F32 → VadResult × E
  reset : E → E

/-- `SileroVadEngine`. Its window size is the one of its iterator, and positive: with an
empty window the loop of `process_frame` would not end. -/
structure SileroVadEngine (σ : Type) where
  vadIterator : VadIterator σ
  buffer : List F32
  windowSizeSamples : ℕ
  windowSize_eq : vadIterator.cfg.windowSizeSamples = windowSizeSamples
  windowSize_pos : 0 < windowSizeSamples

namespace SileroVadEngine

variable {σ : Type} (run : OrtRun σ)

/-- The default parameters of the constructor make a window. -/
theorem windowSize_default : 0 < (32 : ℤ) * (16000 : ℤ).tdiv 1000 := by decide

/-- The constructor, for a positive window size. -/
def new (session : σ) (sampleRate windowFrameMs : ℤ)
    (h : 0 < windowFrameMs * sampleRate.tdiv 1000) : SileroVadEngine σ where
  vadIterator := VadIterator.new (VadConfig.new sampleRate windowFrameMs) session
  buffer := []
  windowSizeSamples := (windowFrameMs * sampleRate.tdiv 1000).toNat
  windowSize_eq := (Int.toNat_of_nonneg h.le).symm
  windowSize_pos := by omega

/-- The variables of `process_frame`, and `handed`, the windows it has passed to `predict`. -/
structure FrameLoop (σ : Type) where
  engine : SileroVadEngine σ
  result : VadResult
  wasTriggered : Bool
  isTriggered : Bool
  handed : List (List F32)

/-- The state after a window, by the trigger before and after it. -/
def edgeState (state : VadState) (wasTriggered isTriggered : Bool) : VadState :=
  if !wasTriggered && isTriggered then .startSpeaking
  else if wasTriggered && !isTriggered then .endSpeaking
  else if isTriggered then .speaking
  else state

/-- One round of the loop of `process_frame`. -/
def frameRound (s : FrameLoop σ) : FrameLoop σ :=
  let chunk := s.engine.buffer.take s.engine.windowSizeSamples
  let buffer := s.engine.buffer.drop s.engine.windowSizeSamples
  let vadIterator := s.engine.vadIterator.predict run chunk
  let isTriggered := vadIterator.isTriggered
  { engine :=
      { s.engine with
        vadIterator := vadIterator
        buffer := buffer
        windowSize_eq := s.engine.windowSize_eq }
    result :=
      { s.result with
        probability := vadIterator.getLastProbability
        state := edgeState s.result.state s.wasTriggered isTriggered }
    wasTriggered := isTriggered
    isTriggered := isTriggered
    handed := s.handed ++ [chunk] }

/-- The loop of `process_frame`. Each round takes a nonempty window off the buffer, so as
many rounds as the buffer has samples are enough. -/
def frameLoop : ℕ → FrameLoop σ → FrameLoop σ
  | 0, s => s
  | fuel + 1, s =>
      if s.engine.windowSizeSamples ≤ s.engine.buffer.length then frameLoop fuel (frameRound run s)
      else s

/-- `process_frame` up to the end of its loop. -/
def runFrame (e : SileroVadEngine σ) (audioFrame : List F32) : FrameLoop σ :=
  let result : VadResult :=
    { state := .silence, probability := e.vadIterator.getLastProbability, timestamp := "" }
  let buffer := e.buffer ++ audioFrame
  let wasTriggered := e.vadIterator.isTriggered
  frameLoop run buffer.length
    { engine := { e with buffer := buffer }
      result := result
      wasTriggered := wasTriggered
      isTriggered := wasTriggered
      handed := [] }

/-- `process_frame` -/
def processFrame (e : SileroVadEngine σ) (audioFrame : List F32) : VadResult × SileroVadEngine σ :=
  let s := runFrame run e audioFrame
  -- no window was completed, or the flag did not change
  let result :=
    if s.result.state = .silence ∧ s.isTriggered = true then { s.result with state := .speaking }
    else s.result
  let stamps := s.engine.vadIterator.getSpeechTimestamps
  let result :=
    match stamps.getLast? with
    | some stamp => { result with timestamp := stamp.cStr }
    | none => result
  (result, s.engine)

/-- `reset` -/
def reset (e : SileroVadEngine σ) : SileroVadEngine σ :=
  { e with
    vadIterator := e.vadIterator.reset
    buffer := []
    windowSize_eq := e.windowSize_eq }

/-- The Silero engine with the model `run`. -/
def engine : IVadEngine (SileroVadEngine σ) where
  processFrame := processFrame run
  reset := reset

end SileroVadEngine

end VadService
