import VadService.Basic
import VadService.Lib.WordArith

set_option autoImplicit false

/-! # `VadIterator`

The detector of `vad_iterator.h` and `vad_iterator.cpp`. One call of `predict` runs the
model on the context and one window, and hands the probability to the trigger logic
(`Trigger.step`), which keeps the segment bookkeeping. `process` runs a whole recording.

The ONNX runtime is a parameter: `run` maps the input tensors (window with context,
recurrent state, sample rate) and the internal state of the session, of type `σ`, to the
output tensors. A deterministic model is one with `σ = Unit`; every sequence of
probabilities is the sequence some `run` returns.
-/

namespace VadService

/-! ## Segments -/

/-- `timestamp_t` -/
structure Timestamp where
  start : ℤ := -1
  end_ : ℤ := -1
  deriving DecidableEq

/-- `%08d` -/
def format08d (n : ℤ) : String :=
  let digits := toString n.natAbs
  if n < 0 then "-" ++ String.ofList (List.replicate (7 - digits.length) '0') ++ digits
  else String.ofList (List.replicate (8 - digits.length) '0') ++ digits

/-- `timestamp_t::c_str` -/
def Timestamp.cStr (t : Timestamp) : String :=
  "\x7bstart:" ++ format08d t.start ++ ", end:" ++ format08d t.end_ ++ "\x7d"

/-! ## Configuration -/

/-- The members of `VadIterator` that only the constructor writes. -/
structure VadConfig where
  sampleRate : ℤ
  srPerMs : ℤ
  windowSizeSamples : ℤ
  effectiveWindowSize : ℤ
  threshold : F32
  speechPadSamples : ℤ
  minSpeechSamples : ℤ
  maxSpeechSamples : F32
  minSilenceSamples : ℤ
  minSilenceSamplesAtMaxSpeech : ℤ

/-- `context_samples` -/
def contextSamples : ℕ := 64

/-- `size_state` -/
def sizeState : ℕ := 2 * 1 * 128

/-- The configuration part of the constructor. Its arguments default as in the header. -/
def VadConfig.new (sampleRate : ℤ := 16000) (windowsFrameSize : ℤ := 32)
    (threshold : F32 := binary32.round (1 / 2)) (minSilenceDurationMs : ℤ := 100)
    (speechPadMs : ℤ := 30) (minSpeechDurationMs : ℤ := 250)
    (maxSpeechDurationS : F32 := F32.infinity) : VadConfig :=
  let srPerMs := sampleRate.tdiv 1000
  let windowSizeSamples := windowsFrameSize * srPerMs
  { sampleRate, srPerMs, windowSizeSamples, threshold
    effectiveWindowSize := windowSizeSamples + contextSamples
    speechPadSamples := speechPadMs
    minSpeechSamples := srPerMs * minSpeechDurationMs
    maxSpeechSamples :=
      (((F32.ofInt sampleRate).mul maxSpeechDurationS).sub (F32.ofInt windowSizeSamples)).sub
        (F32.ofInt (2 * speechPadMs))
    minSilenceSamples := srPerMs * minSilenceDurationMs
    minSilenceSamplesAtMaxSpeech := srPerMs * 98 }

/-! ## The trigger logic -/

/-- The members of `VadIterator` that `reset_states` initialises and the trigger logic
maintains. Positions are counted in samples since the last reset. -/
structure Trigger where
  triggered : Bool := false
  tempEnd : ℤ := 0
  currentSample : ℤ := 0
  prevEnd : ℤ := 0
  nextStart : ℤ := 0
  speeches : List Timestamp := []
  currentSpeech : Timestamp := {}
  deriving DecidableEq

namespace VadConfig

variable (c : VadConfig)

/-- `speech_prob >= threshold` -/
def isHigh (prob : F32) : Bool := c.threshold.le prob

/-- `speech_prob < (threshold - 0.15)` -/
def isLow (prob : F32) : Bool := prob.toF64.lt (c.threshold.toF64.sub d015)

/-- `(speech_prob >= (threshold - 0.15)) && (speech_prob < threshold)` -/
def isMiddle (prob : F32) : Bool :=
  (c.threshold.toF64.sub d015).le prob.toF64 && prob.lt c.threshold

end VadConfig

namespace Trigger

variable (a : WordArith) (c : VadConfig)

/-- `(current_sample - current_speech.start) > max_speech_samples` -/
def overMax (t : Trigger) : Bool :=
  c.maxSpeechSamples.lt
    (F32.ofInt (a.toUnsigned (t.currentSample - a.toUnsigned t.currentSpeech.start)))

/-- A window at or above the threshold. -/
def stepHigh (t : Trigger) : Trigger :=
  let windowStart := a.toSigned (a.toUnsigned (t.currentSample - a.toUnsigned c.windowSizeSamples))
  let t :=
    if t.tempEnd ≠ 0 then
      { t with
        tempEnd := 0
        nextStart := if t.nextStart < t.prevEnd then windowStart else t.nextStart }
    else t
  if t.triggered then t
  else
    { t with
      triggered := true
      currentSpeech := { t.currentSpeech with start := windowStart } }

/-- A segment that exceeds the maximal length: split at `prev_end`, or cut here. -/
def stepOverMax (t : Trigger) : Trigger :=
  if 0 < t.prevEnd then
    -- the next segment is open at once if speech has come back since `prev_end`
    { t with
      speeches := t.speeches ++ [{ t.currentSpeech with end_ := t.prevEnd }]
      triggered := if t.nextStart < t.prevEnd then false else t.triggered
      currentSpeech := if t.nextStart < t.prevEnd then {} else { start := t.nextStart }
      prevEnd := 0, nextStart := 0, tempEnd := 0 }
  else
    { t with
      speeches := t.speeches ++ [{ t.currentSpeech with end_ := a.toSigned t.currentSample }]
      currentSpeech := {}
      prevEnd := 0, nextStart := 0, tempEnd := 0, triggered := false }

/-- A window below `threshold - 0.15`. -/
def stepLow (t : Trigger) : Trigger :=
  if t.triggered then
    let tempEnd := if t.tempEnd = 0 then t.currentSample else t.tempEnd
    let silence := a.toUnsigned (t.currentSample - tempEnd)
    let prevEnd :=
      if silence > a.toUnsigned c.minSilenceSamplesAtMaxSpeech then a.toSigned tempEnd
      else t.prevEnd
    if silence ≥ a.toUnsigned c.minSilenceSamples then
      let currentSpeech := { t.currentSpeech with end_ := a.toSigned tempEnd }
      if a.toSigned (currentSpeech.end_ - currentSpeech.start) > c.minSpeechSamples then
        { t with
          speeches := t.speeches ++ [currentSpeech]
          currentSpeech := {}
          prevEnd := 0, nextStart := 0, tempEnd := 0, triggered := false }
      -- too short to be recorded: only `end` is set, and the segment stays open
      else { t with tempEnd, prevEnd, currentSpeech }
    else { t with tempEnd, prevEnd }
  else t

/-- The part of `predict` after the model has been run: advance the sample counter, then
decide on the probability. The flag says whether the exit taken copies the context, which
every exit but the fall-through does; only a NaN falls through. -/
def step (t : Trigger) (prob : F32) : Bool × Trigger :=
  let t :=
    { t with currentSample := a.toUnsigned (t.currentSample + a.toUnsigned c.windowSizeSamples) }
  if c.isHigh prob then (true, t.stepHigh a c)
  else if t.triggered && t.overMax a c then (true, t.stepOverMax a)
  else if c.isMiddle prob then (true, t)
  else if c.isLow prob then (true, t.stepLow a c)
  else (false, t)

end Trigger

/-! ## The iterator -/

/-- The recurrent state tensor. -/
abbrev OrtState := Vector F32 sizeState

/-- `session->Run`: from the input window, the recurrent state, the sample rate and the
session's own state to the probability and the next recurrent state. -/
abbrev OrtRun (σ : Type) := List F32 → OrtState → ℤ → σ → (F32 × OrtState) × σ

/-- `VadIterator` -/
structure VadIterator (σ : Type) extends Trigger where
  cfg : VadConfig
  context : List F32
  state : OrtState
  lastProb : F32
  session : σ

/-- `std::copy(src.begin(), src.end(), dst.begin() + pos)` -/
def copyAt {α : Type} (dst : List α) (pos : ℕ) (src : List α) : List α :=
  dst.take pos ++ src ++ dst.drop (pos + src.length)

namespace VadIterator

variable {σ : Type} (run : OrtRun σ)

/-- The constructor, given its configuration and a freshly loaded model. -/
def new (cfg : VadConfig) (session : σ) : VadIterator σ where
  cfg := cfg
  context := List.replicate contextSamples F32.zero
  state := Vector.replicate sizeState F32.zero
  lastProb := F32.zero
  session := session

/-- `reset_states` -/
def resetStates (it : VadIterator σ) : VadIterator σ :=
  { it with
    toTrigger := {}
    state := Vector.replicate sizeState F32.zero
    context := List.replicate it.context.length F32.zero }

/-- The model input `new_data`: the context followed by the window. -/
def newData (it : VadIterator σ) (dataChunk : List F32) : List F32 :=
  let newData := List.replicate it.cfg.effectiveWindowSize.toNat F32.zero
  copyAt (copyAt newData 0 it.context) contextSamples dataChunk

/-- `predict` -/
def predict (it : VadIterator σ) (dataChunk : List F32) : VadIterator σ :=
  let newData := it.newData dataChunk
  let ((speechProb, stateN), session) := run newData it.state it.cfg.sampleRate it.session
  let (copied, trig) := it.toTrigger.step WordArith.bits32 it.cfg speechProb
  { it with
    toTrigger := trig
    context := if copied then newData.drop (newData.length - contextSamples) else it.context
    state := stateN
    lastProb := speechProb
    session := session }

/-- The loop of `process` from position `j` on, over the first `len` samples. Each round
advances `j` by a positive window size, so `len` rounds are enough. -/
def processLoop (inputWav : List F32) (len : ℕ) : ℕ → ℕ → VadIterator σ → VadIterator σ
  | 0, _, it => it
  | fuel + 1, j, it =>
      let w := it.cfg.windowSizeSamples.toNat
      if j < len then
        if j + w > len then it
        else processLoop inputWav len fuel (j + w) (it.predict run ((inputWav.drop j).take w))
      else it

/-- The end of `process`: a segment that is still open ends with the audio. -/
def closeOpen (it : VadIterator σ) (audioLengthSamples : ℤ) : VadIterator σ :=
  if it.currentSpeech.start ≥ 0 then
    { it with
      speeches := it.speeches ++ [{ it.currentSpeech with end_ := audioLengthSamples }]
      currentSpeech := {}
      prevEnd := 0, nextStart := 0, tempEnd := 0, triggered := false }
  else it

/-- `process` -/
def process (it : VadIterator σ) (inputWav : List F32) : VadIterator σ :=
  let audioLengthSamples := WordArith.bits32.toSigned inputWav.length
  -- a length that wraps to a negative `int` is not modelled: the program reads past the end
  let len := audioLengthSamples.toNat
  (processLoop run inputWav len len 0 it.resetStates).closeOpen audioLengthSamples

/-- `is_triggered` -/
def isTriggered (it : VadIterator σ) : Bool := it.triggered

/-- `get_last_probability` -/
def getLastProbability (it : VadIterator σ) : F32 := it.lastProb

/-- `get_speech_timestamps` -/
def getSpeechTimestamps (it : VadIterator σ) : List Timestamp := it.speeches

/-- `reset` -/
def reset (it : VadIterator σ) : VadIterator σ := it.resetStates

end VadIterator

end VadService
