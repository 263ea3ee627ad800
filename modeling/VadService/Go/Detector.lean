import VadService.Sherpa.Basic
import VadService.Session.Basic

set_option autoImplicit false

/-! # The Go detector

`Detector` of `test/vad.go`, the program `SherpaVadDetector` was written after. Its speech
bits come from the voice activity detector of the library sherpa-onnx, which also cuts
segments out of the stream and queues them, and it keeps its context in a buffer of the
package webrtcvad; both are taken as they are (`Sherpa`, `FixedSizeBuffer`).
-/

namespace VadService

namespace Go

/-! ## The libraries -/

/-- `sherpa.VoiceActivityDetector`, without its queue. A waveform may complete segments,
which join the queue. -/
structure Sherpa (τ : Type) where
  acceptWaveform : τ → List F32 → τ × List (List F32)
  isSpeech : τ → Bool
  clear : τ → τ

/-- `webrtcvad.FixedSizeBuffer` -/
structure FixedSizeBuffer (β : Type) where
  new : ℕ → β
  append : β → List UInt8 → β
  getData : β → List UInt8

/-! ## The detector -/

/-- The types of events. -/
inductive EventType where
  | voiceBegin
  | voiceOngoing
  | voiceEnd
  | voiceSilent
  deriving DecidableEq

/-- `Event`, with the data of its clip. -/
structure Event where
  type : EventType
  data : List UInt8

/-- `FrameDuration10` -/
def frameDuration10 : F32 := F32.ofInt 20

/-- `FrameDuration20SizeInBytes` -/
def frameDuration20SizeInBytes : ℕ := 16000 / 1000 * 20 * 16 / 8

/-- `FrameDuration100SizeInBytesInMilliseconds` -/
def frameDuration100SizeInBytes : ℕ := frameDuration20SizeInBytes * 5

/-- `VADVoiceTotalBufferCapacity` -/
def totalBufferCapacity : ℕ := frameDuration100SizeInBytes * 10

/-- `Detector`. The queue is that of the library's detector, first segment first. -/
structure Detector (τ β : Type) extends Phase where
  vad : τ
  queue : List (List F32)
  waitBuff : List UInt8
  fixed : β
  frameIndex : ℤ
  maxSilenceDuration : F32
  isSendSourceAudio : Bool

/-- `byteToFloat32`; the last byte of an odd buffer is left out. -/
def byteToFloat32 : List UInt8 → List F32
  | lo :: hi :: buff =>
      (F32.ofInt (toInt16 (lo.toNat ||| hi.toNat <<< 8 : ℕ))).divRat 32767 :: byteToFloat32 buff
  | _ => []

/-- The duration of a segment in milliseconds, at the sample rate 16000. -/
def segmentDuration (samples : List F32) : F32 :=
  ((F32.ofInt samples.length).divRat 16000).mul (F32.ofInt 1000)

namespace Detector

variable {τ β : Type} (S : Sherpa τ) (B : FixedSizeBuffer β)

/-- `Reset` -/
def reset (d : Detector τ β) : Detector τ β :=
  { d with
    toPhase := Phase.setState .inactivity
    vad := S.clear d.vad
    queue := []
    waitBuff := []
    fixed := B.new totalBufferCapacity
    frameIndex := 0 }

/-- `Initialize`, of a detector that has its library object. -/
def initializeDetector (d : Detector τ β) (maxSilenceDuration : ℤ) : Detector τ β :=
  reset S B { d with maxSilenceDuration := F32.ofInt maxSilenceDuration }

/-- An event with what is waiting to be sent. -/
def send (d : Detector τ β) (type : EventType) : Event × Detector τ β :=
  ({ type := type, data := d.waitBuff }, { d with waitBuff := [] })

/-- `emitVoiceBegin` -/
def emitVoiceBegin (d : Detector τ β) : Event × Detector τ β := d.send .voiceBegin

/-- `emitVoiceOnGoing` -/
def emitVoiceOnGoing (d : Detector τ β) : Event × Detector τ β := d.send .voiceOngoing

/-- `emitVoiceEnd` -/
def emitVoiceEnd (d : Detector τ β) : Event × Detector τ β := d.send .voiceEnd

/-- `emitVoiceSilent` -/
def emitVoiceSilent : Event := { type := .voiceSilent, data := [] }

/-- What a frame answers and sends. -/
structure Outcome where
  result : Bool
  events : List Event

/-- The loop over the queue; it answers if one of the segments ends the frame. -/
def segmentLoop : List (List F32) → Detector τ β → Option Outcome × Detector τ β
  | [], d => (none, d)
  | samples :: queue, d =>
      let d := { d with queue := queue, recognitionDuration := segmentDuration samples }
      if Phase.voiceBeginDuration.le d.recognitionDuration then
        match d.state with
        | .inactivity =>
            (some { result := false, events := [] },
              { d with toPhase := Phase.setState .inactivityTransition })
        | .activity =>
            let d := { d with toPhase := Phase.setState .inactivity }
            let (event, d) := d.emitVoiceEnd
            (some { result := true, events := [event] }, d)
        | .inactivityTransition => segmentLoop queue d
      else segmentLoop queue d

/-- The case `StateInactivity` of `processFrame`. -/
def inInactivity (frameActive : Bool) (sourceBuff : List UInt8) (d : Detector τ β) :
    Outcome × Detector τ β :=
  let d := { d with
    fixed := B.append d.fixed sourceBuff
    toPhase := d.toPhase.recognise frameDuration10 frameActive }
  if Phase.voiceBeginDuration.le d.recognitionDuration then
    ({ result := false, events := [] },
      { d with toPhase := Phase.setState .inactivityTransition })
  else if d.maxSilenceDuration.le d.silenceDuration then
    ({ result := true, events := [emitVoiceSilent] }, d)
  else ({ result := false, events := [] }, d)

/-- The case `StateInactivityTransition` of `processFrame`. -/
def inTransition (frameActive : Bool) (sourceBuff : List UInt8) (d : Detector τ β) :
    Outcome × Detector τ β :=
  let d := { d with fixed := B.append d.fixed sourceBuff }
  let d := { d with waitBuff := d.waitBuff ++ B.getData d.fixed }
  let (event, d) := d.emitVoiceBegin
  ({ result := false, events := [event] }, { d with toPhase := Phase.begin frameActive })

/-- The case `StateActivity` of `processFrame`. -/
def inActivity (frameActive : Bool) (sourceBuff : List UInt8) (d : Detector τ β) :
    Outcome × Detector τ β :=
  let d := { d with
    waitBuff := d.waitBuff ++ sourceBuff
    toPhase := d.toPhase.listen frameActive }
  if Phase.voiceStopDuration.le d.silenceDuration then
    let d := { d with toPhase := Phase.setState .inactivity }
    let (event, d) := d.emitVoiceEnd
    ({ result := true, events := [event] }, d)
  else if frameDuration100SizeInBytes ≤ d.waitBuff.length then
    let (event, d) := d.emitVoiceOnGoing
    ({ result := false, events := [event] }, d)
  else ({ result := false, events := [] }, d)

/-- `processFrame` -/
def processFrame (d : Detector τ β) (buff sourceBuff : List UInt8) : Outcome × Detector τ β :=
  let (vad, segments) := S.acceptWaveform d.vad (byteToFloat32 buff)
  let frameActive := S.isSpeech vad
  let sourceBuff := if !d.isSendSourceAudio then buff else sourceBuff
  let d := { d with
    vad := vad
    queue := d.queue ++ segments
    frameIndex := d.frameIndex + 1 }
  match segmentLoop d.queue d with
  | (some outcome, d) => (outcome, d)
  | (none, d) =>
      match d.state with
      | .inactivity => inInactivity B frameActive sourceBuff d
      | .inactivityTransition => inTransition B frameActive sourceBuff d
      | .activity => inActivity frameActive sourceBuff d

/-- `ForceEnd` -/
def forceEnd (d : Detector τ β) : List Event × Detector τ β :=
  if d.state = .inactivity then ([], d)
  else
    let d := { d with toPhase := Phase.setState .inactivity }
    let (event, d) := d.emitVoiceEnd
    ([event], d)

end Detector

end Go

end VadService
