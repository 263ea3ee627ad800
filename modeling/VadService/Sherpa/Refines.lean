import VadService.Go.Detector
import VadService.Sherpa.Frames
import VadService.Lib.Lockstep

set_option autoImplicit false

/-! # The detector and the one it was written after

Fed with the same speech bits, both detectors make the moves of the same state machine, with
their own decays. What each of them reports is an edge of the state machine, so they agree on
a run exactly when their state machines do (`agree_iff_leavesInSpeech`).
-/

namespace VadService

open Machine

/-! ## One frame of each detector -/

namespace SherpaVadDetector

variable {σ : Type} (run : OrtRun σ)

/-- The bit of a frame: `frame_active` after the prediction. -/
def hears (d : SherpaVadDetector σ) (samples : List F32) : Bool :=
  frameActive { d with vad := d.vad.predict run samples }

/-- **A frame is one step of the state machine**, and its result tells which one. -/
theorem processInternal_next (d : SherpaVadDetector σ) (samples : List F32) :
    (d.processInternal run samples).2.toPhase
        = d.toPhase.next frameDuration10 (d.hears run samples) ∧
      ((d.processInternal run samples).1.state = .startSpeaking ↔
        d.state = .inactivityTransition) ∧
      ((d.processInternal run samples).1.state = .endSpeaking ↔
        d.state = .activity ∧
          (d.toPhase.next frameDuration10 (d.hears run samples)).state = .inactivity) := by
  have hbit : d.hears run samples
      = frameActive { d with vad := d.vad.predict run samples } := rfl
  unfold processInternal
  dsimp only
  rw [← hbit]
  generalize d.hears run samples = active
  cases hd : d.state with
  | inactivity =>
      rw [Phase.next_inactivity hd]
      dsimp only [inInactivity, appendFixed, emitVoiceSilent, emit]
      split_ifs <;> simp
  | inactivityTransition =>
      rw [Phase.next_transition hd]
      simp [inTransition, appendFixed, emitVoiceBegin, emit]
  | activity =>
      rw [Phase.next_activity hd]
      dsimp only [inActivity, emitVoiceEnd, emitVoiceOngoing, emit]
      split_ifs
      · simp [Phase.setState]
      · simp [hd]

end SherpaVadDetector

namespace Go.Detector

variable {τ β : Type} (S : Sherpa τ) (B : FixedSizeBuffer β)

/-- The bit of a frame: `IsSpeech` after the waveform. -/
def hears (g : Detector τ β) (buff : List UInt8) : Bool :=
  S.isSpeech (S.acceptWaveform g.vad (byteToFloat32 buff)).1

/-- The queue a frame finds: what was left in it, and the segments its waveform completes. -/
def queued (g : Detector τ β) (buff : List UInt8) : List (List F32) :=
  g.queue ++ (S.acceptWaveform g.vad (byteToFloat32 buff)).2

/-- The bytes a frame keeps. -/
def source (g : Detector τ β) (buff sourceBuff : List UInt8) : List UInt8 :=
  if !g.isSendSourceAudio then buff else sourceBuff

/-- The detector after the waveform of a frame that leaves its queue empty. -/
def taken (g : Detector τ β) (buff : List UInt8) : Detector τ β :=
  { g with
    vad := (S.acceptWaveform g.vad (byteToFloat32 buff)).1
    queue := []
    frameIndex := g.frameIndex + 1 }

/-- The frame sends an event of the type. -/
def Sends (g : Detector τ β) (buff sourceBuff : List UInt8) (type : EventType) : Prop :=
  ∃ event ∈ (g.processFrame S B buff sourceBuff).1.events, event.type = type

/-- A frame whose queue is empty goes to its case at once. -/
theorem processFrame_of_empty {g : Detector τ β} {buff : List UInt8}
    (hqueue : g.queued S buff = []) (sourceBuff : List UInt8) :
    g.processFrame S B buff sourceBuff =
      match g.state with
      | .inactivity => inInactivity B (g.hears S buff) (g.source buff sourceBuff) (g.taken S buff)
      | .inactivityTransition =>
          inTransition B (g.hears S buff) (g.source buff sourceBuff) (g.taken S buff)
      | .activity => inActivity (g.hears S buff) (g.source buff sourceBuff) (g.taken S buff) := by
  have hq : g.queue ++ (S.acceptWaveform g.vad (byteToFloat32 buff)).2 = [] := hqueue
  unfold processFrame
  dsimp only
  rw [hq]
  dsimp only [segmentLoop]
  cases g.state <;> rfl

/-- **With an empty queue a frame is one step of the state machine**, and its events tell
which one. -/
theorem processFrame_next {g : Detector τ β} {buff : List UInt8} (hqueue : g.queued S buff = [])
    (sourceBuff : List UInt8) :
    (g.processFrame S B buff sourceBuff).2.toPhase
        = g.toPhase.next frameDuration10 (g.hears S buff) ∧
      (g.Sends S B buff sourceBuff .voiceBegin ↔ g.state = .inactivityTransition) ∧
      (g.Sends S B buff sourceBuff .voiceEnd ↔
        g.state = .activity ∧
          (g.toPhase.next frameDuration10 (g.hears S buff)).state = .inactivity) := by
  unfold Sends
  rw [processFrame_of_empty S B hqueue]
  generalize g.hears S buff = active
  cases hg : g.state with
  | inactivity =>
      rw [Phase.next_inactivity hg]
      dsimp only [inInactivity, taken, emitVoiceSilent]
      split_ifs <;> simp
  | inactivityTransition =>
      rw [Phase.next_transition hg]
      simp [inTransition, taken, emitVoiceBegin, send]
  | activity =>
      rw [Phase.next_activity hg]
      dsimp only [inActivity, taken, emitVoiceEnd, emitVoiceOnGoing, send]
      split_ifs
      · simp [Phase.setState]
      · simp [hg]
      · simp [hg]

end Go.Detector

/-! ## Runs of the two detectors -/

/-- One frame of 20 ms as each of the detectors gets it, and whether it is active. -/
structure Frame where
  samples : List F32
  buff : List UInt8
  sourceBuff : List UInt8
  active : Bool

/-- The number of active frames at the end. -/
def speechRun (frames : List Frame) : ℕ :=
  frames.foldl (fun k frame => Phase.countRun k frame.active) 0

namespace SherpaVadDetector

variable {σ τ β : Type} (run : OrtRun σ) (S : Go.Sherpa τ) (B : Go.FixedSizeBuffer β)

/-- The detector takes a frame. -/
def takeFrame (d : SherpaVadDetector σ) (frame : Frame) : VadResult × SherpaVadDetector σ :=
  d.processInternal run frame.samples

/-- The Go detector takes a frame. -/
def goTakeFrame (g : Go.Detector τ β) (frame : Frame) : Go.Detector.Outcome × Go.Detector τ β :=
  g.processFrame S B frame.buff frame.sourceBuff

/-- Both detectors hear the bit of the frame, and the queue of the Go detector is empty. -/
structure Hears (s : SherpaVadDetector σ × Go.Detector τ β) (frame : Frame) : Prop where
  bit : s.1.hears run frame.samples = frame.active
  goBit : s.2.hears S frame.buff = frame.active
  queue : s.2.queued S frame.buff = []

/-- The detectors agree on a frame: on the state after it, and on where an utterance begins and
ends. -/
structure Agree (s : SherpaVadDetector σ × Go.Detector τ β) (frame : Frame) : Prop where
  state : (takeFrame run s.1 frame).2.state = (goTakeFrame S B s.2 frame).2.state
  begins : (takeFrame run s.1 frame).1.state = .startSpeaking ↔
    ∃ event ∈ (goTakeFrame S B s.2 frame).1.events, event.type = .voiceBegin
  ends : (takeFrame run s.1 frame).1.state = .endSpeaking ↔
    ∃ event ∈ (goTakeFrame S B s.2 frame).1.events, event.type = .voiceEnd

/-- If the frame makes the detector leave the silence, it is at least the thirteenth active one
in a row; `k` is the number of those before it. -/
def LeavesInSpeech (d : SherpaVadDetector σ) (k : ℕ) (frame : Frame) : Prop :=
  d.state = .inactivity → frame.active = true →
    Phase.voiceBeginDuration.le (d.recognitionDuration.add Phase.frameDuration) = true → 12 ≤ k

instance (d : SherpaVadDetector σ) (k : ℕ) (frame : Frame) : Decidable (LeavesInSpeech d k frame) :=
  inferInstanceAs (Decidable (_ → _ → _ → _))

/-- One frame, between detectors that are in step. -/
theorem agree_iff {s : SherpaVadDetector σ × Go.Detector τ β} {frame : Frame} {k : ℕ}
    (hstep : Phase.InStep s.1.toPhase s.2.toPhase k) (hears : Hears run S s frame) :
    (Agree run S B s frame ↔ LeavesInSpeech s.1 k frame) ∧
      (Agree run S B s frame →
        Phase.InStep (takeFrame run s.1 frame).2.toPhase (goTakeFrame S B s.2 frame).2.toPhase
          (Phase.countRun k frame.active)) := by
  obtain ⟨hnext, hbegin, hend⟩ := processInternal_next run s.1 frame.samples
  obtain ⟨hgoNext, hgoBegin, hgoEnd⟩ :=
    Go.Detector.processFrame_next S B hears.queue frame.sourceBuff
  rw [hears.bit] at hnext hend
  rw [hears.goBit] at hgoNext hgoEnd
  obtain ⟨hiff, hkeep⟩ := hstep.next frame.active
  have hsame : s.1.state = s.2.state := hstep.state_eq
  have hnextState : (takeFrame run s.1 frame).2.state
      = (s.1.toPhase.next (F32.ofInt 10) frame.active).state := congrArg Phase.state hnext
  have hgoNextState : (goTakeFrame S B s.2 frame).2.state
      = (s.2.toPhase.next (F32.ofInt 20) frame.active).state := congrArg Phase.state hgoNext
  constructor
  · constructor
    · rintro ⟨hstate, -, -⟩
      rw [hnextState, hgoNextState] at hstate
      exact hiff.mp hstate
    · intro hleaves
      have hstate := hiff.mpr hleaves
      refine ⟨?_, ?_, ?_⟩
      · rw [hnextState, hgoNextState, hstate]
      · rw [hsame] at hbegin
        exact hbegin.trans hgoBegin.symm
      · rw [frameDuration10, hstate, hsame] at hend
        exact hend.trans hgoEnd.symm
  · rintro ⟨hstate, -, -⟩
    rw [hnextState, hgoNextState] at hstate
    rw [takeFrame, goTakeFrame, hnext, hgoNext]
    exact hkeep hstate

/-- **The two detectors agree along a run exactly when every silence is left after thirteen
active frames in a row.** -/
theorem agree_iff_leavesInSpeech (session : σ) (threshold : F32) (sampleRate : ℤ)
    (h : 0 < (sampleRate * 20).tdiv 1000) (g : Go.Detector τ β) (frames : List Frame)
    (hears : Along (both (takeFrame run) (goTakeFrame S B)) (Hears run S)
      (new session threshold sampleRate h, g.initializeDetector S B 15000) frames) :
    Along (both (takeFrame run) (goTakeFrame S B)) (Agree run S B)
        (new session threshold sampleRate h, g.initializeDetector S B 15000) frames ↔
      ∀ k (hk : k < frames.length),
        LeavesInSpeech
          (final (takeFrame run) (new session threshold sampleRate h) (frames.take k))
          (speechRun (frames.take k)) frames[k] := by
  have hrule := along_iff_noted (R := Agree run S B)
    (Q := fun s k frame => LeavesInSpeech s.1 k frame)
    (fun k (frame : Frame) => Phase.countRun k frame.active)
    (fun s k => Phase.InStep s.1.toPhase s.2.toPhase k)
    (fun s k frame hin hhears => (agree_iff run S B hin hhears).1)
    (fun s k frame hin hhears => (agree_iff run S B hin hhears).2)
    (n := 0) Phase.inStep_setState hears
  simp only [final_both] at hrule
  exact hrule

/-- A library detector that answers with the bits of a script, and cuts no segments. -/
def scriptedSherpa : Go.Sherpa (List Bool) where
  acceptWaveform script _ := (script.tail, [])
  isSpeech script := script.headD false
  clear script := script

/-- A buffer of the last bytes. -/
def lastBytes : Go.FixedSizeBuffer (ℕ × List UInt8) where
  new capacity := (capacity, [])
  append buffer bytes :=
    (buffer.1, (buffer.2 ++ bytes).drop ((buffer.2 ++ bytes).length - buffer.1))
  getData buffer := buffer.2

/-- A Go detector whose library object follows the script. -/
def goWithScript (script : List Bool) : Go.Detector (List Bool) (ℕ × List UInt8) where
  toPhase := Phase.setState .inactivity
  vad := false :: script
  queue := []
  waitBuff := []
  fixed := (0, [])
  frameIndex := 0
  maxSilenceDuration := F32.zero
  isSendSourceAudio := false

/-- A frame of zeros with a bit. -/
def frameOf (active : Bool) : Frame where
  samples := List.replicate 320 F32.zero
  buff := List.replicate 640 0
  sourceBuff := []
  active := active

/-- A probability with a bit. -/
def probabilityOf (active : Bool) : F32 := if active then F32.ofInt 1 else F32.zero

instance (s : SherpaVadDetector σ × Go.Detector τ β) (frame : Frame) :
    Decidable (Hears run S s frame) :=
  decidable_of_iff (s.1.hears run frame.samples = frame.active ∧
      s.2.hears S frame.buff = frame.active ∧ s.2.queued S frame.buff = [])
    ⟨fun h => ⟨h.1, h.2.1, h.2.2⟩, fun h => ⟨h.bit, h.goBit, h.queue⟩⟩

/-- Fourteen active frames begin an utterance, which a short silence does not end and thirty
inactive frames do. -/
def utteranceBits : List Bool :=
  List.replicate 14 true ++ [false, true] ++ List.replicate 30 false

theorem agree_iff_leavesInSpeech_frames :
    let d := withScript (utteranceBits.map probabilityOf)
    (outputs (takeFrame VadIterator.scripted) d (utteranceBits.map frameOf)).map VadResult.state
        = List.replicate 13 .silence ++ [.startSpeaking] ++ List.replicate 31 .speaking
          ++ [.endSpeaking] ∧
      Along (both (takeFrame VadIterator.scripted) (goTakeFrame scriptedSherpa lastBytes))
        (Agree VadIterator.scripted scriptedSherpa lastBytes)
        (d, (goWithScript utteranceBits).initializeDetector scriptedSherpa lastBytes 15000)
        (utteranceBits.map frameOf) := by
  intro d
  refine ⟨by decide +kernel, (agree_iff_leavesInSpeech VadIterator.scripted scriptedSherpa
    lastBytes _ frameThreshold 16000 frameSize_default (goWithScript utteranceBits) _
    (by decide +kernel)).mpr ?_⟩
  decide +kernel

/-- An active frame, an inactive one and twelve active ones: here the silence is left, in the
Go detector it is not. -/
theorem agree_fails_after_a_lost_frame :
    ¬ ∀ bits : List Bool,
      Along (both (takeFrame VadIterator.scripted) (goTakeFrame scriptedSherpa lastBytes))
          (Hears VadIterator.scripted scriptedSherpa)
          (withScript (bits.map probabilityOf),
            (goWithScript bits).initializeDetector scriptedSherpa lastBytes 15000)
          (bits.map frameOf) →
        Along (both (takeFrame VadIterator.scripted) (goTakeFrame scriptedSherpa lastBytes))
          (Agree VadIterator.scripted scriptedSherpa lastBytes)
          (withScript (bits.map probabilityOf),
            (goWithScript bits).initializeDetector scriptedSherpa lastBytes 15000)
          (bits.map frameOf) := by
  intro h
  have hagree := h ([true, false] ++ List.replicate 12 true) (by decide +kernel)
  rw [along_iff_forall] at hagree
  have hlast := (hagree 13 (by decide)).state
  exact absurd hlast (by decide +kernel)

end SherpaVadDetector

end VadService
