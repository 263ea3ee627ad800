import VadService.Session.Basic
import VadService.Engine.Report
import VadService.Lib.Segments

set_option autoImplicit false

/-! # The words of a session

A client expects the states of a session to form segments: silence, a `VAD_BEGIN`, any
number of `SPEAKING`s and a `VAD_END`, again and again. A session keeps to this as long as
no packet hides an edge of the trigger (`hidesEdge`), and loses it with the first packet
that does (`emits_iff`): the one state reported for the packet cannot tell of both edges.
-/

namespace VadService

open Machine SileroVadEngine

/-- The words the protocol promises. -/
def protocol : Segments String where
  idle := "SILENCE"
  opens := "VAD_BEGIN"
  inside := "SPEAKING"
  closes := "VAD_END"
  distinct := by decide

/-- The edges of a packet that one state cannot tell of: a segment that starts and ends
within the packet, or one that ends before the last window and the next that starts with it.
The flag before the packet and the flags after its windows say which. -/
def hidesEdge (was : Bool) (bs : List Bool) : Bool :=
  (!was && someFlag bs && !lastFlag was bs) || (was && !beforeLast was bs && lastFlag was bs)

namespace Session

variable {E H σ : Type}

/-! ## The session follows the trigger -/

/-- The trigger flag of the session's iterator. -/
def triggered (s : Session (SileroVadEngine σ) H) : Bool := s.vadEngine.vadIterator.isTriggered

/-- The probabilities the model returns for the windows a packet completes. -/
def packetProbs (run : OrtRun σ) (s : Session (SileroVadEngine σ) H) (rawData : List UInt8) :
    List F32 :=
  outputs (VadIterator.predictStep run) s.vadEngine.vadIterator
    (s.vadEngine.completed (toFloatAudio rawData))

/-- The trigger flags after the windows of a packet. -/
def packetFlags (run : OrtRun σ) (s : Session (SileroVadEngine σ) H) (rawData : List UInt8) :
    List Bool :=
  s.vadEngine.vadIterator.toTrigger.flags s.vadEngine.vadIterator.cfg (s.packetProbs run rawData)

/-- `last_state_` is `SPEAKING` while the iterator is triggered, and `SILENCE` otherwise. -/
def InSync (s : Session (SileroVadEngine σ) H) : Prop :=
  s.lastState = if s.triggered then .speaking else .silence

theorem inSync_silero (id : String) (hdl : H) (session : σ) : (silero id hdl session).InSync := rfl

variable {run : OrtRun σ}

/-- The engine after a packet. -/
theorem vadEngine_audioStep (run : OrtRun σ) (s : Session (SileroVadEngine σ) H)
    (packet : List UInt8 × ℕ) :
    (audioStep (engine run) s packet).2.vadEngine
      = (s.vadEngine.push (toFloatAudio packet.1)).consume run :=
  (audioStep_vadEngine (engine run) s packet).trans
    (processFrame_engine s.vadEngine (toFloatAudio packet.1))

theorem flags_eq (s : Session (SileroVadEngine σ) H) (rawData : List UInt8) :
    SileroVadEngine.flags run s.vadEngine (toFloatAudio rawData) = s.packetFlags run rawData :=
  VadIterator.outputs_triggerStep run _ _

/-- The trigger flag after a packet. -/
theorem triggered_processAudio (s : Session (SileroVadEngine σ) H) (rawData : List UInt8)
    (now : ℕ) : (s.processAudio (engine run) rawData now).2.triggered
      = lastFlag s.triggered (s.packetFlags run rawData) := by
  rw [← flags_eq, triggered, processAudio_vadEngine]
  exact isTriggered_processFrame s.vadEngine (toFloatAudio rawData)

/-- The state a packet is answered with, by the flags of the trigger. -/
def answerOf (was : Bool) (bs : List Bool) : VadState :=
  if !was && lastFlag was bs then .startSpeaking else reported was bs

theorem answered_eq {s : Session (SileroVadEngine σ) H} (hs : s.InSync) (rawData : List UInt8) :
    s.answered (engine run) rawData = answerOf s.triggered (s.packetFlags run rawData) := by
  have hstate : ((engine run).processFrame s.vadEngine (toFloatAudio rawData)).1.state
      = reported s.triggered (s.packetFlags run rawData) := by
    rw [← flags_eq]
    exact processFrame_state s.vadEngine (toFloatAudio rawData)
  rw [answered, currentState, hstate, hs, answerOf]
  generalize s.packetFlags run rawData = bs
  rw [reported]
  -- what is left is a table over the four flags
  cases s.triggered <;> cases lastFlag _ bs <;> cases beforeLast _ bs <;> cases someFlag bs <;> rfl

/-- **Every packet keeps `last_state_` and the trigger together**, whatever it is answered
with. -/
theorem inSync_processAudio {s : Session (SileroVadEngine σ) H} (hs : s.InSync)
    (rawData : List UInt8) (now : ℕ) : (s.processAudio (engine run) rawData now).2.InSync := by
  rw [InSync, triggered_processAudio, processAudio_lastState, answered_eq hs]
  generalize s.packetFlags run rawData = bs
  rw [answerOf, reported]
  cases s.triggered <;> cases lastFlag _ bs <;> cases beforeLast _ bs <;> cases someFlag bs <;> rfl

/-- A letter of the protocol, or none if the packet hides an edge. -/
theorem next_answerOf (was : Bool) (bs : List Bool) :
    protocol.next was (answerOf was bs).label
      = if hidesEdge was bs then none else some (lastFlag was bs) := by
  rw [answerOf, reported, hidesEdge]
  cases was <;> cases lastFlag _ bs <;> cases beforeLast _ bs <;> cases someFlag bs <;> rfl

/-! ## Whole runs -/

/-- The states a session answers a sequence of packets with. -/
def emitted (V : IVadEngine E) (s : Session E H) (packets : List (List UInt8 × ℕ)) :
    List String :=
  (outputs (audioStep V) s packets).map VadResponse.vadState

/-- The packet hides no edge of the trigger. -/
def ShowsEdges (run : OrtRun σ) (s : Session (SileroVadEngine σ) H) (packet : List UInt8 × ℕ) :
    Prop :=
  hidesEdge s.triggered (s.packetFlags run packet.1) = false

/-- The words of a session are read letter by letter until the first hidden edge. -/
theorem exec_emitted {s : Session (SileroVadEngine σ) H} (hs : s.InSync)
    (packets : List (List UInt8 × ℕ)) :
    (∃ o, exec protocol.next s.triggered (s.emitted (engine run) packets) = some o) ↔
      Along (audioStep (engine run)) (ShowsEdges run) s packets := by
  induction packets generalizing s with
  | nil => simp [emitted]
  | cons packet packets ih =>
      have hsync : (s.processAudio (engine run) packet.1 packet.2).2.InSync :=
        inSync_processAudio hs packet.1 packet.2
      have hletter := next_answerOf s.triggered (s.packetFlags run packet.1)
      have hhead : (s.processAudio (engine run) packet.1 packet.2).1.vadState
          = (answerOf s.triggered (s.packetFlags run packet.1)).label := by
        rw [processAudio_vadState, answered_eq hs]
      show (∃ o, exec protocol.next s.triggered
        ((s.processAudio (engine run) packet.1 packet.2).1.vadState ::
          (s.processAudio (engine run) packet.1 packet.2).2.emitted (engine run) packets)
            = some o) ↔ _
      rw [exec_cons, hhead, hletter, along_cons]
      cases hhide : hidesEdge s.triggered (s.packetFlags run packet.1) with
      -- the machine refuses the letter, and the condition fails for the packet
      | true => simp [ShowsEdges, hhide]
      | false =>
          rw [if_neg (by simp), Option.bind_some,
            ← triggered_processAudio s packet.1 packet.2, ih hsync]
          simp [ShowsEdges, hhide, audioStep]

/-- **When a session keeps the protocol.** The states a new session answers with form a
prefix of a word of segments exactly when no packet hides an edge of the trigger. -/
theorem emits_iff (run : OrtRun σ) (id : String) (hdl : H) (session : σ)
    (packets : List (List UInt8 × ℕ)) :
    protocol.IsPrefix ((silero id hdl session).emitted (engine run) packets) ↔
      Along (audioStep (engine run)) (ShowsEdges run) (silero id hdl session) packets := by
  rw [protocol.isPrefix_iff]
  exact exec_emitted (inSync_silero id hdl session) packets

/-! ## Runs with a script -/

/-- The state of a session under a scripted model: its trigger, what is left of the script
and the number of samples that wait in the engine. -/
structure Plays (s : Session (SileroVadEngine (List F32)) H) (t : Trigger) (script : List F32)
    (waiting : ℕ) : Prop where
  sync : s.InSync
  cfg : s.vadEngine.vadIterator.cfg = VadConfig.new 16000 32
  trigger : s.vadEngine.vadIterator.toTrigger = t
  session : s.vadEngine.vadIterator.session = script
  buffer : s.vadEngine.buffer.length = waiting
  windowSize : s.vadEngine.windowSizeSamples = 512

theorem plays_silero (id : String) (hdl : H) (script : List F32) :
    (silero id hdl script).Plays {} script 0 := ⟨rfl, rfl, rfl, rfl, rfl, rfl⟩

section Plays

variable {s : Session (SileroVadEngine (List F32)) H} {t : Trigger} {script : List F32}
  {waiting m : ℕ} (packet : List UInt8 × ℕ)

theorem Plays.length_completed (h : s.Plays t script waiting)
    (hm : (waiting + packet.1.length / 2) / 512 = m) :
    (s.vadEngine.completed (toFloatAudio packet.1)).length = m := by
  rw [completed, Window.length_windows, List.length_append, length_toFloatAudio, h.buffer,
    h.windowSize, hm]

/-- The flags of a packet are those of the next probabilities of the script. -/
theorem Plays.packetFlags (h : s.Plays t script waiting)
    (hm : (waiting + packet.1.length / 2) / 512 = m) (hscript : m ≤ script.length) :
    s.packetFlags VadIterator.scripted packet.1
      = t.flags (VadConfig.new 16000 32) (script.take m) := by
  have hlen := h.length_completed packet hm
  rw [Session.packetFlags, packetProbs, VadIterator.outputs_scripted _ _ (by
    rw [hlen, h.session]
    exact hscript), hlen, h.session, h.cfg, h.trigger]

/-- The state a packet is answered with. -/
theorem Plays.answered (h : s.Plays t script waiting)
    (hm : (waiting + packet.1.length / 2) / 512 = m) (hscript : m ≤ script.length) :
    s.answered (engine VadIterator.scripted) packet.1
      = answerOf t.triggered (t.flags (VadConfig.new 16000 32) (script.take m)) := by
  rw [answered_eq h.sync, h.packetFlags packet hm hscript, ← h.trigger]
  rfl

/-- A packet plays the next part of the script. -/
theorem Plays.step (h : s.Plays t script waiting)
    (hm : (waiting + packet.1.length / 2) / 512 = m) (hscript : m ≤ script.length) :
    (audioStep (engine VadIterator.scripted) s packet).2.Plays
      (final (Trigger.step WordArith.bits32 (VadConfig.new 16000 32)) t (script.take m))
      (script.drop m) ((waiting + packet.1.length / 2) % 512) := by
  have hengine := vadEngine_audioStep VadIterator.scripted s packet
  have hlen := h.length_completed packet hm
  refine ⟨inSync_processAudio h.sync _ _, ?_, ?_, ?_, ?_, ?_⟩
  · rw [hengine]
    exact (VadIterator.final_predictStep_cfg _ _ _).trans h.cfg
  · rw [hengine]
    refine (VadIterator.final_scripted s.vadEngine.vadIterator
      (s.vadEngine.completed (toFloatAudio packet.1)) ?_).trans ?_
    · rw [hlen, h.session]
      exact hscript
    · rw [hlen, h.session, h.cfg, h.trigger]
  · rw [hengine]
    refine (VadIterator.final_scripted_session s.vadEngine.vadIterator
      (s.vadEngine.completed (toFloatAudio packet.1))).trans ?_
    rw [hlen, h.session]
  · rw [hengine]
    refine (Window.length_leftover _ _).trans ?_
    rw [show (s.vadEngine.push (toFloatAudio packet.1)).windowSizeSamples = 512 from h.windowSize,
      show (s.vadEngine.push (toFloatAudio packet.1)).buffer
        = s.vadEngine.buffer ++ toFloatAudio packet.1 from rfl,
      List.length_append, length_toFloatAudio, h.buffer]
  · rw [hengine]
    exact h.windowSize

end Plays

/-- Eight high windows and five low ones: a segment of its own. -/
def speechThenSilence : List F32 :=
  List.replicate 8 (F32.ofInt 1) ++ List.replicate 5 F32.zero

/-- A packet of `n` equal bytes. -/
def constPacket (b : UInt8) (n : ℕ) : List UInt8 × ℕ := (List.replicate n b, 0)

theorem length_constPacket (b : UInt8) (n : ℕ) : (constPacket b n).1.length = n :=
  List.length_replicate

/-- A segment that starts and ends within one packet is answered with a `VAD_END` that no
`VAD_BEGIN` precedes. -/
theorem segment_in_packet :
    ¬ ∀ packets : List (List UInt8 × ℕ), (∀ p ∈ packets, Even p.1.length) →
      protocol.IsPrefix
        ((silero "" () speechThenSilence).emitted (engine VadIterator.scripted) packets) := by
  intro h
  have hlen := length_constPacket 0 13312
  have hprefix := h [constPacket 0 13312] (by
    intro p hp
    rw [List.mem_singleton.mp hp, hlen]
    decide)
  rw [protocol.isPrefix_iff] at hprefix
  have halong := (exec_emitted (inSync_silero "" () speechThenSilence) _).mp hprefix
  have hshows := halong.1
  rw [ShowsEdges, (plays_silero "" () speechThenSilence).packetFlags (constPacket 0 13312)
    (m := 13) (by rw [hlen]) (by decide)] at hshows
  revert hshows
  decide +kernel

end Session

end VadService
