import VadService.Session.Protocol
import VadService.Session.Stream
import VadService.Session.Audio
import VadService.Iterator.Since

set_option autoImplicit false

/-! # The detected segment and the audio sent for it

The iterator counts samples of the stream, and the session buffers messages. `Aligned`
relates the two: while a segment is open, the buffered messages reach back to its first
sample. This fails when a segment starts with a window that begins in an earlier message,
whose samples still wait in the engine (`LateStart`), and only then (`segment_in_audio`).
-/

namespace VadService

open Machine Window SileroVadEngine

namespace Session

/-! ## The flags behind an answer -/

theorem eq_or_mem_of_beforeLast (was : Bool) (bs : List Bool) (h : beforeLast was bs = false) :
    was = false ∨ false ∈ bs := by
  induction bs generalizing was with
  | nil => exact Or.inl h
  | cons b bs ih =>
      cases bs with
      | nil => exact Or.inl h
      | cons c bs =>
          right
          rcases ih b h with rfl | hmem
          · exact List.mem_cons_self
          · exact List.mem_cons_of_mem b hmem

theorem true_mem_of_someFlag (bs : List Bool) (h : someFlag bs = true) : true ∈ bs := by
  simpa [someFlag] using h

/-- What the flags were like, by the answer. -/
theorem answerOf_cases (was : Bool) (bs : List Bool) :
    match answerOf was bs with
    | .startSpeaking => lastFlag was bs = true ∧ (was = false ∨ false ∈ bs)
    | .speaking => was = true ∧ lastFlag was bs = true
    | .endSpeaking => lastFlag was bs = false ∧ (was = true ∨ true ∈ bs)
    | .silence => was = false ∧ lastFlag was bs = false := by
  have hbefore := eq_or_mem_of_beforeLast was bs
  have hsome := true_mem_of_someFlag bs
  rw [answerOf, reported]
  cases was with
  | false =>
      cases hl : lastFlag false bs with
      | true => simp
      | false => cases hs : someFlag bs <;> simp [hsome, hs]
  | true =>
      cases hl : lastFlag true bs with
      | true =>
          cases hb : beforeLast true bs with
          | true => simp
          | false => simpa using hbefore hb
      | false => simp

/-! ## Positions -/

variable {H σ : Type}

/-- The trigger of the session's iterator. -/
def trigger (s : Session (SileroVadEngine σ) H) : Trigger := s.vadEngine.vadIterator.toTrigger

/-- The buffered messages reach back to the start of the open segment in the stream `S`, and
the iterator has counted the samples of `S` that do not wait in the engine. -/
structure Aligned (s : Session (SileroVadEngine σ) H) (S : List UInt8) : Prop where
  even : Even S.length
  suffix : s.audioBuffer <:+ S
  sync : s.InSync
  settled : s.vadEngine.Settled
  cfg : s.vadEngine.vadIterator.cfg = VadConfig.new 16000 32
  range : s.trigger.Range
  inv : s.trigger.Inv
  position : 2 * (s.trigger.currentSample + s.vadEngine.buffer.length) = S.length
  opened : s.trigger.triggered = true →
    (S.length : ℤ) ≤ 2 * s.trigger.currentSpeech.start + s.audioBuffer.length
  idle : s.trigger.triggered = false → s.audioBuffer = []

theorem aligned_silero (id : String) (hdl : H) (session : σ) :
    (silero id hdl session).Aligned [] where
  even := by simp
  suffix := List.suffix_rfl
  sync := rfl
  settled := settled_new session 16000 32 (by decide)
  cfg := rfl
  range := Trigger.range_init
  inv := Trigger.inv_init
  position := rfl
  opened h := absurd h Bool.false_ne_true
  idle _ := rfl

/-- A segment would start with a window that begins before the packet: the iterator is idle,
samples wait in the engine, and the first window the packet completes is high. -/
def LateStart (run : OrtRun σ) (s : Session (SileroVadEngine σ) H) (packet : List UInt8 × ℕ) :
    Prop :=
  s.triggered = false ∧ s.vadEngine.buffer ≠ [] ∧
    ∃ p ∈ (s.packetProbs run packet.1).head?, s.vadEngine.vadIterator.cfg.isHigh p = true

/-- The bytes of the stream `S` from the start to the end of a segment. -/
def segmentBytes (S : List UInt8) (segment : Timestamp) : List UInt8 :=
  (S.drop (2 * segment.start).toNat).take (2 * (segment.end_ - segment.start)).toNat

/-- The segments recorded on the way from `s` to `s'`. -/
def newSegments (s s' : Session (SileroVadEngine σ) H) : List Timestamp :=
  s'.trigger.speeches.drop s.trigger.speeches.length

section Packet

variable {run : OrtRun σ} {s : Session (SileroVadEngine σ) H} {S : List UInt8}
  {packet : List UInt8 × ℕ}

/-- The trigger runs over the probabilities of the packet. -/
theorem trigger_processAudio (s : Session (SileroVadEngine σ) H) (packet : List UInt8 × ℕ) :
    (audioStep (engine run) s packet).2.trigger
      = final (Trigger.step WordArith.bits32 s.vadEngine.vadIterator.cfg) s.trigger
          (s.packetProbs run packet.1) := by
  rw [trigger, vadEngine_audioStep]
  exact VadIterator.final_predictStep run s.vadEngine.vadIterator _

theorem length_packetProbs (s : Session (SileroVadEngine σ) H) (rawData : List UInt8) :
    (s.packetProbs run rawData).length
      = (s.vadEngine.buffer.length + rawData.length / 2) / s.vadEngine.windowSizeSamples := by
  rw [packetProbs, length_outputs, completed, length_windows, List.length_append,
    length_toFloatAudio]

theorem length_buffer_processAudio (s : Session (SileroVadEngine σ) H)
    (packet : List UInt8 × ℕ) :
    (audioStep (engine run) s packet).2.vadEngine.buffer.length
      = (s.vadEngine.buffer.length + packet.1.length / 2) % s.vadEngine.windowSizeSamples := by
  rw [vadEngine_audioStep]
  show (leftover s.vadEngine.windowSizeSamples
    (s.vadEngine.buffer ++ toFloatAudio packet.1)).length = _
  rw [length_leftover, List.length_append, length_toFloatAudio]

theorem Aligned.windowSize (h : Aligned s S) : s.vadEngine.windowSizeSamples = 512 := by
  have hW : (VadConfig.new 16000 32).windowSizeSamples = 512 := rfl
  have hsize := s.vadEngine.windowSize_eq
  rw [h.cfg, hW] at hsize
  exact_mod_cast hsize.symm

/-- The windows of a packet are made of the samples that waited and its own. -/
theorem Aligned.packetProbs_le (run : OrtRun σ) (h : Aligned s S) (rawData : List UInt8) :
    (s.packetProbs run rawData).length * 512
      ≤ s.vadEngine.buffer.length + rawData.length / 2 := by
  rw [length_packetProbs, h.windowSize]
  exact Nat.div_mul_le_self _ _

/-- The segments of a packet: everything that opens in it starts within it. -/
theorem Aligned.since (h : Aligned s S)
    (hB : (S.length + packet.1.length : ℤ) < 2 ^ 32) (hlate : ¬ LateStart run s packet) :
    Trigger.Since s.trigger (S.length / 2) (s.packetFlags run packet.1)
        (audioStep (engine run) s packet).2.trigger ∧
      (audioStep (engine run) s packet).2.trigger.Range ∧
      (audioStep (engine run) s packet).2.trigger.Inv ∧
      (audioStep (engine run) s packet).2.trigger.currentSample
        = s.trigger.currentSample + (s.packetProbs run packet.1).length * 512 := by
  have hW : (VadConfig.new 16000 32).windowSizeSamples = 512 := rfl
  have hmax : (VadConfig.new 16000 32).maxSpeechSamples = F32.infinity :=
    VadIterator.maxSpeechSamples_new (by decide) (by decide) (by decide)
  have hsize := h.windowSize
  have hsettled : s.vadEngine.buffer.length < 512 := hsize ▸ h.settled
  have hpos := h.position
  have hcount := h.packetProbs_le run packet.1
  have hlt : s.trigger.currentSample
      + (s.packetProbs run packet.1).length * (VadConfig.new 16000 32).windowSizeSamples
        < 2 ^ 31 := by
    rw [hW]
    omega
  have ha := WordArith.bits32_exactBelow
  rw [trigger_processAudio, h.cfg]
  obtain ⟨hr, hcur⟩ := Trigger.run_range ha (by rw [hW]; omega) h.range _ hlt
  refine ⟨?_, hr, Trigger.inv_run ha (by rw [hW]; omega) h.range h.inv _ hlt, hcur⟩
  have hflags : s.packetFlags run packet.1
      = s.trigger.flags (VadConfig.new 16000 32) (s.packetProbs run packet.1) := by
    rw [packetFlags, h.cfg]
    rfl
  rw [hflags]
  refine Trigger.since_run (by rw [hW]; omega) hmax h.range (by rw [hW]; omega) _ ?_ hlt
  intro p hp hhigh hidle
  -- an empty buffer puts the first window at the start of the packet
  have hempty : s.vadEngine.buffer = [] := by
    by_contra hne
    exact hlate ⟨hidle, hne, p, hp, by rw [h.cfg]; exact hhigh⟩
  rw [hempty, List.length_nil] at hpos
  omega

theorem suffix_append {α : Type} {b S : List α} (h : b <:+ S) (x : List α) : b ++ x <:+ S ++ x := by
  obtain ⟨pre, rfl⟩ := h
  exact ⟨pre, by rw [List.append_assoc]⟩

/-- The audio buffered after a packet reaches back to the start of the open segment. -/
theorem Aligned.buffer (h : Aligned s S)
    (hB : (S.length + packet.1.length : ℤ) < 2 ^ 32) (hlate : ¬ LateStart run s packet) :
    (audioStep (engine run) s packet).2.audioBuffer <:+ S ++ packet.1 ∧
      ((audioStep (engine run) s packet).2.trigger.triggered = true →
        ((S ++ packet.1).length : ℤ)
          ≤ 2 * (audioStep (engine run) s packet).2.trigger.currentSpeech.start
            + (audioStep (engine run) s packet).2.audioBuffer.length) ∧
      ((audioStep (engine run) s packet).2.trigger.triggered = false →
        (audioStep (engine run) s packet).2.audioBuffer = []) := by
  obtain ⟨hsince, -⟩ := h.since hB hlate
  have hup : (audioStep (engine run) s packet).2.trigger.triggered
      = lastFlag s.triggered (s.packetFlags run packet.1) := triggered_processAudio _ _ _
  have hcases := answerOf_cases s.triggered (s.packetFlags run packet.1)
  have hbuf := audioStep_audioBuffer (engine run) s packet
  have hS := h.even
  rw [answered_eq h.sync] at hbuf
  cases hst : answerOf s.triggered (s.packetFlags run packet.1) with
  | startSpeaking =>
      rw [hst] at hbuf hcases
      obtain ⟨hlast, hfell⟩ := hcases
      refine ⟨hbuf ▸ List.suffix_append S packet.1, ?_, ?_⟩
      · -- the buffer is the packet, and the flag was down before it or has been since
        intro ht
        rw [hbuf, List.length_append]
        rcases hsince.current ht with hP | ⟨hwas, -, hnot⟩
        · push_cast
          obtain ⟨k, hk⟩ := hS
          omega
        · rcases hfell with hidle | hmem
          · exact absurd (hidle.symm.trans hwas) Bool.false_ne_true
          · exact absurd hmem hnot
      · intro hf
        exact absurd ((hup.trans hlast).symm.trans hf) (by decide)
  | speaking =>
      rw [hst] at hbuf hcases
      obtain ⟨hwas, hlast⟩ := hcases
      refine ⟨hbuf ▸ suffix_append h.suffix packet.1, ?_, ?_⟩
      · -- the open segment is the old one, or starts within the packet
        intro ht
        have hopen := h.opened hwas
        rw [hbuf, List.length_append, List.length_append]
        push_cast
        obtain ⟨k, hk⟩ := hS
        rcases hsince.current ht with hP | ⟨-, heq, -⟩
        · omega
        · omega
      · intro hf
        exact absurd ((hup.trans hlast).symm.trans hf) (by decide)
  | endSpeaking =>
      rw [hst] at hbuf hcases
      refine ⟨hbuf ▸ List.nil_suffix, ?_, fun _ => hbuf⟩
      intro ht
      exact absurd ((hup.trans hcases.1).symm.trans ht) (by decide)
  | silence =>
      rw [hst] at hbuf hcases
      refine ⟨hbuf ▸ List.nil_suffix, ?_, fun _ => hbuf⟩
      intro ht
      exact absurd ((hup.trans hcases.2).symm.trans ht) (by decide)

/-- **Every packet keeps the session aligned**, if no segment starts before it. -/
theorem Aligned.step (h : Aligned s S) (hraw : Even packet.1.length)
    (hB : (S.length + packet.1.length : ℤ) < 2 ^ 32) (hlate : ¬ LateStart run s packet) :
    Aligned (audioStep (engine run) s packet).2 (S ++ packet.1) := by
  obtain ⟨-, hr, hi, hcur⟩ := h.since hB hlate
  obtain ⟨hsuffix, hopened, hidle⟩ := h.buffer hB hlate
  have hengine := vadEngine_audioStep run s packet
  refine ⟨?_, hsuffix, inSync_processAudio h.sync _ _, ?_, ?_, hr, hi, ?_, hopened, hidle⟩
  · rw [List.length_append]
    exact h.even.add hraw
  · rw [hengine]
    exact settled_consume run _
  · rw [hengine]
    exact (VadIterator.final_predictStep_cfg run _ _).trans h.cfg
  · -- every sample that waited or came with the packet is counted or waits
    have hpos := h.position
    have hdiv := Nat.div_add_mod' (s.vadEngine.buffer.length + packet.1.length / 2) 512
    rw [hcur, length_buffer_processAudio, length_packetProbs, h.windowSize, List.length_append]
    obtain ⟨k, hk⟩ := hraw
    push_cast
    omega

/-- What follows a prefix contains every piece that starts behind the prefix. -/
theorem take_drop_infix {α : Type} {l : List α} {m : ℕ} (n : ℕ) (k : ℕ) (h : m ≤ n) :
    (l.drop n).take k <:+: l.drop m := by
  have hdrop : l.drop n = (l.drop m).drop (n - m) := by
    rw [List.drop_drop]
    congr 1
    omega
  rw [hdrop]
  exact (List.take_prefix k _).isInfix.trans (List.drop_suffix (n - m) _).isInfix

/-- A `VAD_END` comes with new segments, and the audio for it contains their bytes. -/
theorem Aligned.end_audio (h : Aligned s S) (hB : (S.length + packet.1.length : ℤ) < 2 ^ 32)
    (hlate : ¬ LateStart run s packet)
    (hend : s.answered (engine run) packet.1 = .endSpeaking) :
    newSegments s (audioStep (engine run) s packet).2 ≠ [] ∧
      ∀ segment ∈ newSegments s (audioStep (engine run) s packet).2,
        (0 ≤ segment.start ∧ segment.start < segment.end_ ∧
          2 * segment.end_ ≤ (S ++ packet.1).length) ∧
        segmentBytes (S ++ packet.1) segment <:+: s.audioBuffer ++ packet.1 := by
  obtain ⟨hsince, hr, hi, hcur⟩ := h.since hB hlate
  have hcases := answerOf_cases s.triggered (s.packetFlags run packet.1)
  rw [← answered_eq h.sync, hend] at hcases
  obtain ⟨hlast, hwas⟩ := hcases
  have hdown : (audioStep (engine run) s packet).2.trigger.triggered = false :=
    (triggered_processAudio s packet.1 packet.2).trans hlast
  have hnew := hsince.recorded hdown hwas
  constructor
  · intro hnil
    rw [newSegments, List.drop_eq_nil_iff] at hnil
    omega
  · intro segment hseg
    have hvalid := (hi.idle hdown).2.valid segment (List.mem_of_mem_drop hseg)
    have hpos := h.position
    have hcount := h.packetProbs_le run packet.1
    refine ⟨⟨hvalid.1, hvalid.2.1, ?_⟩, ?_⟩
    · rw [List.length_append]
      push_cast
      omega
    · -- the buffered messages and the packet are what follows some prefix of the stream
      obtain ⟨pre, hpre⟩ := h.suffix
      have hstream : s.audioBuffer ++ packet.1 = (S ++ packet.1).drop pre.length := by
        rw [← hpre, List.append_assoc, List.drop_left]
      have hlen : (pre.length : ℤ) + s.audioBuffer.length = S.length := by
        rw [← hpre, List.length_append]
        push_cast
        ring
      rw [hstream]
      apply take_drop_infix
      obtain ⟨k, hk⟩ := h.even
      rcases hsince.appended segment hseg with hP | ⟨ht, heq⟩
      · omega
      · have hopen := h.opened ht
        omega

end Packet

/-! ## Whole runs -/

/-- The bytes of a sequence of messages. -/
def streamBytes (packets : List (List UInt8 × ℕ)) : List UInt8 := (packets.map Prod.fst).flatten

theorem streamBytes_append (packets : List (List UInt8 × ℕ)) (packet : List UInt8 × ℕ) :
    streamBytes (packets ++ [packet]) = streamBytes packets ++ packet.1 := by
  simp [streamBytes]

/-- Runs without a late start keep a session aligned with its stream. -/
theorem aligned_run {run : OrtRun σ} (id : String) (hdl : H) (session : σ)
    (packets : List (List UInt8 × ℕ)) (heven : ∀ p ∈ packets, Even p.1.length)
    (hB : ((streamBytes packets).length : ℤ) < 2 ^ 32)
    (hlate : Along (audioStep (engine run)) (fun s p => ¬ LateStart run s p)
      (silero id hdl session) packets) :
    Aligned (final (audioStep (engine run)) (silero id hdl session) packets)
      (streamBytes packets) := by
  induction packets using List.reverseRecOn with
  | nil => exact aligned_silero id hdl session
  | append_singleton packets packet ih =>
      rw [along_append] at hlate
      obtain ⟨hbefore, hlast, -⟩ := hlate
      rw [streamBytes_append] at hB ⊢
      rw [List.length_append] at hB
      push_cast at hB
      have hprev := ih (fun p hp => heven p (by simp [hp])) (by omega) hbefore
      rw [final_append]
      exact hprev.step (heven packet (by simp)) hB hlast

/-- **The audio of a `VAD_END` contains the detected segment**, in every run of even
messages and less than `2^31` samples without a late start: it contains, in one piece, the
bytes of every segment the iterator has recorded in the call. -/
theorem segment_in_audio (run : OrtRun σ) (id : String) (hdl : H) (session : σ)
    (before : List (List UInt8 × ℕ)) (packet : List UInt8 × ℕ)
    (heven : ∀ p ∈ before ++ [packet], Even p.1.length)
    (hB : ((streamBytes (before ++ [packet])).length : ℤ) < 2 ^ 32)
    (hlate : Along (audioStep (engine run)) (fun s p => ¬ LateStart run s p)
      (silero id hdl session) (before ++ [packet]))
    {s s' : Session (SileroVadEngine σ) H} {r : VadResponse}
    (hs : s = final (audioStep (engine run)) (silero id hdl session) before)
    (hstep : audioStep (engine run) s packet = (r, s')) (hend : r.vadState = "VAD_END") :
    newSegments s s' ≠ [] ∧ ∀ segment ∈ newSegments s s',
      (0 ≤ segment.start ∧ segment.start < segment.end_ ∧
        2 * segment.end_ ≤ (streamBytes (before ++ [packet])).length) ∧
      segmentBytes (streamBytes (before ++ [packet])) segment <:+: Base64.read r.vadAudio := by
  have hall := (along_append _ _ _ _ _).mp hlate
  rw [streamBytes_append, List.length_append] at hB
  push_cast at hB
  have halign : Aligned s (streamBytes before) := hs ▸ aligned_run id hdl session before
    (fun p hp => heven p (by simp [hp])) (by omega) hall.1
  have hr : (audioStep (engine run) s packet).1 = r := congrArg Prod.fst hstep
  have hs' : (audioStep (engine run) s packet).2 = s' := congrArg Prod.snd hstep
  have hlabel : (audioStep (engine run) s packet).1.vadState = "VAD_END" := hr ▸ hend
  have hanswer : s.answered (engine run) packet.1 = .endSpeaking := by
    rw [audioStep_vadState] at hlabel
    exact VadState.label_injective hlabel
  have haudio : Base64.read r.vadAudio = s.audioBuffer ++ packet.1 := by
    have hbuf := halign.suffix.length_le
    have hraw : (audioStep (engine run) s packet).1.vadAudio
        = encodeAll (s.audioBuffer ++ packet.1) := vadAudio_of_end hlabel
    rw [← hr, hraw]
    apply read_encodeAll
    rw [List.length_append]
    omega
  rw [haudio, streamBytes_append, ← hs']
  exact halign.end_audio hB (hs ▸ hall.2.1) hanswer

/-- No segment starts while one is open. -/
theorem Plays.not_lateStart {s : Session (SileroVadEngine (List F32)) H} {t : Trigger}
    {script : List F32} {waiting : ℕ} (h : s.Plays t script waiting) (packet : List UInt8 × ℕ)
    (ht : t.triggered = true) : ¬ LateStart VadIterator.scripted s packet := by
  intro hlate
  have hdown : s.vadEngine.vadIterator.toTrigger.triggered = false := hlate.1
  rw [h.trigger, ht] at hdown
  cases hdown

/-- A segment over three packets, of which the second holds half a window that the third
completes. -/
theorem segment_in_audio_packet :
    let before := [constPacket 1 4096, constPacket 1 4608]
    let s := final (audioStep (engine VadIterator.scripted)) (silero "" () speechThenSilence) before
    let answer := audioStep (engine VadIterator.scripted) s (constPacket 0 4608)
    newSegments s answer.2 = [⟨0, 4608⟩] ∧
      segmentBytes (streamBytes (before ++ [constPacket 0 4608])) ⟨0, 4608⟩
        <:+: Base64.read answer.1.vadAudio := by
  intro before s answer
  have l1 := length_constPacket 1 4096
  have l2 := length_constPacket 1 4608
  have l3 := length_constPacket 0 4608
  have h0 := plays_silero "" () speechThenSilence
  have h1 := h0.step (constPacket 1 4096) (m := 4) (by rw [l1]) (by decide)
  have h2 := h1.step (constPacket 1 4608) (m := 4) (by rw [l1, l2]) (by decide)
  have h3 := h2.step (constPacket 0 4608) (m := 5) (by rw [l1, l2, l3]) (by decide)
  have hstop := h2.answered (constPacket 0 4608) (m := 5) (by rw [l1, l2, l3]) (by decide)
  have hs : s = (audioStep (engine VadIterator.scripted) (audioStep (engine VadIterator.scripted)
      (silero "" () speechThenSilence) (constPacket 1 4096)).2 (constPacket 1 4608)).2 := rfl
  rw [← hs] at h2 h3 hstop
  have hstep : audioStep (engine VadIterator.scripted) s (constPacket 0 4608)
      = (answer.1, answer.2) := Prod.mk.eta.symm
  have hnew : newSegments s answer.2 = [⟨0, 4608⟩] := by
    rw [newSegments, trigger, trigger, h3.trigger, h2.trigger]
    decide +kernel
  have hend : answer.1.vadState = "VAD_END" := by
    rw [audioStep_vadState, hstop]
    decide +kernel
  refine ⟨hnew, ((segment_in_audio VadIterator.scripted "" () speechThenSilence before
    (constPacket 0 4608) ?_ ?_ ?_ rfl hstep hend).2 _ ?_).2⟩
  · intro p hp
    simp only [before, List.cons_append, List.nil_append, List.mem_cons, List.not_mem_nil,
      or_false] at hp
    rcases hp with rfl | rfl | rfl
    · rw [l1]; decide
    · rw [l2]; decide
    · rw [l3]; decide
  · simp [before, streamBytes, l1, l2, l3]
  · exact ⟨fun hlate => hlate.2.1 rfl, h1.not_lateStart _ (by decide +kernel),
      h2.not_lateStart _ (by decide +kernel), trivial⟩
  · rw [hnew]
    exact List.mem_singleton_self _

/-- The first samples of a segment wait in the engine while their message is answered with
`SILENCE`, and the audio of the segment lacks them. -/
theorem late_start_loses_audio :
    ¬ ∀ (before : List (List UInt8 × ℕ)) (packet : List UInt8 × ℕ),
      (∀ p ∈ before ++ [packet], Even p.1.length) →
      ((streamBytes (before ++ [packet])).length : ℤ) < 2 ^ 32 →
      ∀ (s s' : Session (SileroVadEngine (List F32)) Unit) (r : VadResponse),
        s = final (audioStep (engine VadIterator.scripted)) (silero "" () speechThenSilence)
          before →
        audioStep (engine VadIterator.scripted) s packet = (r, s') → r.vadState = "VAD_END" →
        ∀ segment ∈ newSegments s s',
          segmentBytes (streamBytes (before ++ [packet])) segment <:+: Base64.read r.vadAudio := by
  intro h
  -- 320 samples of value 1, then silence: the first window begins in the first message
  have l1 := length_constPacket 1 640
  have l2 := length_constPacket 0 384
  have l3 := length_constPacket 0 12288
  have h0 := plays_silero "" () speechThenSilence
  have h1 := h0.step (constPacket 1 640) (m := 0) (by rw [l1]) (by decide)
  have h2 := h1.step (constPacket 0 384) (m := 1) (by rw [l1, l2]) (by decide)
  have h3 := h2.step (constPacket 0 12288) (m := 12) (by rw [l1, l2, l3]) (by decide)
  have hquiet := h0.answered (constPacket 1 640) (m := 0) (by rw [l1]) (by decide)
  have hbegin := h1.answered (constPacket 0 384) (m := 1) (by rw [l1, l2]) (by decide)
  have hstop := h2.answered (constPacket 0 12288) (m := 12) (by rw [l1, l2, l3]) (by decide)
  generalize hs1 : (audioStep (engine VadIterator.scripted) (silero "" () speechThenSilence)
    (constPacket 1 640)).2 = s1 at h1 h2 h3 hbegin hstop
  generalize hs2 : (audioStep (engine VadIterator.scripted) s1 (constPacket 0 384)).2 = s2
    at h2 h3 hstop
  have hbuf : s2.audioBuffer = (constPacket 0 384).1 := by
    have hstart : s1.answered (engine VadIterator.scripted) (constPacket 0 384).1
        = .startSpeaking := hbegin.trans (by decide +kernel)
    rw [← hs2, audioStep_audioBuffer, hstart]
  have hend : (audioStep (engine VadIterator.scripted) s2 (constPacket 0 12288)).1.vadState
      = "VAD_END" := by
    rw [audioStep_vadState, hstop]
    decide +kernel
  have haudio : Base64.read (audioStep (engine VadIterator.scripted) s2
      (constPacket 0 12288)).1.vadAudio = (constPacket 0 384).1 ++ (constPacket 0 12288).1 := by
    have hraw : (audioStep (engine VadIterator.scripted) s2 (constPacket 0 12288)).1.vadAudio
        = encodeAll (s2.audioBuffer ++ (constPacket 0 12288).1) := vadAudio_of_end hend
    rw [hraw, hbuf, read_encodeAll]
    rw [List.length_append, l2, l3]
    decide
  have hnew : newSegments s2 (audioStep (engine VadIterator.scripted) s2
      (constPacket 0 12288)).2 = [⟨0, 4608⟩] := by
    rw [newSegments, trigger, trigger, h3.trigger, h2.trigger]
    decide +kernel
  have hstream : streamBytes ([constPacket 1 640, constPacket 0 384] ++ [constPacket 0 12288])
      = (constPacket 1 640).1 ++ ((constPacket 0 384).1 ++ (constPacket 0 12288).1) := by
    simp [streamBytes]
  have hpiece := h [constPacket 1 640, constPacket 0 384] (constPacket 0 12288) ?_ ?_ s2 _ _
    (by rw [final_cons, hs1, final_cons, hs2, final_nil]) Prod.mk.eta.symm hend ⟨0, 4608⟩
    (by rw [hnew]; exact List.mem_singleton_self _)
  · rw [haudio, hstream] at hpiece
    have hone : (1 : UInt8) ∈ segmentBytes ((constPacket 1 640).1 ++
        ((constPacket 0 384).1 ++ (constPacket 0 12288).1)) ⟨0, 4608⟩ := by
      have hprefix : (constPacket 1 640).1 <+: segmentBytes ((constPacket 1 640).1 ++
          ((constPacket 0 384).1 ++ (constPacket 0 12288).1)) ⟨0, 4608⟩ := by
        refine List.prefix_take_iff.mpr ⟨List.prefix_append _ _, ?_⟩
        rw [l1]
        decide
      exact hprefix.mem (List.mem_replicate.mpr ⟨by decide, rfl⟩)
    rcases List.mem_append.mp (hpiece.mem hone) with hmem | hmem
    · exact absurd (List.eq_of_mem_replicate hmem) (by decide)
    · exact absurd (List.eq_of_mem_replicate hmem) (by decide)
  · intro p hp
    simp only [List.cons_append, List.nil_append, List.mem_cons, List.not_mem_nil, or_false] at hp
    rcases hp with rfl | rfl | rfl
    · rw [l1]; decide
    · rw [l2]; decide
    · rw [l3]; decide
  · rw [hstream, List.length_append, List.length_append, l1, l2, l3]
    decide

end Session

end VadService
