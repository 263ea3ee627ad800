import VadService.Session.Edges

set_option autoImplicit false

/-! # Packets of at most one window

The clients send packets of at most one window. Then a session keeps the protocol, and the
audio of a `VAD_END` is that of the packets since the `VAD_BEGIN` (`end_audio_of_small`).

A segment starts in the one window that the packet answered with `VAD_BEGIN` completes, and of
that window at most 511 samples came with earlier packets. So the audio of a `VAD_END` is the
stream from some position on, which lies behind the start of the segment by at most 1022 bytes
(`end_audio_clipped`): the head of the segment may be clipped by that much, the rest is there.
-/

namespace VadService

open Machine Window SileroVadEngine

/-! ## The edges of a window -/

/-- What a window without a maximal length does to the open segment and to the recorded ones,
by the trigger flags before and after it. -/
structure Trigger.Edges (c : VadConfig) (t t' : Trigger) : Prop where
  rises : t.triggered = false → t'.triggered = true →
    t'.currentSpeech.start = t.currentSample ∧ t'.speeches = t.speeches
  stays : t.triggered = true → t'.triggered = true →
    t'.currentSpeech.start = t.currentSpeech.start ∧ t'.speeches = t.speeches
  falls : t.triggered = true → t'.triggered = false →
    t'.speeches = t.speeches ++ [⟨t.currentSpeech.start, t.silenceStart c⟩]

theorem Trigger.Next.edges {a : WordArith} {c : VadConfig} {t t' : Trigger} {prob : F32}
    (hmax : c.maxSpeechSamples = F32.infinity) (h : Next a c t prob t') : Edges c t t' := by
  have hlimit : ¬ t.exceeds c := by
    unfold exceeds
    rw [hmax]
    simp [F32.infinity, FloatFormat.Value.not_inf_lt]
  cases h with
  | rise hp ht => exact ⟨fun _ _ => ⟨rfl, rfl⟩, fun hup => absurd (ht.symm.trans hup) (by decide),
      fun hup => absurd (ht.symm.trans hup) (by decide)⟩
  | extend hp ht => exact ⟨fun hdown => absurd (ht.symm.trans hdown) (by decide),
      fun _ _ => ⟨rfl, rfl⟩, fun _ hdown => absurd (ht.symm.trans hdown) (by decide)⟩
  | endAtPrev hp ht hex => exact absurd hex hlimit
  | split hp ht hex => exact absurd hex hlimit
  | cut hp ht hex => exact absurd hex hlimit
  | fall hp hl ht =>
      exact ⟨fun hdown => absurd (ht.symm.trans hdown) (by decide),
        fun _ hup => absurd hup (by simp [close]), fun _ _ => rfl⟩
  | mark hp hl ht =>
      exact ⟨fun hdown => absurd (ht.symm.trans hdown) (by decide),
        fun _ _ => ⟨start_mark a c t, rfl⟩,
        fun _ hdown => absurd (ht.symm.trans hdown) (by decide)⟩
  | keep hp hkeep =>
      exact ⟨fun hdown hup => absurd (hdown.symm.trans hup) (by decide),
        fun _ _ => ⟨rfl, rfl⟩, fun hup hdown => absurd (hup.symm.trans hdown) (by decide)⟩

/-- A window that leaves the trigger as it is. -/
theorem Trigger.edges_refl (c : VadConfig) (t : Trigger) : Edges c t t :=
  ⟨fun hdown hup => absurd (hdown.symm.trans hup) (by decide), fun _ _ => ⟨rfl, rfl⟩,
    fun hup hdown => absurd (hup.symm.trans hdown) (by decide)⟩

namespace Session

variable {H σ : Type}

/-! ## The position in the stream -/

/-- The iterator has counted the samples of the stream `S` that do not wait in the engine. -/
structure Counted (s : Session (SileroVadEngine σ) H) (S : List UInt8) : Prop where
  even : Even S.length
  regular : s.Regular
  cfg : s.vadEngine.vadIterator.cfg = VadConfig.new 16000 32
  range : s.trigger.Range
  inv : s.trigger.Inv
  position : 2 * (s.trigger.currentSample + s.vadEngine.buffer.length) = S.length

theorem counted_silero (id : String) (hdl : H) (session : σ) :
    (silero id hdl session).Counted [] where
  even := by simp
  regular := regular_silero id hdl session
  cfg := rfl
  range := Trigger.range_init
  inv := Trigger.inv_init
  position := rfl

variable {run : OrtRun σ} {s : Session (SileroVadEngine σ) H} {S : List UInt8}
  {packet : List UInt8 × ℕ}

theorem Counted.length_buffer_lt (h : Counted s S) : s.vadEngine.buffer.length < 512 := by
  have hsettled : s.vadEngine.buffer.length < s.vadEngine.windowSizeSamples := h.regular.settled
  rwa [h.regular.windowSize] at hsettled

/-- The samples of a packet are counted, or wait. -/
theorem Counted.step (h : Counted s S) (hraw : Even packet.1.length)
    (hB : (S.length + packet.1.length : ℤ) < 2 ^ 32) :
    Counted (audioStep (engine run) s packet).2 (S ++ packet.1) := by
  have hW : (VadConfig.new 16000 32).windowSizeSamples = 512 := rfl
  have ha := WordArith.bits32_exactBelow
  have hpos := h.position
  have hdiv := Nat.div_add_mod' (s.vadEngine.buffer.length + packet.1.length / 2) 512
  have hcount : (s.packetProbs run packet.1).length
      = (s.vadEngine.buffer.length + packet.1.length / 2) / 512 := by
    rw [length_packetProbs, h.regular.windowSize]
  have hlt : s.trigger.currentSample
      + (s.packetProbs run packet.1).length * (VadConfig.new 16000 32).windowSizeSamples
        < 2 ^ 31 := by
    rw [hW, hcount]
    omega
  have htrig := @trigger_processAudio _ _ run s packet
  rw [h.cfg] at htrig
  obtain ⟨hr, hcur⟩ := Trigger.run_range ha (by rw [hW]; omega) h.range _ hlt
  rw [← htrig] at hr hcur
  refine ⟨?_, h.regular.step packet, ?_, hr, ?_, ?_⟩
  · rw [List.length_append]
    exact h.even.add hraw
  · rw [vadEngine_audioStep]
    exact (VadIterator.final_predictStep_cfg run _ _).trans h.cfg
  · rw [htrig]
    exact Trigger.inv_run ha (by rw [hW]; omega) h.range h.inv _ hlt
  · rw [hcur, hW, hcount, length_buffer_processAudio, h.regular.windowSize, List.length_append]
    obtain ⟨k, hk⟩ := hraw
    push_cast
    omega

/-- The edge of a packet of at most one window. -/
theorem Counted.edges (h : Counted s S) (hone : OneWindow packet)
    (hB : (S.length + packet.1.length : ℤ) < 2 ^ 32) :
    Trigger.Edges (VadConfig.new 16000 32) s.trigger
      (audioStep (engine run) s packet).2.trigger := by
  have hW : (VadConfig.new 16000 32).windowSizeSamples = 512 := rfl
  have hmax : (VadConfig.new 16000 32).maxSpeechSamples = F32.infinity := by
    rw [← h.cfg]
    exact h.regular.maxSpeech
  have hcount : (s.packetProbs run packet.1).length
      = (s.vadEngine.buffer.length + packet.1.length / 2) / 512 := by
    rw [length_packetProbs, h.regular.windowSize]
  have hle := h.regular.packetProbs_le_one run hone.2
  have hpos := h.position
  rw [trigger_processAudio, h.cfg]
  cases hprobs : s.packetProbs run packet.1 with
  | nil => exact Trigger.edges_refl _ _
  | cons p ps =>
      rw [hprobs, List.length_cons] at hle hcount
      have hnil : ps = [] := List.length_eq_zero_iff.mp (by omega)
      have hlt : s.trigger.nextSample (VadConfig.new 16000 32) < 2 ^ 31 := by
        unfold Trigger.nextSample
        rw [hW]
        omega
      rw [hnil, final_cons, final_nil]
      exact (Trigger.step_next WordArith.bits32_exactBelow (by decide) h.range hlt).edges hmax

/-! ## The clip -/

/-- While a segment is open, the buffered packets are the stream from some position on, at
most 1022 bytes behind the start of the segment. -/
structure Clipped (s : Session (SileroVadEngine σ) H) (S : List UInt8) : Prop where
  counted : s.Counted S
  suffix : s.audioBuffer <:+ S
  opened : s.triggered = true →
    2 * s.trigger.currentSpeech.start + s.audioBuffer.length ≤ S.length ∧
      S.length ≤ 2 * s.trigger.currentSpeech.start + s.audioBuffer.length + 1022

theorem clipped_silero (id : String) (hdl : H) (session : σ) :
    (silero id hdl session).Clipped [] :=
  ⟨counted_silero id hdl session, List.suffix_rfl, fun h => absurd h Bool.false_ne_true⟩

/-- **Every small packet keeps the clip small.** -/
theorem Clipped.step (h : Clipped s S) (hone : OneWindow packet)
    (hB : (S.length + packet.1.length : ℤ) < 2 ^ 32) :
    Clipped (audioStep (engine run) s packet).2 (S ++ packet.1) := by
  have hcounted : Counted (audioStep (engine run) s packet).2 (S ++ packet.1) :=
    h.counted.step hone.1 hB
  have hedges : Trigger.Edges (VadConfig.new 16000 32) s.trigger
      (audioStep (engine run) s packet).2.trigger := h.counted.edges hone hB
  have hpos := h.counted.position
  have hbuffer := h.counted.length_buffer_lt
  have hanswer : s.answered (engine run) packet.1
      = edgeAnswer s.triggered (audioStep (engine run) s packet).2.triggered :=
    h.counted.regular.answered_eq hone.2
  have hbuf := audioStep_audioBuffer (engine run) s packet
  have hlen : ((S ++ packet.1).length : ℤ) = S.length + packet.1.length := by
    rw [List.length_append]
    push_cast
    rfl
  rw [hanswer] at hbuf
  cases hwas : s.triggered with
  | false =>
      cases hnow : (audioStep (engine run) s packet).2.triggered with
      | false =>
          rw [hwas, hnow] at hbuf
          refine ⟨hcounted, hbuf ▸ List.nil_suffix, fun hup => ?_⟩
          exact absurd (hnow.symm.trans hup) (by decide)
      | true =>
          -- the segment starts with the window the packet completes
          rw [hwas, hnow] at hbuf
          have hstart := (hedges.rises hwas hnow).1
          refine ⟨hcounted, hbuf ▸ List.suffix_append S packet.1, fun _ => ?_⟩
          rw [hstart, hbuf, hlen]
          dsimp only [edgeAnswer]
          omega
  | true =>
      cases hnow : (audioStep (engine run) s packet).2.triggered with
      | false =>
          rw [hwas, hnow] at hbuf
          refine ⟨hcounted, hbuf ▸ List.nil_suffix, fun hup => ?_⟩
          exact absurd (hnow.symm.trans hup) (by decide)
      | true =>
          rw [hwas, hnow] at hbuf
          have hstart := (hedges.stays hwas hnow).1
          have hopened := h.opened hwas
          refine ⟨hcounted, hbuf ▸ suffix_append h.suffix packet.1, fun _ => ?_⟩
          rw [hstart, hbuf, hlen]
          dsimp only [edgeAnswer]
          rw [List.length_append]
          push_cast
          omega

/-- Small packets. -/
theorem clipped_run (run : OrtRun σ) (id : String) (hdl : H) (session : σ)
    (packets : List (List UInt8 × ℕ)) (hone : ∀ p ∈ packets, OneWindow p)
    (hB : ((streamBytes packets).length : ℤ) < 2 ^ 32) :
    Clipped (final (audioStep (engine run)) (silero id hdl session) packets)
      (streamBytes packets) := by
  induction packets using List.reverseRecOn with
  | nil => exact clipped_silero id hdl session
  | append_singleton packets packet ih =>
      rw [streamBytes_append] at hB ⊢
      rw [List.length_append] at hB
      push_cast at hB
      have hprev := ih (fun p hp => hone p (by simp [hp])) (by omega)
      rw [final_append]
      exact hprev.step (hone packet (by simp)) hB

/-- The audio of a `VAD_END`, from the state before its packet. -/
theorem Clipped.end_audio (h : Clipped s S) (hone : OneWindow packet)
    (hB : (S.length + packet.1.length : ℤ) < 2 ^ 32)
    (hend : s.answered (engine run) packet.1 = .endSpeaking) :
    ∃ segment : Timestamp, ∃ p : ℕ,
      (audioStep (engine run) s packet).2.trigger.speeches = s.trigger.speeches ++ [segment] ∧
      0 ≤ segment.start ∧ segment.start < segment.end_ ∧
      2 * segment.end_ ≤ (S ++ packet.1).length ∧
      2 * segment.start ≤ p ∧ p ≤ 2 * segment.start + 1022 ∧
      s.audioBuffer ++ packet.1 = (S ++ packet.1).drop p := by
  have hcounted : Counted (audioStep (engine run) s packet).2 (S ++ packet.1) :=
    h.counted.step hone.1 hB
  have hedges : Trigger.Edges (VadConfig.new 16000 32) s.trigger
      (audioStep (engine run) s packet).2.trigger := h.counted.edges hone hB
  have hanswer : s.answered (engine run) packet.1
      = edgeAnswer s.triggered (audioStep (engine run) s packet).2.triggered :=
    h.counted.regular.answered_eq hone.2
  rw [hend] at hanswer
  have hflags : s.triggered = true ∧ (audioStep (engine run) s packet).2.triggered = false := by
    revert hanswer
    cases s.triggered <;> cases (audioStep (engine run) s packet).2.triggered <;>
      simp [edgeAnswer]
  obtain ⟨hwas, hnow⟩ := hflags
  have hspeeches := hedges.falls hwas hnow
  obtain ⟨hafter, hbefore⟩ := h.opened hwas
  have hvalid := (hcounted.inv.idle hnow).2.valid
    ⟨s.trigger.currentSpeech.start, s.trigger.silenceStart (VadConfig.new 16000 32)⟩ (by
      rw [hspeeches]
      simp)
  have hpos := hcounted.position
  obtain ⟨pre, hpre⟩ := h.suffix
  have hlen : (pre.length : ℤ) + s.audioBuffer.length = S.length := by
    rw [← hpre, List.length_append]
    push_cast
    ring
  refine ⟨_, pre.length, hspeeches, hvalid.1, hvalid.2.1, ?_, by dsimp only; omega,
    by dsimp only; omega, ?_⟩
  · rw [← hpos]
    dsimp only
    have hle := hvalid.2.2
    dsimp only at hle
    omega
  · rw [← hpre, List.append_assoc, List.drop_left]

/-! ## The protocol -/

/-- The trigger of the engine is up. -/
def inside (e : SileroVadEngine σ) : Bool := e.vadIterator.isTriggered

variable {packets : List (List UInt8 × ℕ)}

/-- A session tells of every edge of its trigger, if its packets are of one window at most. -/
theorem tellsEdge_of_small (run : OrtRun σ) (id : String) (hdl : H) (session : σ)
    (hone : ∀ p ∈ packets, OneWindow p) :
    Along (audioStep (engine run)) (TellsEdge (engine run) inside) (silero id hdl session)
      packets := by
  rw [along_iff_forall]
  intro k hk
  have hregular := regular_run run id hdl session (packets.take k)
  exact hregular.answered_eq (hone _ (List.getElem_mem hk)).2

theorem protocol_of_small (run : OrtRun σ) (id : String) (hdl : H) (session : σ)
    (hone : ∀ p ∈ packets, OneWindow p) :
    protocol.IsPrefix ((silero id hdl session).emitted (engine run) packets) :=
  protocol_of_edges rfl (tellsEdge_of_small run id hdl session hone)

/-- The audio of a `VAD_END` is that of the packets since the `VAD_BEGIN`. -/
theorem end_audio_of_small (run : OrtRun σ) (id : String) (hdl : H) (session : σ)
    {before : List (List UInt8 × ℕ)} (hone : ∀ p ∈ before ++ [packet], OneWindow p)
    (hB : ((streamBytes (before ++ [packet])).length : ℤ) < 2 ^ 32)
    (hs : s = final (audioStep (engine run)) (silero id hdl session) before)
    (hend : (audioStep (engine run) s packet).1.vadState = "VAD_END") :
    ∃ earlier first rest,
      (silero id hdl session).transcript (engine run) before = earlier ++ first :: rest ∧
      first.1 = "VAD_BEGIN" ∧ (∀ m ∈ rest, m.1 = "SPEAKING") ∧
      Base64.read (audioStep (engine run) s packet).1.vadAudio
        = ((first :: rest).map Prod.snd).flatten ++ packet.1 :=
  end_audio_of_edges id hdl rfl (tellsEdge_of_small run id hdl session hone) (by omega) hs hend

/-! ## What is missing from the audio -/

/-- **At most 1022 bytes of a segment are clipped.** In every run of a session with packets of
at most one window and less than `2^32` bytes, a `VAD_END` records one segment, and its audio
is the stream from some position to the end of its packet. This position is that of the start
of the segment or up to 1022 bytes behind it. -/
theorem end_audio_clipped (run : OrtRun σ) (id : String) (hdl : H) (session : σ)
    (before : List (List UInt8 × ℕ)) (packet : List UInt8 × ℕ)
    (hone : ∀ p ∈ before ++ [packet], OneWindow p)
    (hB : ((streamBytes (before ++ [packet])).length : ℤ) < 2 ^ 32)
    {s s' : Session (SileroVadEngine σ) H} {r : VadResponse}
    (hs : s = final (audioStep (engine run)) (silero id hdl session) before)
    (hstep : audioStep (engine run) s packet = (r, s')) (hend : r.vadState = "VAD_END") :
    ∃ segment : Timestamp, ∃ p : ℕ, s'.trigger.speeches = s.trigger.speeches ++ [segment] ∧
      0 ≤ segment.start ∧ segment.start < segment.end_ ∧
      2 * segment.end_ ≤ (streamBytes (before ++ [packet])).length ∧
      2 * segment.start ≤ p ∧ p ≤ 2 * segment.start + 1022 ∧
      Base64.read r.vadAudio = (streamBytes (before ++ [packet])).drop p := by
  rw [streamBytes_append] at hB ⊢
  rw [List.length_append] at hB
  push_cast at hB
  have hclipped : Clipped s (streamBytes before) := hs ▸ clipped_run run id hdl session before
    (fun p hp => hone p (by simp [hp])) (by omega)
  have hr : (audioStep (engine run) s packet).1 = r := congrArg Prod.fst hstep
  have hs' : (audioStep (engine run) s packet).2 = s' := congrArg Prod.snd hstep
  have hlabel : (audioStep (engine run) s packet).1.vadState = "VAD_END" := hr ▸ hend
  have hanswer : s.answered (engine run) packet.1 = .endSpeaking := by
    rw [audioStep_vadState] at hlabel
    exact VadState.label_injective hlabel
  have hbuf := hclipped.suffix.length_le
  have haudio : Base64.read r.vadAudio = s.audioBuffer ++ packet.1 := by
    have hraw : (audioStep (engine run) s packet).1.vadAudio
        = encodeAll (s.audioBuffer ++ packet.1) := vadAudio_of_end hlabel
    rw [← hr, hraw]
    apply read_encodeAll
    rw [List.length_append]
    omega
  rw [haudio, ← hs']
  exact hclipped.end_audio (hone packet (by simp)) hB hanswer

/-- Packets of one window play one probability each. -/
theorem Plays.windows {s : Session (SileroVadEngine (List F32)) H} {t : Trigger}
    {script : List F32} {waiting : ℕ} (h : s.Plays t script waiting) (hwaiting : waiting < 512)
    (b : UInt8) {n : ℕ} (hn : n ≤ script.length) :
    (final (audioStep (engine VadIterator.scripted)) s
        (List.replicate n (constPacket b 1024))).Plays
      (final (Trigger.step WordArith.bits32 (VadConfig.new 16000 32)) t (script.take n))
      (script.drop n) waiting := by
  induction n generalizing s t script with
  | zero => exact h
  | succ n ih =>
      have hlen := length_constPacket b 1024
      have hone := h.step (constPacket b 1024) (m := 1) (by rw [hlen]; omega) (by omega)
      rw [hlen, show (waiting + 1024 / 2) % 512 = waiting by omega] at hone
      have hrest := ih hone (by rw [List.length_drop]; omega)
      cases script with
      | nil => exact absurd hn (by simp)
      | cons p script => exact hrest

/-- The packets of a segment, cut so that 511 samples of the first window arrive early. -/
def clippedPackets : List (List UInt8 × ℕ) :=
  constPacket 1 1022 :: List.replicate 12 (constPacket 1 1024)

theorem end_audio_clipped_packets :
    ∃ segment : Timestamp, ∃ p : ℕ, 2 * segment.start ≤ p ∧ p ≤ 2 * segment.start + 1022 ∧
      Base64.read (audioStep (engine VadIterator.scripted)
        (final (audioStep (engine VadIterator.scripted)) (silero "" () speechThenSilence)
          clippedPackets) (constPacket 0 1024)).1.vadAudio
        = (streamBytes (clippedPackets ++ [constPacket 0 1024])).drop p := by
  have l1 := length_constPacket 1 1022
  have l2 := length_constPacket 1 1024
  have l3 := length_constPacket 0 1024
  have hplays := ((plays_silero "" () speechThenSilence).step (constPacket 1 1022) (m := 0)
    (by rw [l1]) (by decide)).windows (by rw [l1]; decide) 1 (n := 12) (by decide)
  have hanswer := hplays.answered (constPacket 0 1024) (m := 1) (by rw [l1, l3]) (by decide)
  have hend : (audioStep (engine VadIterator.scripted)
      (final (audioStep (engine VadIterator.scripted)) (silero "" () speechThenSilence)
        clippedPackets) (constPacket 0 1024)).1.vadState = "VAD_END" := by
    rw [audioStep_vadState, clippedPackets, final_cons, hanswer]
    decide +kernel
  have hone : ∀ p ∈ clippedPackets ++ [constPacket 0 1024], OneWindow p := by
    intro p hp
    rcases List.mem_append.mp hp with hp | hp
    · rcases List.mem_cons.mp hp with rfl | hp
      · rw [OneWindow, l1]
        decide
      · rw [List.eq_of_mem_replicate hp, OneWindow, l2]
        decide
    · rw [List.mem_singleton.mp hp, OneWindow, l3]
      decide
  have hB : ((streamBytes (clippedPackets ++ [constPacket 0 1024])).length : ℤ) < 2 ^ 32 := by
    rw [streamBytes_append, List.length_append, l3, streamBytes, List.length_flatten,
      clippedPackets, List.map_cons, List.map_cons, List.map_replicate, List.map_replicate, l1,
      l2]
    decide
  obtain ⟨segment, p, -, -, -, -, hle, hclip, haudio⟩ := end_audio_clipped VadIterator.scripted
    "" () speechThenSilence clippedPackets (constPacket 0 1024) hone hB rfl Prod.mk.eta.symm hend
  exact ⟨segment, p, hle, hclip, haudio⟩

end Session

end VadService
