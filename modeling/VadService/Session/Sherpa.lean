import VadService.Session.Edges
import VadService.Sherpa.Blocks
import VadService.Sherpa.Refines

set_option autoImplicit false

/-! # Sessions with the second engine

A call of `SherpaVadDetector` merges the results of its frames. After an utterance has begun
or ended, the counters are at their start, and thirteen more frames do not get them far enough
for the next event (`Young`). So a call of at most fourteen frames has one event at most, and
reports it (`processFrame_edge`). A session whose packets complete one frame at least, and
bring fourteen at most, therefore keeps the protocol.
-/

namespace VadService

open Machine Window

/-! ## The counters after an event -/

namespace Phase

/-- `n` frames after an utterance has begun or ended. -/
inductive Young : Phase → ℕ → Prop
  | silent {p : Phase} {n : ℕ} (duration : ℤ) : p.state = .inactivity →
      p.recognitionDuration = F32.ofInt duration → 0 ≤ duration → duration ≤ 20 * n → Young p n
  | turning {p : Phase} {n : ℕ} : p.state = .inactivityTransition → 13 ≤ n → Young p n
  | speaking {p : Phase} {n : ℕ} (silence : ℤ) : p.state = .activity →
      p.silenceDuration = F32.ofInt silence → 0 ≤ silence → silence ≤ 20 * (n + 1) → Young p n

theorem young_setState : Young (setState .inactivity) 0 := .silent 0 rfl rfl le_rfl (by decide)

theorem young_begin (active : Bool) : Young (begin active) 0 := by
  cases active with
  | true => exact .speaking 0 rfl rfl le_rfl (by decide)
  | false => exact .speaking 20 rfl (begin_silence false) (by decide) (by decide)

/-- **A young phase gets older by a frame**, and does not begin or end an utterance. -/
theorem Young.next {p : Phase} {n : ℕ} (h : Young p n) (hn : n < 13) (active : Bool) :
    Young (p.next (F32.ofInt 10) active) (n + 1) ∧ p.state ≠ .inactivityTransition ∧
      (p.state = .activity → (p.next (F32.ofInt 10) active).state = .activity) := by
  cases h with
  | silent duration hstate hrec h0 hle =>
      have hrange : 0 ≤ duration ∧ duration < 250 := by omega
      have hbounds : 0 ≤ recognised 10 duration active ∧
          recognised 10 duration active ≤ 20 * (n + 1 : ℕ) := by
        unfold recognised
        push_cast
        split_ifs <;> omega
      refine ⟨?_, by simp [hstate], by simp [hstate]⟩
      rw [next_waiting hrec (by decide) hrange hstate]
      by_cases hleaves : 250 ≤ recognised 10 duration active
      · rw [if_pos hleaves]
        exact .turning rfl (by omega)
      · rw [if_neg hleaves]
        exact .silent _ (by rw [recognise_state, hstate])
          (recognise_recognised hrec (by decide) hrange active) hbounds.1 hbounds.2
  | turning hstate hle => omega
  | speaking silence hstate hsil h0 hle =>
      have hlisten := listen_silence hsil h0 (by omega) active
      have hbounds : 0 ≤ listened silence active ∧
          listened silence active ≤ 20 * ((n + 1 : ℕ) + 1) := by
        unfold listened
        push_cast
        split_ifs <;> omega
      have hsmall : |listened silence active| < 2 ^ 24 := by
        rw [abs_of_nonneg hbounds.1]
        omega
      have hgoes : ¬ voiceStopDuration.le (p.listen active).silenceDuration = true := by
        rw [hlisten, voiceStopDuration, F32.le_ofInt (by decide) hsmall, decide_eq_true_eq]
        omega
      rw [next_activity hstate, if_neg hgoes]
      refine ⟨.speaking _ (by rw [listen_state, hstate]) hlisten hbounds.1 hbounds.2,
        by simp [hstate], fun _ => by rw [listen_state, hstate]⟩

end Phase

/-! ## Calls with one event -/

namespace SherpaVadDetector

open Session (edgeAnswer)

variable {σ : Type} (run : OrtRun σ)

/-- The detector is in an utterance. -/
def inside (d : SherpaVadDetector σ) : Bool := decide (d.state = .activity)

@[simp] theorem withMargin_inside (d : SherpaVadDetector σ) (marginBuffer : List F32) :
    (d.withMargin marginBuffer).inside = d.inside := rfl

/-- A frame reports what it does. -/
theorem processInternal_edgeAnswer (d : SherpaVadDetector σ) (frame : List F32) :
    (d.processInternal run frame).1.state
      = edgeAnswer d.inside (d.processInternal run frame).2.inside := by
  have hedge := processInternal_edge run d frame
  rw [inside, inside]
  generalize (d.processInternal run frame).1.state = r at hedge ⊢
  generalize (d.processInternal run frame).2.state = now at hedge ⊢
  generalize d.state = was at hedge ⊢
  cases hedge with
  | quiet hwas hnow =>
      rw [decide_eq_false hwas, decide_eq_false hnow]
      rfl
  | begins => rfl
  | goesOn => rfl
  | ends => rfl

/-- An event leaves the counters at their start. -/
theorem young_of_event {d : SherpaVadDetector σ} {frame : List F32}
    (h : d.inside ≠ (d.processInternal run frame).2.inside) :
    (d.processInternal run frame).2.toPhase.Young 0 := by
  obtain ⟨hnext, -, -⟩ := processInternal_next run d frame
  have hstate : (d.processInternal run frame).2.state
      = (d.toPhase.next frameDuration10 (d.hears run frame)).state :=
    congrArg Phase.state hnext
  rw [inside, inside, hstate] at h
  rw [hnext]
  generalize d.hears run frame = active at h ⊢
  cases hd : d.state with
  | inactivity =>
      -- the frame cannot have begun an utterance
      refine absurd ?_ h
      rw [Phase.next_inactivity hd]
      split_ifs
      · simp [hd, Phase.setState]
      · simp [hd]
  | inactivityTransition =>
      rw [Phase.next_transition hd]
      exact Phase.young_begin active
  | activity =>
      rw [Phase.next_activity hd] at h ⊢
      split_ifs at h ⊢
      · exact Phase.young_setState
      · exact absurd (by simp [hd]) h

/-- A frame after an event is not another one. -/
theorem young_processInternal {d : SherpaVadDetector σ} {n : ℕ} (h : d.toPhase.Young n)
    (hn : n < 13) (frame : List F32) :
    (d.processInternal run frame).2.toPhase.Young (n + 1) ∧
      (d.processInternal run frame).2.inside = d.inside := by
  obtain ⟨hnext, hbegin, hend⟩ := processInternal_next run d frame
  obtain ⟨hyoung, hturn, hstays⟩ := h.next hn (d.hears run frame)
  refine ⟨hnext ▸ hyoung, ?_⟩
  have hnow : (d.processInternal run frame).2.state
      = (d.toPhase.next frameDuration10 (d.hears run frame)).state :=
    congrArg Phase.state hnext
  have hedge := processInternal_edge run d frame
  rw [inside, inside]
  cases hd : d.state with
  | activity => rw [hnow.trans (hstays hd)]
  | inactivityTransition => exact absurd hd hturn
  | inactivity =>
      rw [hd] at hedge
      generalize (d.processInternal run frame).1.state = r at hedge
      generalize (d.processInternal run frame).2.state = now at hedge ⊢
      cases hedge with
      | quiet _ hquiet => simpa using hquiet

/-- The frames after an event change nothing, neither the state nor the merged result. -/
theorem run_after_event {d : SherpaVadDetector σ} {n : ℕ} (h : d.toPhase.Young n)
    (frames : List (List F32)) (hn : n + frames.length ≤ 13) (res : VadResult) :
    (outputs (processInternal run) d frames).foldl merge (res, true) = (res, true) ∧
      (final (processInternal run) d frames).inside = d.inside := by
  induction frames generalizing d n with
  | nil => exact ⟨rfl, rfl⟩
  | cons frame frames ih =>
      rw [List.length_cons] at hn
      obtain ⟨hyoung, hinside⟩ := young_processInternal run h (by omega) frame
      obtain ⟨hmerge, hfinal⟩ := ih hyoung (by omega)
      have hstate := processInternal_edgeAnswer run d frame
      have hsame : merge (res, true) (d.processInternal run frame).1 = (res, true) := by
        rw [merge, hstate, hinside]
        cases d.inside <;> rfl
      rw [outputs_cons, List.foldl_cons, hsame, hmerge, final_cons, hfinal, hinside]
      exact ⟨rfl, rfl⟩

/-- **The frames of a call report its one event.** -/
theorem run_edge (d : SherpaVadDetector σ) (frames : List (List F32)) (hn : frames.length ≤ 14)
    (last : VadResult) (hidle : d.inside = false → last.state = .silence)
    (hopen : frames = [] → d.inside = true → last.state = .speaking) :
    ((outputs (processInternal run) d frames).foldl merge (last, false)).1.state
      = edgeAnswer d.inside (final (processInternal run) d frames).inside := by
  induction frames generalizing d last with
  | nil =>
      show last.state = edgeAnswer d.inside d.inside
      cases hd : d.inside with
      | false => exact hidle hd
      | true => exact hopen rfl hd
  | cons frame frames ih =>
      rw [List.length_cons] at hn
      have hstate := processInternal_edgeAnswer run d frame
      rw [outputs_cons, List.foldl_cons, final_cons]
      by_cases hevent : d.inside = (d.processInternal run frame).2.inside
      · rw [← hevent] at hstate
        rw [hevent]
        cases hd : d.inside with
        | false =>
            -- the frame is silent, and nothing is merged
            rw [hd] at hstate hevent
            have hsame : merge (last, false) (d.processInternal run frame).1 = (last, false) := by
              rw [merge, hstate]
              rfl
            rw [hsame]
            exact ih _ (by omega) last (fun _ => hidle hd)
              (fun _ hnow => absurd (hevent.trans hnow) (by decide))
        | true =>
            rw [hd] at hstate hevent
            have hmerged : merge (last, false) (d.processInternal run frame).1
                = ((d.processInternal run frame).1, false) := by
              rw [merge, hstate]
              rfl
            rw [hmerged]
            exact ih _ (by omega) _ (fun hnow => absurd (hevent.trans hnow) (by decide))
              (fun _ _ => hstate)
      · have hyoung := young_of_event run hevent
        obtain ⟨hmerge, hfinal⟩ := run_after_event run hyoung frames (by omega)
          (d.processInternal run frame).1
        have hmerged : merge (last, false) (d.processInternal run frame).1
            = ((d.processInternal run frame).1, true) := by
          rw [merge, hstate]
          revert hevent
          cases d.inside <;> cases (d.processInternal run frame).2.inside <;> simp [edgeAnswer]
        rw [hmerged, hmerge, hfinal]
        exact hstate

/-- **A call of at most fourteen frames reports what it does.** -/
theorem processFrame_edge {d : SherpaVadDetector σ} {audioFrame : List F32}
    (hpos : 0 < d.blocks audioFrame) (hle : d.blocks audioFrame ≤ 14) :
    (d.processFrame run audioFrame).1.state
      = edgeAnswer d.inside (d.processFrame run audioFrame).2.inside := by
  have hlen := d.length_handed audioFrame
  rw [processFrame_result run hpos, processFrame_detector, withMargin_inside]
  refine run_edge run d (d.handed audioFrame) (by omega) nothingYet (fun _ => rfl) ?_
  intro hnil
  rw [hnil, List.length_nil] at hlen
  omega

theorem engine_processFrame : (engine run).processFrame = processFrame run := by
  rw [engine]

/-- Between the calls, fewer samples wait than make a frame. -/
theorem blocks_bounds {d : SherpaVadDetector σ} {audioFrame : List F32}
    (hmargin : d.marginBuffer.length < d.frameSizeSamples)
    (hlow : d.frameSizeSamples ≤ audioFrame.length)
    (hhigh : audioFrame.length ≤ 14 * d.frameSizeSamples) :
    d.blocks audioFrame
        = ((d.marginBuffer.length + audioFrame.length) / d.frameSizeSamples : ℕ) ∧
      0 < d.blocks audioFrame ∧ d.blocks audioFrame ≤ 14 := by
  have hF := d.frameSize_pos
  have hpos : 0 < (d.marginBuffer.length + audioFrame.length) / d.frameSizeSamples :=
    Nat.div_pos (by omega) hF
  have hle : (d.marginBuffer.length + audioFrame.length) / d.frameSizeSamples < 15 := by
    rw [Nat.div_lt_iff_lt_mul hF]
    omega
  unfold blocks
  generalize (d.marginBuffer.length + audioFrame.length) / d.frameSizeSamples = n at hpos hle ⊢
  have hexact : WordArith.bits32.toSigned (n : ℤ) = n :=
    WordArith.bits32_exactBelow.toSigned n (by omega) (by omega)
  rw [hexact]
  omega

theorem length_margin_processFrame {d : SherpaVadDetector σ} {audioFrame : List F32}
    (hmargin : d.marginBuffer.length < d.frameSizeSamples)
    (hlow : d.frameSizeSamples ≤ audioFrame.length)
    (hhigh : audioFrame.length ≤ 14 * d.frameSizeSamples) :
    (d.processFrame run audioFrame).2.marginBuffer.length < d.frameSizeSamples := by
  obtain ⟨hblocks, -, -⟩ := blocks_bounds hmargin hlow hhigh
  have hmod := Nat.mod_lt (d.marginBuffer.length + audioFrame.length) d.frameSize_pos
  have hdiv := Nat.div_add_mod' (d.marginBuffer.length + audioFrame.length) d.frameSizeSamples
  rw [processFrame_detector, withMargin_margin, List.length_drop, List.length_append, hblocks,
    Int.toNat_natCast]
  omega

end SherpaVadDetector

/-! ## Sessions -/

namespace Session

open SherpaVadDetector

variable {H σ : Type} {run : OrtRun σ}

/-- The packet completes a frame, and brings fourteen at most. -/
def OneEvent (frameSize : ℕ) (packet : List UInt8 × ℕ) : Prop :=
  frameSize ≤ packet.1.length / 2 ∧ packet.1.length / 2 ≤ 14 * frameSize

/-- What holds between the packets of a session with frames of `frameSize` samples. -/
structure Framed (frameSize : ℕ) (s : Session (SherpaVadDetector σ) H) : Prop where
  frameSize_eq : s.vadEngine.frameSizeSamples = frameSize
  margin : s.vadEngine.marginBuffer.length < frameSize
  synced : Synced SherpaVadDetector.inside s

theorem framed_new (id : String) (hdl : H) (session : σ) (threshold : F32) (sampleRate : ℤ)
    (h : 0 < (sampleRate * 20).tdiv 1000) :
    Framed ((sampleRate * 20).tdiv 1000).toNat
      (new id hdl (SherpaVadDetector.new session threshold sampleRate h)) where
  frameSize_eq := rfl
  margin := (SherpaVadDetector.new session threshold sampleRate h).frameSize_pos
  synced := rfl

/-- **A packet of at most one event is answered with its edge.** -/
theorem Framed.step {frameSize : ℕ} {s : Session (SherpaVadDetector σ) H}
    {packet : List UInt8 × ℕ} (h : Framed frameSize s) (hsize : OneEvent frameSize packet) :
    TellsEdge (SherpaVadDetector.engine run) SherpaVadDetector.inside s packet ∧
      Framed frameSize (audioStep (SherpaVadDetector.engine run) s packet).2 := by
  obtain ⟨hlow, hhigh⟩ := hsize
  rw [← length_toFloatAudio, ← h.frameSize_eq] at hlow hhigh
  have hmargin := h.margin
  rw [← h.frameSize_eq] at hmargin
  obtain ⟨-, hpos, hle⟩ := blocks_bounds hmargin hlow hhigh
  have hedge : TellsEdge (SherpaVadDetector.engine run) SherpaVadDetector.inside s packet :=
    h.synced.tellsEdge (by rw [engine_processFrame, processFrame_edge run hpos hle])
  have hengine : (audioStep (SherpaVadDetector.engine run) s packet).2.vadEngine
      = (s.vadEngine.processFrame run (toFloatAudio packet.1)).2 :=
    audioStep_vadEngine (SherpaVadDetector.engine run) s packet
  refine ⟨hedge, ?_, ?_, hedge.synced⟩
  · rw [hengine]
    exact (processFrame_sizes run _ _).frameSize.trans h.frameSize_eq
  · rw [hengine, ← h.frameSize_eq]
    exact length_margin_processFrame run hmargin hlow hhigh

theorem Framed.along {frameSize : ℕ} {s : Session (SherpaVadDetector σ) H}
    {packets : List (List UInt8 × ℕ)} (h : Framed frameSize s)
    (hsize : ∀ p ∈ packets, OneEvent frameSize p) :
    Along (audioStep (SherpaVadDetector.engine run))
      (TellsEdge (SherpaVadDetector.engine run) SherpaVadDetector.inside) s packets := by
  induction packets generalizing s with
  | nil => trivial
  | cons packet packets ih =>
      obtain ⟨hedge, hnext⟩ := h.step (hsize packet (by simp))
      exact ⟨hedge, ih hnext fun p hp => hsize p (by simp [hp])⟩

/-- **A session with the second engine keeps the protocol, and its audio is exact**, if every
packet has the samples of one frame at least and of fourteen at most: its states form a prefix
of a word of the protocol, and the audio of a `VAD_END` is that of the packets since the
`VAD_BEGIN`. -/
theorem sherpa_segments (run : OrtRun σ) (id : String) (hdl : H) (session : σ) (threshold : F32)
    (sampleRate : ℤ) (h : 0 < (sampleRate * 20).tdiv 1000) (packets : List (List UInt8 × ℕ))
    (hsize : ∀ p ∈ packets, OneEvent ((sampleRate * 20).tdiv 1000).toNat p)
    (hB : (streamBytes packets).length < 2 ^ 32) :
    let V := SherpaVadDetector.engine run
    let s₀ := new id hdl (SherpaVadDetector.new session threshold sampleRate h)
    protocol.IsPrefix (s₀.emitted V packets) ∧
    ∀ before packet after, packets = before ++ packet :: after →
      (audioStep V (final (audioStep V) s₀ before) packet).1.vadState = "VAD_END" →
      ∃ earlier first rest, s₀.transcript V before = earlier ++ first :: rest ∧
        first.1 = "VAD_BEGIN" ∧ (∀ m ∈ rest, m.1 = "SPEAKING") ∧
        Base64.read (audioStep V (final (audioStep V) s₀ before) packet).1.vadAudio
          = ((first :: rest).map Prod.snd).flatten ++ packet.1 := by
  intro V s₀
  have hframed := framed_new id hdl session threshold sampleRate h
  refine ⟨protocol_of_edges rfl (hframed.along hsize), ?_⟩
  rintro before packet after rfl hend
  have hprefix : ∀ p ∈ before ++ [packet], OneEvent ((sampleRate * 20).tdiv 1000).toNat p := by
    intro p hp
    refine hsize p ?_
    rw [List.append_cons]
    exact List.mem_append_left after hp
  refine end_audio_of_edges id hdl rfl (hframed.along hprefix) ?_ rfl hend
  rw [List.append_cons, streamBytes, List.map_append, List.flatten_append, List.length_append]
    at hB
  exact lt_of_le_of_lt (Nat.le_add_right _ _) hB

/-- An utterance in packets of one frame, one of a frame and a half, and packets of four. -/
theorem sherpa_segments_packets :
    let packets := List.replicate 14 (constPacket 0 640) ++ [constPacket 0 960]
      ++ List.replicate 8 (constPacket 0 2560)
    protocol.IsPrefix ((new "" () (SherpaVadDetector.withScript utteranceScript)).emitted
      (SherpaVadDetector.engine VadIterator.scripted) packets) := by
  intro packets
  have hsize : ∀ p ∈ packets, p.1.length = 640 ∨ p.1.length = 960 ∨ p.1.length = 2560 := by
    intro p hp
    rcases List.mem_append.mp hp with hp | hp
    · rcases List.mem_append.mp hp with hp | hp
      · rw [List.eq_of_mem_replicate hp]
        exact Or.inl (length_constPacket 0 640)
      · rw [List.mem_singleton.mp hp]
        exact Or.inr (Or.inl (length_constPacket 0 960))
    · rw [List.eq_of_mem_replicate hp]
      exact Or.inr (Or.inr (length_constPacket 0 2560))
  refine (sherpa_segments VadIterator.scripted "" () utteranceScript frameThreshold 16000
    frameSize_default packets ?_ ?_).1
  · intro p hp
    rw [OneEvent]
    rcases hsize p hp with h | h | h
    · rw [h]
      decide
    · rw [h]
      decide
    · rw [h]
      decide
  · decide +kernel

end Session

end VadService
