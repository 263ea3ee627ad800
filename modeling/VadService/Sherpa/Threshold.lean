import VadService.Sherpa.Refines
import VadService.Sherpa.Blocks
import VadService.Lib.Lockstep

set_option autoImplicit false

/-! # The threshold of the detector

The constructor hands its threshold to the `VadIterator`, whose trigger the detector ignores;
`process_internal` compares the probabilities with `0.5f`. So the states depend on the bits
`0.5f <= p` only (`twin_processFrame`), and the threshold has no influence on them.
-/

namespace VadService

open Machine Window FloatFormat

namespace SherpaVadDetector

/-! ## The result of a frame, by its edge -/

/-- The edge of a frame determines its result. -/
theorem Edge.result_eq {was now : GoState} {r r' : VadState} (h : Edge was r now)
    (h' : Edge was r' now) : r = r' := by
  cases h with
  | quiet hwas hnow =>
      cases h' with
      | quiet _ _ => rfl
      | begins => exact absurd rfl hnow
      | goesOn => exact absurd rfl hwas
      | ends => exact absurd rfl hwas
  | begins =>
      cases h' with
      | quiet _ hnow => exact absurd rfl hnow
      | begins => rfl
  | goesOn =>
      cases h' with
      | quiet hwas _ => exact absurd rfl hwas
      | goesOn => rfl
  | ends =>
      cases h' with
      | quiet hwas _ => exact absurd rfl hwas
      | ends => rfl

/-! ## Detectors that hear the same bits -/

/-- A model that returns the probabilities of a sequence, one for each window. -/
def counted (p : ℕ → F32) : OrtRun ℕ := fun _ state _ k => ((p k, state), k + 1)

/-- The bit that `process_internal` makes of a probability. -/
def heardBit (prob : F32) : Bool := frameThreshold.le prob

/-- The two detectors are in the same state, but for what their iterators make of the
probabilities. -/
structure Twin (d e : SherpaVadDetector ℕ) : Prop where
  phase : d.toPhase = e.toPhase
  margin : d.marginBuffer = e.marginBuffer
  frameSize : d.frameSizeSamples = e.frameSizeSamples
  session : d.vad.session = e.vad.session

theorem Twin.withMargin {d e : SherpaVadDetector ℕ} (h : Twin d e) (marginBuffer : List F32) :
    Twin (d.withMargin marginBuffer) (e.withMargin marginBuffer) :=
  ⟨h.phase, rfl, h.frameSize, h.session⟩

/-- New detectors are twins, whatever their thresholds. -/
theorem twin_new (t t' : F32) (sampleRate : ℤ) (h : 0 < (sampleRate * 20).tdiv 1000) :
    Twin (new 0 t sampleRate h) (new 0 t' sampleRate h) := ⟨rfl, rfl, rfl, rfl⟩

theorem hears_counted (p : ℕ → F32) (d : SherpaVadDetector ℕ) (samples : List F32) :
    d.hears (counted p) samples = heardBit (p d.vad.session) := rfl

theorem session_processInternal (p : ℕ → F32) (d : SherpaVadDetector ℕ) (samples : List F32) :
    (d.processInternal (counted p) samples).2.vad.session = d.vad.session + 1 := by
  rw [(processInternal_took (counted p) d samples).vad]
  rfl

section Twins

variable {p q : ℕ → F32} (hbits : ∀ k, heardBit (p k) = heardBit (q k))

include hbits

/-- **A frame keeps twins twins**, and they return the same state. -/
theorem twin_processInternal (d e : SherpaVadDetector ℕ) (samples : List F32) (h : Twin d e) :
    (d.processInternal (counted p) samples).1.state
        = (e.processInternal (counted q) samples).1.state ∧
      Twin (d.processInternal (counted p) samples).2 (e.processInternal (counted q) samples).2 := by
  have htook := processInternal_took (counted p) d samples
  have htook' := processInternal_took (counted q) e samples
  have hphase : (d.processInternal (counted p) samples).2.toPhase
      = (e.processInternal (counted q) samples).2.toPhase := by
    calc (d.processInternal (counted p) samples).2.toPhase
        = d.toPhase.next frameDuration10 (heardBit (p d.vad.session)) := by
          rw [(processInternal_next (counted p) d samples).1, hears_counted]
      _ = e.toPhase.next frameDuration10 (heardBit (q e.vad.session)) := by
          rw [h.phase, h.session, hbits]
      _ = (e.processInternal (counted q) samples).2.toPhase := by
          rw [(processInternal_next (counted q) e samples).1, hears_counted]
  constructor
  · have hedge := processInternal_edge (counted p) d samples
    have hedge' := processInternal_edge (counted q) e samples
    rw [hphase, h.phase] at hedge
    exact hedge.result_eq hedge'
  · refine ⟨hphase, ?_, ?_, ?_⟩
    · rw [htook.margin, htook'.margin, h.margin]
    · rw [htook.frameSize, htook'.frameSize, h.frameSize]
    · rw [session_processInternal, session_processInternal, h.session]

end Twins

/-! ## Merging -/

/-- What is merged depends on the states of the results only. -/
theorem merge_state {last last' : VadResult × Bool} {r r' : VadResult}
    (hlast : last.1.state = last'.1.state ∧ last.2 = last'.2) (h : r.state = r'.state) :
    (merge last r).1.state = (merge last' r').1.state ∧
      (merge last r).2 = (merge last' r').2 := by
  unfold merge
  rw [h, hlast.2]
  split_ifs
  · exact ⟨h, rfl⟩
  · exact ⟨h, rfl⟩
  · exact hlast

/-- Merging a single result keeps its state. -/
theorem merge_nothingYet (r : VadResult) : (merge (nothingYet, false) r).1.state = r.state := by
  obtain ⟨state, probability, timestamp⟩ := r
  cases state <;> rfl

theorem foldl_merge_state {rs rs' : List VadResult}
    (h : rs.map VadResult.state = rs'.map VadResult.state) (last last' : VadResult × Bool)
    (hlast : last.1.state = last'.1.state ∧ last.2 = last'.2) :
    (rs.foldl merge last).1.state = (rs'.foldl merge last').1.state := by
  induction rs generalizing rs' last last' with
  | nil =>
      rw [List.map_nil] at h
      rw [List.map_eq_nil_iff.mp h.symm]
      exact hlast.1
  | cons r rs ih =>
      cases rs' with
      | nil => cases h
      | cons r' rs' =>
          obtain ⟨hhead, htail⟩ := List.cons.inj h
          exact ih htail _ _ (merge_state hlast hhead)

/-! ## Calls -/

section Twins

variable {p q : ℕ → F32} (hbits : ∀ k, heardBit (p k) = heardBit (q k))

include hbits

/-- **A call keeps twins twins**, and they return the same state. -/
theorem twin_processFrame (d e : SherpaVadDetector ℕ) (audioFrame : List F32) (h : Twin d e) :
    (d.processFrame (counted p) audioFrame).1.state
        = (e.processFrame (counted q) audioFrame).1.state ∧
      Twin (d.processFrame (counted p) audioFrame).2
        (e.processFrame (counted q) audioFrame).2 := by
  have hblocks : d.blocks audioFrame = e.blocks audioFrame := by
    unfold blocks
    rw [h.margin, h.frameSize]
  have hhanded : d.handed audioFrame = e.handed audioFrame := by
    unfold handed
    rw [h.margin, h.frameSize, hblocks]
  obtain ⟨hstates, hfinal⟩ := outputs_map_eq VadResult.state VadResult.state Twin
    (twin_processInternal hbits) h (e.handed audioFrame)
  have hmerged := foldl_merge_state hstates (nothingYet, false) (nothingYet, false) ⟨rfl, rfl⟩
  constructor
  · by_cases hframe : 0 < e.blocks audioFrame
    · have hframe' : 0 < d.blocks audioFrame := by rwa [hblocks]
      rw [processFrame_result (counted p) hframe', processFrame_result (counted q) hframe, hhanded]
      exact hmerged
    · rw [processFrame_loop, processFrame_loop, hblocks, if_pos (not_lt.mp hframe),
        if_pos (not_lt.mp hframe)]
      rfl
  · rw [processFrame_detector, processFrame_detector, hhanded, hblocks, h.margin, h.frameSize]
    exact hfinal.withMargin _

end Twins

/-- The states returned for the packets. -/
def states (p : ℕ → F32) (d : SherpaVadDetector ℕ) (frames : List (List F32)) : List VadState :=
  (outputs (processFrame (counted p)) d frames).map VadResult.state

/-- **The threshold of the constructor has no influence on the states**, and the probabilities
have one only through their bits. -/
theorem states_eq_of_bits {p q : ℕ → F32} (hbits : ∀ k, heardBit (p k) = heardBit (q k))
    (t t' : F32) (sampleRate : ℤ) (h : 0 < (sampleRate * 20).tdiv 1000)
    (frames : List (List F32)) :
    states p (new 0 t sampleRate h) frames = states q (new 0 t' sampleRate h) frames :=
  (outputs_map_eq VadResult.state VadResult.state Twin (twin_processFrame hbits)
    (twin_new t t' sampleRate h) frames).1

/-! ## Packets of one frame -/

/-- A packet with the samples of one frame, when no samples are left from before. -/
theorem processFrame_of_frame {σ : Type} (run : OrtRun σ) {d : SherpaVadDetector σ}
    {frame : List F32} (hmargin : d.marginBuffer = [])
    (hframe : frame.length = d.frameSizeSamples) :
    (d.processFrame run frame).1.state = (d.processInternal run frame).1.state ∧
      (d.processFrame run frame).2 = (d.processInternal run frame).2.withMargin [] := by
  have hone : d.blocks frame = 1 := by
    unfold blocks
    rw [hmargin, hframe, List.length_nil, Nat.zero_add, Nat.div_self d.frameSize_pos]
    exact WordArith.bits32_exactBelow.toSigned 1 (by norm_num) (by norm_num)
  have hhanded : d.handed frame = [frame] := by
    unfold handed
    rw [hone, hmargin, List.nil_append, windows_singleton d.frameSize_pos hframe]
    rfl
  constructor
  · rw [processFrame_result run (by rw [hone]; decide), hhanded, outputs_cons, outputs_nil,
      List.foldl_cons, List.foldl_nil, merge_nothingYet]
  · have hrest : (d.marginBuffer ++ frame).drop ((d.blocks frame).toNat * d.frameSizeSamples)
        = [] := by
      rw [hone, hmargin, List.nil_append, ← hframe]
      exact List.drop_of_length_le (by simp)
    rw [processFrame_detector, hhanded, hrest, final_cons, final_nil]

/-- A silence of frames with the bit `b`, as long as it lasts. -/
structure After (b : Bool) (frameSize n : ℕ) (d : SherpaVadDetector ℕ) : Prop where
  phase : d.toPhase = (Phase.next frameDuration10 b)^[n] (Phase.setState .inactivity)
  margin : d.marginBuffer = []
  frameSize : d.frameSizeSamples = frameSize

section Constant

variable {prob : F32} {frameSize n : ℕ} {d : SherpaVadDetector ℕ}

/-- A frame more. -/
theorem After.processFrame (h : After (heardBit prob) frameSize n d) :
    After (heardBit prob) frameSize (n + 1)
      (d.processFrame (counted fun _ => prob) (List.replicate frameSize F32.zero)).2 := by
  obtain ⟨-, hframe⟩ := processFrame_of_frame (counted fun _ => prob) h.margin
    (List.length_replicate.trans h.frameSize.symm)
  have htook := processInternal_took (counted fun _ => prob) d (List.replicate frameSize F32.zero)
  rw [hframe]
  refine ⟨?_, rfl, htook.frameSize.trans h.frameSize⟩
  rw [withMargin_toPhase, (processInternal_next _ d _).1, hears_counted, h.phase,
    Function.iterate_succ_apply']

/-- The utterance begins with the frame after the transition. -/
theorem After.begins_iff (h : After (heardBit prob) frameSize n d) :
    (d.processFrame (counted fun _ => prob) (List.replicate frameSize F32.zero)).1.state
        = .startSpeaking ↔
      ((Phase.next frameDuration10 (heardBit prob))^[n] (Phase.setState .inactivity)).state
        = .inactivityTransition := by
  obtain ⟨hstate, -⟩ := processFrame_of_frame (counted fun _ => prob) h.margin
    (List.length_replicate.trans h.frameSize.symm)
  rw [hstate, (processInternal_next _ d _).2.1, h.phase]

theorem After.final_processFrame (h : After (heardBit prob) frameSize 0 d) (n : ℕ) :
    After (heardBit prob) frameSize n
      (final (SherpaVadDetector.processFrame (counted fun _ => prob)) d
        (List.replicate n (List.replicate frameSize F32.zero))) := by
  induction n with
  | zero => exact h
  | succ n ih =>
      rw [List.replicate_succ', final_append, final_cons, final_nil]
      exact ih.processFrame

end Constant

/-- Thirteen frames lead out of the silence if they are active. -/
theorem state_after_thirteen (b : Bool) :
    ((Phase.next frameDuration10 b)^[13] (Phase.setState .inactivity)).state
      = .inactivityTransition ↔ b = true := by
  cases b <;> decide +kernel

/-- Fourteen packets of one frame each. -/
def fourteen (sampleRate : ℤ) : List (List F32) :=
  List.replicate 14 (List.replicate ((sampleRate * 20).tdiv 1000).toNat F32.zero)

/-- **A constant probability begins an utterance with the last of them exactly when it is `0.5f`
at least.** -/
theorem states_fourteen (prob t : F32) (sampleRate : ℤ) (h : 0 < (sampleRate * 20).tdiv 1000) :
    (states (fun _ => prob) (new 0 t sampleRate h) (fourteen sampleRate)).getLast?
      = some .startSpeaking ↔ heardBit prob = true := by
  have hafter : After (heardBit prob) ((sampleRate * 20).tdiv 1000).toNat 0
      (new 0 t sampleRate h) := ⟨rfl, rfl, rfl⟩
  rw [states, fourteen, List.replicate_succ', outputs_append, List.map_append, outputs_cons,
    outputs_nil, List.map_singleton, List.getLast?_concat, Option.some.injEq,
    ← state_after_thirteen, ← (hafter.final_processFrame 13).begins_iff]

/-! ## The threshold -/

/-- The states a detector with threshold `t` returns, for any probabilities out of `V`, are those
a detector with threshold `0.5f` returns for any others that are on the same side of `0.5f` as
these of `t`. -/
def Obeys (t : F32) (V : Set F32) (sampleRate : ℤ) (h : 0 < (sampleRate * 20).tdiv 1000) : Prop :=
  ∀ p : ℕ → F32, (∀ k, p k ∈ V) → ∀ q : ℕ → F32,
    (∀ k, frameThreshold.le (q k) = true ↔ t.le (p k) = true) →
    ∀ frames : List (List F32),
      states p (new 0 t sampleRate h) frames = states q (new 0 frameThreshold sampleRate h) frames

/-- **When the detector obeys its threshold**: when no probability lies between it and `0.5f`.
For a model that may return any probability, that is when it is `0.5f`. -/
theorem obeys_iff (t : F32) (sampleRate : ℤ) (h : 0 < (sampleRate * 20).tdiv 1000) :
    (∀ V : Set F32, Obeys t V sampleRate h ↔
        ∀ prob ∈ V, (frameThreshold.le prob = true ↔ t.le prob = true)) ∧
      (Obeys t Set.univ sampleRate h ↔ t = frameThreshold) := by
  have hsides : ∀ V : Set F32, Obeys t V sampleRate h ↔
      ∀ prob ∈ V, (frameThreshold.le prob = true ↔ t.le prob = true) := by
    intro V
    constructor
    · intro hobeys prob hprob
      -- a constant sequence, against one on the same side of `0.5f` as `prob` is of `t`
      have hother : ∃ other : F32, frameThreshold.le other = true ↔ t.le prob = true := by
        by_cases hle : t.le prob = true
        · exact ⟨frameThreshold, iff_of_true (by decide +kernel) hle⟩
        · exact ⟨F32.zero, iff_of_false (by decide +kernel) hle⟩
      obtain ⟨other, hiff⟩ := hother
      have hstates := hobeys (fun _ => prob) (fun _ => hprob) (fun _ => other) (fun _ => hiff)
        (fourteen sampleRate)
      have hbegins := states_fourteen prob t sampleRate h
      rw [hstates, states_fourteen] at hbegins
      exact hbegins.symm.trans hiff
    · intro hsides p hp q hq frames
      apply states_eq_of_bits
      intro k
      rw [Bool.eq_iff_iff]
      exact (hsides (p k) (hp k)).trans (hq k).symm
  refine ⟨hsides, ?_⟩
  rw [hsides]
  constructor
  · intro hall
    have hle : t.le frameThreshold = true :=
      (hall frameThreshold (Set.mem_univ _)).mp (by decide +kernel)
    have hnan : t ≠ .nan := by
      rintro rfl
      rw [Value.nan_le] at hle
      cases hle
    exact Value.le_antisymm hle ((hall t (Set.mem_univ _)).mpr (Value.le_self hnan))
  · rintro rfl prob -
    exact Iff.rfl

/-- A threshold of `0.75f` is obeyed on the probabilities zero and one, and not on all. -/
theorem obeys_iff_three_quarters :
    Obeys (binary32.round (3 / 4)) {F32.zero, F32.ofInt 1} 16000 frameSize_default ∧
      ¬ Obeys (binary32.round (3 / 4)) Set.univ 16000 frameSize_default := by
  have hiff := obeys_iff (binary32.round (3 / 4)) 16000 frameSize_default
  constructor
  · refine (hiff.1 _).mpr fun prob hprob => ?_
    rcases hprob with rfl | rfl
    · decide +kernel
    · decide +kernel
  · intro h
    have hle := congrArg (fun t : F32 => t.le frameThreshold) (hiff.2.mp h)
    exact absurd hle (by decide +kernel)

/-- With a threshold of `0.75f` fourteen frames with a probability of `0.5f` begin an utterance,
which at `0.5f` fourteen with a probability of zero do not. -/
theorem threshold_is_ignored :
    ¬ ∀ (t : F32) (p q : ℕ → F32), (∀ k, frameThreshold.le (q k) = true ↔ t.le (p k) = true) →
      ∀ frames : List (List F32),
        states p (new 0 t 16000 frameSize_default) frames
          = states q (new 0 frameThreshold 16000 frameSize_default) frames := by
  intro h
  have hstates := h (binary32.round (3 / 4)) (fun _ => frameThreshold) (fun _ => F32.zero)
    (fun _ => by decide +kernel) [List.replicate 4480 F32.zero]
  exact absurd hstates (by decide +kernel)

end SherpaVadDetector

end VadService
