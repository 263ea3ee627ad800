import VadService.Iterator.Silence

set_option autoImplicit false

/-! # How long the returned segments are

Segments are recorded in four places: by silence, at `prev_end`, at the current sample, and
at the end of the audio. Only the first tests `min_speech_samples`, and none is reached
while the windows stay high, so neither bound on the length holds of every segment. This
module says which steps break a bound (`ShortCut`, `LateCut`) and that nothing else does.
-/

namespace VadService

open Machine Window

namespace Trigger

variable {a : WordArith} {c : VadConfig} {t t' : Trigger} {prob : F32}

/-! ## What one window records -/

/-- The window finds the open segment longer than `max_speech_samples`, and cuts it. -/
def Cuts (c : VadConfig) (t : Trigger) (prob : F32) : Prop :=
  t.triggered = true ∧ c.isHigh prob = false ∧ t.exceeds c

instance : Decidable (Cuts c t prob) := inferInstanceAs (Decidable (_ ∧ _))

/-- Where a segment is cut: at the silence remembered, or here. -/
def cutEnd (c : VadConfig) (t : Trigger) : ℤ :=
  if 0 < t.prevEnd then t.prevEnd else t.nextSample c

/-- The window ends the open segment by silence. -/
def EndsBySilence (a : WordArith) (c : VadConfig) (t : Trigger) (prob : F32) : Prop :=
  t.triggered = true ∧ c.isLow prob = true ∧ ¬ t.exceeds c ∧ t.silent a c ∧ t.LongEnough c

/-- The open segment, ended at `e`. -/
def ended (t : Trigger) (e : ℤ) : Timestamp := { t.currentSpeech with end_ := e }

theorem not_cuts_of_idle (ht : t.triggered = false) : ¬ Cuts c t prob :=
  fun h => Bool.false_ne_true (ht.symm.trans h.1)

theorem not_endsBySilence_of_idle (ht : t.triggered = false) : ¬ EndsBySilence a c t prob :=
  fun h => Bool.false_ne_true (ht.symm.trans h.1)

/-- **What one window records.** -/
theorem Next.records (hn : Next a c t prob t') :
    (Cuts c t prob ∧ t'.speeches = t.speeches ++ [t.ended (t.cutEnd c)]) ∨
      (EndsBySilence a c t prob ∧ t'.speeches = t.speeches ++ [t.ended (t.silenceStart c)]) ∨
      (¬ Cuts c t prob ∧ ¬ EndsBySilence a c t prob ∧ t'.speeches = t.speeches) := by
  cases hn with
  | rise hp ht =>
      exact Or.inr (Or.inr ⟨not_cuts_of_idle ht, not_endsBySilence_of_idle ht, rfl⟩)
  | extend hp ht =>
      refine Or.inr (Or.inr ⟨?_, ?_, rfl⟩)
      · intro h
        exact Bool.false_ne_true (h.2.1.symm.trans hp)
      · intro h
        exact Bool.false_ne_true ((not_isHigh_of_isLow h.2.1).symm.trans hp)
  | endAtPrev hp ht hex hpe =>
      refine Or.inl ⟨⟨ht, hp, hex⟩, ?_⟩
      rw [cutEnd, if_pos hpe]
      rfl
  | split hp ht hex hpe =>
      refine Or.inl ⟨⟨ht, hp, hex⟩, ?_⟩
      rw [cutEnd, if_pos hpe]
      rfl
  | cut hp ht hex hpe =>
      refine Or.inl ⟨⟨ht, hp, hex⟩, ?_⟩
      rw [cutEnd, if_neg (by omega)]
      rfl
  | fall hp hl ht hex hq hlong => exact Or.inr (Or.inl ⟨⟨ht, hl, hex, hq, hlong⟩, rfl⟩)
  | mark hp hl ht hex hnot =>
      refine Or.inr (Or.inr ⟨fun h => hex h.2.2, ?_, rfl⟩)
      intro h
      exact hnot ⟨h.2.2.2.1, h.2.2.2.2⟩
  | keep hp hidle =>
      rcases hidle with ht | ⟨hex, hl⟩
      · exact Or.inr (Or.inr ⟨not_cuts_of_idle ht, not_endsBySilence_of_idle ht, rfl⟩)
      · refine Or.inr (Or.inr ⟨fun h => hex h.2.2, ?_, rfl⟩)
        intro h
        exact Bool.false_ne_true (hl.symm.trans h.2.1)

/-- A property of segments holds of all that a run records exactly when it holds of what
each of its windows records. -/
theorem recorded_run {Q : Timestamp → Prop} {B : ℤ} (ha : a.ExactBelow B)
    (hW : 0 ≤ c.windowSizeSamples) (probs : List F32)
    (hB : probs.length * c.windowSizeSamples < B) :
    (∀ s ∈ (final (step a c) {} probs).speeches, Q s) ↔
      Along (step a c) (fun t p => (Cuts c t p → Q (t.ended (t.cutEnd c))) ∧
        (EndsBySilence a c t p → Q (t.ended (t.silenceStart c)))) {} probs := by
  refine run_induction ha hW
    (P := fun ps t => (∀ s ∈ t.speeches, Q s) ↔
      Along (step a c) (fun t p => (Cuts c t p → Q (t.ended (t.cutEnd c))) ∧
        (EndsBySilence a c t p → Q (t.ended (t.silenceStart c)))) {} ps)
    range_init (by simp) ?_ probs (by rw [zero_add]; exact hB)
  intro ps p _ _ ih hn
  rw [along_append, along_cons, ← ih]
  rcases hn.records with ⟨hcut, hs⟩ | ⟨hsil, hs⟩ | ⟨hcut, hsil, hs⟩
  · have hnot : ¬ EndsBySilence a c (final (step a c) {} ps) p := fun h => h.2.2.1 hcut.2.2
    rw [hs]
    simp [hcut, hnot, or_imp, forall_and]
  · have hnot : ¬ Cuts c (final (step a c) {} ps) p := fun h => hsil.2.2.1 h.2.2
    rw [hs]
    simp [hsil, hnot, or_imp, forall_and]
  · rw [hs]
    simp [hcut, hsil]

/-! ## The minimal length -/

/-- The window cuts a segment into a piece that is no longer than `min_speech_samples`. -/
def ShortCut (c : VadConfig) (t : Trigger) (prob : F32) : Prop :=
  Cuts c t prob ∧ t.cutEnd c - t.currentSpeech.start ≤ c.minSpeechSamples

instance : Decidable (ShortCut c t prob) := inferInstanceAs (Decidable (_ ∧ _))

/-- The audio ends at sample `len` in a segment that is not longer than that. -/
def ShortTail (c : VadConfig) (t : Trigger) (len : ℤ) : Prop :=
  t.triggered = true ∧ len - t.currentSpeech.start ≤ c.minSpeechSamples

instance (len : ℤ) : Decidable (ShortTail c t len) := inferInstanceAs (Decidable (_ ∧ _))

/-- A property of the segments returned when the audio ends. -/
theorem forall_mem_flush {Q : Timestamp → Prop} (t : Trigger) (len : ℤ) :
    (∀ s ∈ t.flush len, Q s) ↔
      (∀ s ∈ t.speeches, Q s) ∧ (t.triggered = true → Q (t.ended len)) := by
  unfold Trigger.flush
  cases t.triggered <;> simp [or_imp, forall_and, ended]

/-- **Every recorded segment is longer than the minimal speech exactly when no window cuts a
short piece.** -/
theorem long_run {B : ℤ} (ha : a.ExactBelow B) (hW : 0 ≤ c.windowSizeSamples)
    (probs : List F32) (hB : probs.length * c.windowSizeSamples < B) :
    (∀ s ∈ (final (step a c) {} probs).speeches, c.minSpeechSamples < s.end_ - s.start) ↔
      Along (step a c) (fun t p => ¬ ShortCut c t p) {} probs := by
  rw [recorded_run ha hW probs hB]
  apply along_congr
  intro t p
  constructor
  · rintro ⟨hcut, -⟩ ⟨hc, hle⟩
    exact absurd (hcut hc) (not_lt.mpr hle)
  · intro hshort
    refine ⟨?_, fun hs => hs.2.2.2.2⟩
    intro hc
    by_contra hle
    exact hshort ⟨hc, not_lt.mp hle⟩

end Trigger

namespace VadIterator

variable {σ : Type} (run : OrtRun σ)

/-- **The minimal length of the returned segments.** They are all longer than
`min_speech_samples` exactly when no window cuts a shorter piece off an over-long segment
and the audio does not end in a shorter one. -/
theorem process_long (it : VadIterator σ) {x : List F32} (hW : 0 < it.cfg.windowSizeSamples)
    (hx : (x.length : ℤ) < 2 ^ 31) :
    (∀ s ∈ (it.process run x).getSpeechTimestamps,
        it.cfg.minSpeechSamples < s.end_ - s.start) ↔
      Along (Trigger.step WordArith.bits32 it.cfg) (fun t p => ¬ Trigger.ShortCut it.cfg t p) {}
          (it.processProbs run x) ∧
        ¬ Trigger.ShortTail it.cfg (it.processRun run x).toTrigger x.length := by
  have hle := it.length_processProbs_mul_le run x hW
  rw [it.process_speeches run hW hx, Trigger.forall_mem_flush, processRun_toTrigger,
    Trigger.long_run WordArith.bits32_exactBelow hW.le _ (hle.trans_lt hx)]
  apply and_congr_right
  intro _
  unfold Trigger.ShortTail Trigger.ended
  constructor
  · rintro h ⟨ht, hshort⟩
    exact absurd (h ht) (not_lt.mpr hshort)
  · intro h ht
    by_contra hshort
    exact h ⟨ht, not_lt.mp hshort⟩

/-- The two segments of a recording of two bursts are long enough. -/
theorem process_long_window :
    let it := (new VadConfig.new twoBursts).process scripted (List.replicate 10752 F32.zero)
    it.getSpeechTimestamps = [⟨0, 4608⟩, ⟨6656, 10752⟩] ∧
      ∀ s ∈ it.getSpeechTimestamps, VadConfig.new.minSpeechSamples < s.end_ - s.start := by
  intro it
  have hlen : (List.replicate 10752 F32.zero).length = 10752 := List.length_replicate
  have hprobs : (new VadConfig.new twoBursts).processProbs scripted
      (List.replicate 10752 F32.zero) = twoBursts := processProbs_silence (by decide)
  refine ⟨?_, (process_long scripted (new VadConfig.new twoBursts) (by decide)
    (by rw [hlen]; decide)).mpr ⟨?_, ?_⟩⟩
  · show ((new VadConfig.new twoBursts).process scripted _).getSpeechTimestamps = _
    rw [process_scripted (by decide) (by decide) (by decide)]
    decide +kernel
  · rw [hprobs]
    decide +kernel
  · rw [hlen, processRun_toTrigger, hprobs]
    decide +kernel

/-- A recording of one window of speech gives a segment of 512 samples, where
`min_speech_samples` is 4000. -/
theorem speech_at_end_too_short :
    ¬ ∀ (it : VadIterator (List F32)) (x : List F32), 0 < it.cfg.windowSizeSamples →
      (x.length : ℤ) < 2 ^ 31 →
      ∀ s ∈ (it.process scripted x).getSpeechTimestamps,
        it.cfg.minSpeechSamples < s.end_ - s.start := by
  intro h
  have hs := h (new VadConfig.new [F32.ofInt 1]) (List.replicate 512 F32.zero) (by decide)
    (by rw [List.length_replicate]; decide)
  rw [process_scripted (by decide) (by decide) (by decide)] at hs
  have hmem : (⟨0, 512⟩ : Timestamp)
      ∈ (final (Trigger.step WordArith.bits32 VadConfig.new) {} [F32.ofInt 1]).flush
        (512 : ℕ) := by
    decide +kernel
  exact absurd (hs ⟨0, 512⟩ hmem) (by decide)

end VadIterator

/-! ## The maximal length -/

namespace Trigger

variable {a : WordArith} {c : VadConfig} {t t' : Trigger} {prob : F32} {M : ℚ}

/-- A length is at most `max_speech_samples`, of the exact value `M`, and two windows. -/
def Within (c : VadConfig) (M : ℚ) (n : ℤ) : Prop := (n : ℚ) ≤ M + 2 * c.windowSizeSamples

instance (n : ℤ) : Decidable (Within c M n) := inferInstanceAs (Decidable (_ ≤ _))

/-- The window cuts the open segment here, and comes too late to do so. -/
def LateCut (c : VadConfig) (M : ℚ) (t : Trigger) (prob : F32) : Prop :=
  Cuts c t prob ∧ t.prevEnd ≤ 0 ∧ ¬ Within c M (t.nextSample c - t.currentSpeech.start)

instance : Decidable (LateCut c M t prob) := inferInstanceAs (Decidable (_ ∧ _))

/-- The audio ends too late at sample `len`. -/
def LateTail (c : VadConfig) (M : ℚ) (t : Trigger) (len : ℤ) : Prop :=
  t.triggered = true ∧ ¬ Within c M (len - t.currentSpeech.start)

instance (len : ℤ) : Decidable (LateTail c M t len) := inferInstanceAs (Decidable (_ ∧ _))

theorem not_lateTail_iff {len : ℤ} : ¬ LateTail c M t len ↔
    (t.triggered = true → Within c M (len - t.currentSpeech.start)) := by
  unfold LateTail
  exact not_and_not_right

/-- The window ends the open segment at a position it remembers, and even that is too late.
It was remembered at a window that passed the length test, so the test was rounded. -/
def RoundedEnd (a : WordArith) (c : VadConfig) (M : ℚ) (t : Trigger) (prob : F32) : Prop :=
  (Cuts c t prob ∧ 0 < t.prevEnd ∧ ¬ Within c M (t.prevEnd - t.currentSpeech.start)) ∨
    (EndsBySilence a c t prob ∧ ¬ Within c M (t.silenceStart c - t.currentSpeech.start))

/-- **No recorded segment is too long exactly when no window cuts late, or ends a segment
late at a remembered position.** -/
theorem within_run {B : ℤ} (ha : a.ExactBelow B) (hW : 0 ≤ c.windowSizeSamples) (M : ℚ)
    (probs : List F32) (hB : probs.length * c.windowSizeSamples < B) :
    (∀ s ∈ (final (step a c) {} probs).speeches, Within c M (s.end_ - s.start)) ↔
      Along (step a c) (fun t p => ¬ LateCut c M t p) {} probs ∧
        Along (step a c) (fun t p => ¬ RoundedEnd a c M t p) {} probs := by
  rw [recorded_run ha hW probs hB, ← along_and]
  apply along_congr
  intro t p
  unfold LateCut RoundedEnd cutEnd ended
  by_cases hpe : 0 < t.prevEnd
  · have hle : ¬ t.prevEnd ≤ 0 := by omega
    simp only [hpe, hle, if_true]
    tauto
  · have hle : t.prevEnd ≤ 0 := by omega
    simp only [hpe, hle, if_false]
    tauto

/-- A window that passes the length test is in time, if windows are not tiny. -/
theorem within_of_not_exceeds {hM : binary32.Representable M}
    (hmax : c.maxSpeechSamples = .fin M hM) (hW : 32 ≤ c.windowSizeSamples)
    (hex : ¬ t.exceeds c) {e : ℤ} (he : e ≤ t.nextSample c)
    (h0 : 0 ≤ t.nextSample c - t.currentSpeech.start)
    (hlt : t.nextSample c - t.currentSpeech.start < 2 ^ 31) :
    Within c M (e - t.currentSpeech.start) := by
  unfold exceeds at hex
  rw [hmax] at hex
  have hround := F32.le_of_not_lt_ofInt h0 hlt hex
  have hle : ((e - t.currentSpeech.start : ℤ) : ℚ)
      ≤ ((t.nextSample c - t.currentSpeech.start : ℤ) : ℚ) := by
    exact_mod_cast sub_le_sub_right he _
  have hW' : (32 : ℚ) ≤ c.windowSizeSamples := by exact_mod_cast hW
  unfold Within
  linarith

/-- The position a split would use is in time. -/
def PrevWithin (c : VadConfig) (M : ℚ) (t : Trigger) : Prop :=
  t.triggered = true → 0 < t.prevEnd → Within c M (t.prevEnd - t.currentSpeech.start)

/-- Every window keeps the remembered positions in time. -/
theorem PrevWithin.next {hM : binary32.Representable M}
    (hmax : c.maxSpeechSamples = .fin M hM) (hW : 32 ≤ c.windowSizeSamples) (hr : Range t)
    (hlt : t.nextSample c < 2 ^ 31) (h : PrevWithin c M t) (hn : Next a c t prob t') :
    PrevWithin c M t' := by
  cases hn with
  | rise hp ht =>
      obtain ⟨-, e2, -⟩ := hr.idle ht
      intro _ hpe
      exact absurd hpe (by simp [e2])
  | extend hp ht => exact fun _ hpe => h ht hpe
  | endAtPrev => exact fun ht => absurd ht Bool.false_ne_true
  | split => exact fun _ hpe => absurd hpe (by simp [Trigger.close])
  | cut => exact fun ht => absurd ht Bool.false_ne_true
  | fall => exact fun ht => absurd ht Bool.false_ne_true
  | mark hp hl ht hex =>
      have ho := hr.opened ht
      obtain ⟨h1, h2⟩ := ho.silenceStart (c := c) (by omega)
      have h0 := ho.start_nonneg
      intro _ hpe
      rw [start_mark a c t]
      dsimp only at hpe ⊢
      -- a position that is remembered now passes the length test now
      split_ifs at hpe ⊢
      · exact within_of_not_exceeds hmax hW hex h2 (by omega) (by omega)
      · exact h ht hpe
  | keep => exact h

/-- **Windows of 32 samples and more are never ended late at a remembered position.** -/
theorem not_roundedEnd {hM : binary32.Representable M}
    (hmax : c.maxSpeechSamples = .fin M hM) (hW : 32 ≤ c.windowSizeSamples) (probs : List F32)
    (hB : probs.length * c.windowSizeSamples < 2 ^ 31) :
    Along (step WordArith.bits32 c) (fun t p => ¬ RoundedEnd WordArith.bits32 c M t p) {}
      probs := by
  have hW0 : 0 ≤ c.windowSizeSamples := by omega
  refine (run_induction WordArith.bits32_exactBelow hW0
    (P := fun ps t => (ps.length * c.windowSizeSamples < 2 ^ 31 →
      Along (step WordArith.bits32 c) (fun t p => ¬ RoundedEnd WordArith.bits32 c M t p) {} ps ∧
        PrevWithin c M t)) range_init ?_ ?_ probs (by rw [zero_add]; exact hB) hB).1
  · exact fun _ => ⟨trivial, fun ht => absurd ht Bool.false_ne_true⟩
  intro ps p hr hcur ih hn hlen
  rw [List.length_append, List.length_singleton] at hlen
  push_cast at hlen
  rw [add_mul, one_mul] at hlen
  obtain ⟨halong, hprev⟩ := ih (by omega)
  have hcur' : (final (step WordArith.bits32 c) {} ps).currentSample
      = ps.length * c.windowSizeSamples := by
    rw [hcur]
    exact zero_add _
  have hlt : (final (step WordArith.bits32 c) {} ps).nextSample c < 2 ^ 31 := by
    unfold nextSample
    omega
  refine ⟨?_, hprev.next hmax hW hr hlt hn⟩
  rw [along_append, along_cons]
  refine ⟨halong, ?_, trivial⟩
  rintro (⟨hcut, hpe, hlate⟩ | ⟨⟨ht, -, hex, -, -⟩, hlate⟩)
  · exact hlate (hprev hcut.1 hpe)
  · have ho := hr.opened ht
    obtain ⟨h1, h2⟩ := ho.silenceStart (c := c) hW0
    have h0 := ho.start_nonneg
    exact hlate (within_of_not_exceeds hmax hW hex h2 (by omega) (by omega))

end Trigger

namespace VadIterator

variable {σ : Type} (run : OrtRun σ)

/-- The maximal length of the segments of a recording that is counted in full. -/
theorem process_within_of_lt (it : VadIterator σ) {M : ℚ} {hM : binary32.Representable M}
    (hmax : it.cfg.maxSpeechSamples = .fin M hM) (hW : 0 < it.cfg.windowSizeSamples)
    {x : List F32} (hx : (x.length : ℤ) < 2 ^ 31) :
    (∀ s ∈ (it.process run x).getSpeechTimestamps, Trigger.Within it.cfg M (s.end_ - s.start)) ↔
      Along (Trigger.step WordArith.bits32 it.cfg) (fun t p => ¬ Trigger.LateCut it.cfg M t p) {}
          (it.processProbs run x) ∧
        ¬ Trigger.LateTail it.cfg M (it.processRun run x).toTrigger x.length ∧
        (32 ≤ it.cfg.windowSizeSamples ∨
          Along (Trigger.step WordArith.bits32 it.cfg)
            (fun t p => ¬ Trigger.RoundedEnd WordArith.bits32 it.cfg M t p) {}
            (it.processProbs run x)) := by
  have hB : ((it.processProbs run x).length : ℤ) * it.cfg.windowSizeSamples < 2 ^ 31 :=
    (it.length_processProbs_mul_le run x hW).trans_lt hx
  have hrounded : (32 ≤ it.cfg.windowSizeSamples ∨
      Along (Trigger.step WordArith.bits32 it.cfg)
        (fun t p => ¬ Trigger.RoundedEnd WordArith.bits32 it.cfg M t p) {}
        (it.processProbs run x)) ↔
      Along (Trigger.step WordArith.bits32 it.cfg)
        (fun t p => ¬ Trigger.RoundedEnd WordArith.bits32 it.cfg M t p) {}
        (it.processProbs run x) := by
    constructor
    · rintro (h32 | h)
      · exact Trigger.not_roundedEnd hmax h32 _ hB
      · exact h
    · exact Or.inr
  rw [process_speeches run it hW hx, Trigger.forall_mem_flush, hrounded,
    Trigger.not_lateTail_iff, processRun_toTrigger,
    Trigger.within_run WordArith.bits32_exactBelow hW.le M _ hB]
  constructor
  · rintro ⟨⟨hcut, hround⟩, hend⟩
    exact ⟨hcut, hend, hround⟩
  · rintro ⟨hcut, hend, hround⟩
    exact ⟨⟨hcut, hround⟩, hend⟩

/-- **The maximal length of the returned segments.** Let `M` be the exact value of
`max_speech_samples`. All segments are at most `M` and two windows long exactly when no
window cuts a segment late, the audio does not end late in one, and no segment is ended late
at a remembered position; the last never happens with windows of 32 samples or more. -/
theorem process_within (it : VadIterator σ) {M : ℚ} {hM : binary32.Representable M}
    (hmax : it.cfg.maxSpeechSamples = .fin M hM) (hW : 0 < it.cfg.windowSizeSamples)
    {x : List F32} (hx : 0 ≤ WordArith.bits32.toSigned x.length) :
    (∀ s ∈ (it.process run x).getSpeechTimestamps,
        ((s.end_ - s.start : ℤ) : ℚ) ≤ M + 2 * it.cfg.windowSizeSamples) ↔
      Along (Trigger.step WordArith.bits32 it.cfg) (fun t p => ¬ Trigger.LateCut it.cfg M t p) {}
          (it.processProbs run (counted x)) ∧
        ¬ Trigger.LateTail it.cfg M (it.processRun run (counted x)).toTrigger
          (counted x).length ∧
        (32 ≤ it.cfg.windowSizeSamples ∨
          Along (Trigger.step WordArith.bits32 it.cfg)
            (fun t p => ¬ Trigger.RoundedEnd WordArith.bits32 it.cfg M t p) {}
            (it.processProbs run (counted x))) := by
  obtain ⟨hlen, hlt⟩ := length_counted hx
  rw [process_counted run it hx]
  exact process_within_of_lt run it hmax hW (by rw [hlen]; exact hlt)

/-- Segments of one second at most. -/
def oneSecond : VadConfig :=
  VadConfig.new 16000 32 (binary32.round (1 / 2)) 100 30 250 (F32.ofInt 1)

theorem maxSpeechSamples_oneSecond :
    oneSecond.maxSpeechSamples = .fin (15428 : ℤ) (F32.representable_int (by decide)) := by
  show (((F32.ofInt 16000).mul (F32.ofInt 1)).sub (F32.ofInt (32 * 16))).sub (F32.ofInt (2 * 30))
    = _
  rw [F32.mul_ofInt (by decide) (by decide), F32.sub_ofInt (by decide) (by decide),
    F32.sub_ofInt (by decide) (by decide)]
  exact F32.ofInt_eq (by decide)

/-- More than a second of speech with two short pauses. -/
def longSpeech : List F32 :=
  List.replicate 20 (F32.ofInt 1) ++ List.replicate 2 F32.zero ++ List.replicate 8 (F32.ofInt 1)
    ++ List.replicate 3 F32.zero ++ List.replicate 4 (F32.ofInt 1)

/-- It is cut in its second pause, and neither segment is too long. -/
theorem process_within_second :
    let it := (new oneSecond longSpeech).process scripted (List.replicate 18944 F32.zero)
    it.getSpeechTimestamps = [⟨0, 15872⟩, ⟨16896, 18944⟩] ∧
      ∀ s ∈ it.getSpeechTimestamps,
        ((s.end_ - s.start : ℤ) : ℚ) ≤ (15428 : ℤ) + 2 * oneSecond.windowSizeSamples := by
  intro it
  have hlen : (List.replicate 18944 F32.zero).length = 18944 := List.length_replicate
  have hcounted : counted (List.replicate 18944 F32.zero) = List.replicate 18944 F32.zero := by
    rw [counted, hlen]
    exact List.take_of_length_le hlen.le
  have hprobs : (new oneSecond longSpeech).processProbs scripted
      (List.replicate 18944 F32.zero) = longSpeech := processProbs_silence (by decide)
  refine ⟨?_, (process_within scripted (new oneSecond longSpeech) maxSpeechSamples_oneSecond
    (by decide) ?_).mpr ⟨?_, ?_, Or.inl (by decide)⟩⟩
  · show ((new oneSecond longSpeech).process scripted _).getSpeechTimestamps = _
    rw [process_scripted (by decide) (by decide) (by decide)]
    decide +kernel
  · rw [hlen]
    decide
  · rw [hcounted, hprobs]
    decide +kernel
  · rw [hcounted, processRun_toTrigger, hprobs, hlen]
    decide +kernel

/-- Forty windows of uninterrupted speech give one segment of 20480 samples, where the limit
of one second allows for 16452. -/
theorem uninterrupted_speech_too_long :
    ¬ ∀ (it : VadIterator (List F32)) (M : ℚ) (hM : binary32.Representable M),
      it.cfg.maxSpeechSamples = .fin M hM → 0 ≤ M → 0 < it.cfg.windowSizeSamples →
      ∀ x : List F32, ∀ s ∈ (it.process scripted x).getSpeechTimestamps,
        ((s.end_ - s.start : ℤ) : ℚ) ≤ M + 2 * it.cfg.windowSizeSamples := by
  intro h
  have hs := h (new oneSecond (List.replicate 40 (F32.ofInt 1))) _ _ maxSpeechSamples_oneSecond
    (by norm_num) (by decide) (List.replicate 20480 F32.zero)
  rw [process_scripted (by decide) (by decide) (by decide)] at hs
  have hmem : (⟨0, 20480⟩ : Timestamp)
      ∈ (final (Trigger.step WordArith.bits32 oneSecond) {}
        (List.replicate 40 (F32.ofInt 1))).flush (20480 : ℕ) := by
    decide +kernel
  have hle := hs ⟨0, 20480⟩ hmem
  have hW : (new oneSecond (List.replicate 40 (F32.ofInt 1))).cfg.windowSizeSamples = 512 := rfl
  rw [hW] at hle
  norm_num at hle

end VadIterator

end VadService
