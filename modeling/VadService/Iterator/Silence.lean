import VadService.Iterator.Calls

set_option autoImplicit false

/-! # Closing a segment by silence

What a run of low windows does to an open segment when there is no maximal length. The end
of speech (`silenceStart`) is fixed by the first of them. If the segment up to there is
longer than `min_speech_samples`, it is closed as soon as the silence has lasted
`min_silence_samples`; if it is not, `predict` finds the segment too short at every later
window and leaves it open.
-/

namespace VadService

open Machine Window

namespace Trigger

variable {a : WordArith} {c : VadConfig} {t t' : Trigger} {prob : F32}

/-- Without a maximal length no segment exceeds it. -/
theorem not_exceeds (hmax : c.maxSpeechSamples = F32.infinity) (t : Trigger) :
    ¬ t.exceeds c := by
  unfold exceeds
  rw [hmax]
  simp [F32.infinity, FloatFormat.Value.not_inf_lt]

/-- A low window is not high. -/
theorem not_isHigh_of_isLow (h : c.isLow prob = true) : c.isHigh prob = false :=
  FloatFormat.Value.not_le_of_lt (F32.lt_of_lt_sub h)

/-- The open segment, up to where its silence begins, is longer than the minimal speech. -/
def LongEnough (c : VadConfig) (t : Trigger) : Prop :=
  c.minSpeechSamples < t.silenceStart c - t.currentSpeech.start

/-- The segment `t'` has open is the one `t` has, in the same silence. -/
structure SameSilence (c : VadConfig) (t t' : Trigger) : Prop where
  triggered : t'.triggered = true
  start : t'.currentSpeech.start = t.currentSpeech.start
  silenceStart : t'.silenceStart c = t.silenceStart c

theorem SameSilence.longEnough (h : SameSilence c t t') : t'.LongEnough c ↔ t.LongEnough c := by
  unfold LongEnough
  rw [h.start, h.silenceStart]

theorem SameSilence.trans {t'' : Trigger} (h : SameSilence c t t') (h' : SameSilence c t' t'') :
    SameSilence c t t'' :=
  ⟨h'.triggered, h'.start.trans h.start, h'.silenceStart.trans h.silenceStart⟩

/-- A low window leaves an idle trigger idle. -/
theorem Next.low_idle (hl : c.isLow prob = true) (ht : t.triggered = false)
    (hn : Next a c t prob t') : t'.triggered = false := by
  have hp := not_isHigh_of_isLow hl
  cases hn with
  | rise hp' => simp [hp] at hp'
  | extend hp' => simp [hp] at hp'
  | endAtPrev => rfl
  | split _ ht' => simp [ht] at ht'
  | cut => rfl
  | fall => rfl
  | mark _ _ ht' => simp [ht] at ht'
  | keep => exact ht

/-- A low window closes an open segment if the silence has lasted and the segment is long
enough, and otherwise leaves the same segment open in the same silence. -/
theorem Next.low_open (hW : 0 ≤ c.windowSizeSamples) (hr : Range t)
    (hmax : c.maxSpeechSamples = F32.infinity) (hl : c.isLow prob = true)
    (ht : t.triggered = true) (hn : Next a c t prob t') :
    (t.silent a c ∧ t.LongEnough c ∧ t'.triggered = false) ∨
      (¬ (t.silent a c ∧ t.LongEnough c) ∧ SameSilence c t t') := by
  have hp := not_isHigh_of_isLow hl
  have hex := not_exceeds hmax t
  cases hn with
  | rise _ ht' => simp [ht] at ht'
  | extend hp' => simp [hp] at hp'
  | endAtPrev _ _ h => exact absurd h hex
  | split _ _ h => exact absurd h hex
  | cut _ _ h => exact absurd h hex
  | fall _ _ _ _ hq hmin => exact Or.inl ⟨hq, hmin, rfl⟩
  | mark _ _ _ _ hq =>
      refine Or.inr ⟨hq, ht, ?_, ?_⟩
      · exact start_mark a c t
      · have h0 := hr.sample_nonneg
        have h1 := (hr.opened ht).tempEnd
        have h2 := (hr.opened ht).start_nonneg
        -- a zero mark means that no sample has been counted yet, and none is
        unfold Trigger.silenceStart nextSample
        dsimp only
        split_ifs <;> omega
  | keep _ h =>
      rcases h with h | ⟨-, h⟩
      · simp [ht] at h
      · simp [hl] at h

/-- A run of low windows either has closed the segment, which was then long enough, or has
left it open in the same silence. -/
theorem low_run {B : ℤ} (ha : a.ExactBelow B) (hW : 0 ≤ c.windowSizeSamples)
    (hmax : c.maxSpeechSamples = F32.infinity) (hr : Range t) (ht : t.triggered = true)
    (probs : List F32) (hlow : ∀ p ∈ probs, c.isLow p = true)
    (hB : t.currentSample + probs.length * c.windowSizeSamples < B) :
    ((final (step a c) t probs).triggered = false ∧ t.LongEnough c) ∨
      SameSilence c t (final (step a c) t probs) := by
  refine run_induction ha hW
    (P := fun ps t' => (∀ p ∈ ps, c.isLow p = true) →
      (t'.triggered = false ∧ t.LongEnough c) ∨ SameSilence c t t')
    hr (fun _ => Or.inr ⟨ht, rfl, rfl⟩) (fun ps p hs _ ih hn hps => ?_) probs hB hlow
  have hl : c.isLow p = true := hps p (by simp)
  rcases ih fun q hq => hps q (by simp [hq]) with ⟨hidle, hlong⟩ | hsame
  · exact Or.inl ⟨hn.low_idle hl hidle, hlong⟩
  · rcases hn.low_open hW hs hmax hl hsame.triggered with ⟨-, hlong, hidle⟩ | ⟨-, hsame'⟩
    · exact Or.inl ⟨hidle, hsame.longEnough.mp hlong⟩
    · exact Or.inr (hsame.trans hsame')

/-- **A run of low windows that lasts `min_silence_samples` ends with an idle trigger exactly
when it started with one, or the open segment is long enough.** -/
theorem silence_run {B : ℤ} (ha : a.ExactBelow B) (hW : 0 ≤ c.windowSizeSamples)
    (hmax : c.maxSpeechSamples = F32.infinity) (hsil : 0 ≤ c.minSilenceSamples) (hr : Range t)
    {probs : List F32} {m : ℕ} (hlow : ∀ p ∈ probs, c.isLow p = true)
    (hm : probs.length = m + 1) (hlen : c.minSilenceSamples ≤ m * c.windowSizeSamples)
    (hB : t.currentSample + (m + 1) * c.windowSizeSamples < B) :
    (final (step a c) t probs).triggered = false ↔ t.triggered = false ∨ t.LongEnough c := by
  have hBp : t.currentSample + probs.length * c.windowSizeSamples < B := by
    rw [hm]
    push_cast
    exact hB
  cases ht : t.triggered with
  | false =>
      simp only [true_or, iff_true]
      exact run_induction ha hW
        (P := fun ps t' => (∀ p ∈ ps, c.isLow p = true) → t'.triggered = false) hr
        (fun _ => ht) (fun ps p _ _ ih hn hps =>
          hn.low_idle (hps p (by simp)) (ih fun q hq => hps q (by simp [hq]))) probs hBp hlow
  | true =>
      simp only [Bool.true_eq_false, false_or]
      constructor
      · intro hidle
        rcases low_run ha hW hmax hr ht probs hlow hBp with ⟨-, hlong⟩ | hsame
        · exact hlong
        · simp [hsame.triggered] at hidle
      · intro hlong
        -- at the last window the silence has lasted
        obtain ⟨ps, p, rfl⟩ : ∃ ps p, probs = ps ++ [p] :=
          ⟨probs.dropLast, probs.getLast (by rintro rfl; simp at hm),
            (List.dropLast_append_getLast _).symm⟩
        have hps : ps.length = m := by simpa using hm
        have hmW : 0 ≤ (m : ℤ) * c.windowSizeSamples := mul_nonneg (by omega) hW
        have hB' : t.currentSample + ps.length * c.windowSizeSamples + c.windowSizeSamples < B := by
          rw [hps]
          linarith
        obtain ⟨hrs, hcur⟩ := run_range ha hW hr ps (by omega)
        have hn : Next a c _ p _ := step_next ha hW hrs (by unfold nextSample; omega)
        have hl : c.isLow p = true := hlow p (by simp)
        rw [final_append, final_cons, final_nil]
        rcases low_run ha hW hmax hr ht ps (fun q hq => hlow q (by simp [hq])) (by omega) with
          ⟨hidle, -⟩ | hsame
        · exact hn.low_idle hl hidle
        · rcases hn.low_open hW hrs hmax hl hsame.triggered with ⟨-, -, hidle⟩ | ⟨hnot, -⟩
          · exact hidle
          · refine absurd ⟨?_, hsame.longEnough.mpr hlong⟩ hnot
            have hle := ((hr.opened ht).silenceStart hW).2
            have h0 := hr.sample_nonneg
            rw [hps] at hB' hcur
            unfold silent
            rw [ha.toUnsigned _ hsil (by omega), hsame.silenceStart]
            unfold nextSample at hle ⊢
            omega

end Trigger

namespace VadIterator

section Silence

variable {σ : Type} {run : OrtRun σ} {cfg : VadConfig}

/-- **When silence ends a segment.** Take an iterator without a maximal length after any
calls that wrap no counter. After a run of low windows that lasts `min_silence_samples` it
is idle exactly when it was idle before, or its open segment is longer than
`min_speech_samples`. -/
theorem isTriggered_after_silence (hW : 0 ≤ cfg.windowSizeSamples)
    (hmax : cfg.maxSpeechSamples = F32.infinity) (hsil : 0 ≤ cfg.minSilenceSamples)
    {session : σ} {calls : List Call} {it : VadIterator σ}
    (hfits : Along (callStep run) Fits (VadIterator.new cfg session) calls)
    (hit : it = final (callStep run) (VadIterator.new cfg session) calls)
    {ws : List (List F32)} {m : ℕ} (hm : ws.length = m + 1)
    (hlow : ∀ p ∈ outputs (predictStep run) it ws, cfg.isLow p = true)
    (hlen : cfg.minSilenceSamples ≤ m * cfg.windowSizeSamples)
    (hB : it.currentSample + (m + 1) * cfg.windowSizeSamples < 2 ^ 31) :
    (final (predictStep run) it ws).isTriggered = false ↔
      it.isTriggered = false ∨ it.LongEnough cfg := by
  have hcfg : it.cfg = cfg := hit ▸ (calls_shape run session calls).cfg_eq
  have hr : it.Range := hit ▸ calls_range run hW session calls hfits
  have hrun : (final (predictStep run) it ws).isTriggered
      = (final (Trigger.step WordArith.bits32 cfg) it.toTrigger
          (outputs (predictStep run) it ws)).triggered := by
    rw [isTriggered, final_predictStep, hcfg]
  rw [hrun]
  exact Trigger.silence_run WordArith.bits32_exactBelow hW hmax hsil hr hlow
    (by rw [length_outputs, hm]) hlen hB

end Silence

/-! ## A short burst -/

/-- The constructor keeps an infinite `max_speech_duration_s` infinite. -/
theorem maxSpeechSamples_new {sampleRate windowsFrameSize : ℤ} (h0 : 0 < sampleRate)
    (h : sampleRate < 2 ^ 24) (hW : |windowsFrameSize * sampleRate.tdiv 1000| < 2 ^ 24) :
    (VadConfig.new sampleRate windowsFrameSize).maxSpeechSamples = F32.infinity := by
  have hrate : |sampleRate| < 2 ^ 24 := by rwa [abs_of_pos h0]
  have hne : (sampleRate : ℚ) ≠ 0 := by exact_mod_cast h0.ne'
  have hneg : ¬ (sampleRate : ℚ) < 0 := by
    push Not
    exact_mod_cast h0.le
  show (((F32.ofInt sampleRate).mul (.inf false)).sub
    (F32.ofInt (windowsFrameSize * sampleRate.tdiv 1000))).sub (F32.ofInt (2 * 30)) = .inf false
  rw [F32.ofInt_eq hrate, F32.ofInt_eq hW, F32.ofInt_eq (by decide)]
  simp [FloatFormat.Value.mul, FloatFormat.Value.sub, hne, hneg]

/-- One high window and five low ones. -/
def burst : List F32 := F32.ofInt 1 :: List.replicate 5 F32.zero

/-- The iterator after the high window of the burst. -/
def afterBurst : VadIterator (List F32) :=
  final (callStep scripted) (VadIterator.new VadConfig.new burst) [.predict silentWindow]

theorem fits_burst :
    Along (callStep scripted) Fits (VadIterator.new VadConfig.new burst)
      [.predict silentWindow] := by
  decide

/-- The iterator after the high windows of the first of two longer bursts. -/
def afterSpeech : VadIterator (List F32) :=
  final (callStep scripted) (VadIterator.new VadConfig.new twoBursts)
    (List.replicate 8 (.predict silentWindow))

/-- The longer burst is ended by five windows of silence. -/
theorem isTriggered_afterSpeech :
    (final (predictStep scripted) afterSpeech (List.replicate 5 silentWindow)).isTriggered
      = false := by
  have hmax : VadConfig.new.maxSpeechSamples = F32.infinity :=
    maxSpeechSamples_new (by decide) (by decide) (by decide)
  have hfits : Along (callStep scripted) Fits (VadIterator.new VadConfig.new twoBursts)
      (List.replicate 8 (.predict silentWindow)) := by
    decide +kernel
  refine (isTriggered_after_silence (m := 4) (by decide) hmax (by decide) hfits rfl rfl ?_
    (by decide) ?_).mpr (Or.inr ?_)
  · rw [outputs_scripted _ _ (by decide +kernel)]
    decide +kernel
  · decide +kernel
  · unfold Trigger.LongEnough
    decide +kernel

/-- One window of speech is too short to be recorded, and the trigger is still up after the
`min_silence_samples` of silence that follow it. -/
theorem burst_stays_open :
    ¬ ∀ (calls : List Call) (it : VadIterator (List F32)),
      Along (callStep scripted) Fits (VadIterator.new VadConfig.new burst) calls →
        it = final (callStep scripted) (VadIterator.new VadConfig.new burst) calls →
        ∀ (ws : List (List F32)) (m : ℕ), ws.length = m + 1 →
          (∀ p ∈ outputs (predictStep scripted) it ws, VadConfig.new.isLow p = true) →
          VadConfig.new.minSilenceSamples ≤ m * VadConfig.new.windowSizeSamples →
          it.currentSample + (m + 1) * VadConfig.new.windowSizeSamples < 2 ^ 31 →
          (final (predictStep scripted) it ws).isTriggered = false := by
  intro h
  have hfinal := h [.predict silentWindow] afterBurst fits_burst rfl
    (List.replicate 5 silentWindow) 4 rfl ?_ (by decide) ?_
  · rw [isTriggered, final_scripted _ _ (by decide)] at hfinal
    revert hfinal
    decide +kernel
  · rw [outputs_scripted _ _ (by decide)]
    decide +kernel
  · decide +kernel

end VadIterator

end VadService
