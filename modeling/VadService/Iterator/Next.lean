import VadService.Iterator.Basic

set_option autoImplicit false

/-! # What one window does to the trigger

As long as the counters have not wrapped, one call of `Trigger.step` is one of the eight
moves of `Trigger.Next`, which are stated over the integers. `Trigger.Range` is the part of
the state's invariant that keeps the conversions of the program exact; `step_next` is the
inversion lemma every later proof about the trigger starts from.
-/

namespace VadService

namespace Trigger

/-- The sample counter after one more window. -/
def nextSample (c : VadConfig) (t : Trigger) : ℤ := t.currentSample + c.windowSizeSamples

/-- The counter does not go back. -/
theorem currentSample_le_nextSample {c : VadConfig} (hW : 0 ≤ c.windowSizeSamples) (t : Trigger) :
    t.currentSample ≤ t.nextSample c := by
  unfold nextSample
  omega

/-- The position a low window records as the end of speech: the one remembered, or here. -/
def silenceStart (c : VadConfig) (t : Trigger) : ℤ :=
  if t.tempEnd = 0 then t.nextSample c else t.tempEnd

/-- The open segment is longer than `max_speech_samples` at the next window. -/
def exceeds (c : VadConfig) (t : Trigger) : Prop :=
  c.maxSpeechSamples.lt (F32.ofInt (t.nextSample c - t.currentSpeech.start)) = true

/-- The silence since `silenceStart` is `min_silence_samples` long at the next window. -/
def silent (a : WordArith) (c : VadConfig) (t : Trigger) : Prop :=
  a.toUnsigned c.minSilenceSamples ≤ t.nextSample c - t.silenceStart c

instance (c : VadConfig) (t : Trigger) : Decidable (t.exceeds c) :=
  inferInstanceAs (Decidable (_ = true))

instance (a : WordArith) (c : VadConfig) (t : Trigger) : Decidable (t.silent a c) :=
  inferInstanceAs (Decidable (_ ≤ _))

/-- Marking the end of speech leaves the start of the segment alone. -/
theorem start_mark (a : WordArith) (c : VadConfig) (t : Trigger) :
    (if t.silent a c then { t.currentSpeech with end_ := t.silenceStart c }
      else t.currentSpeech).start = t.currentSpeech.start := by
  split_ifs <;> rfl

/-- The idle state reached when the segment `s` is closed. -/
def close (c : VadConfig) (t : Trigger) (s : Timestamp) : Trigger where
  currentSample := t.nextSample c
  speeches := t.speeches ++ [s]

/-- One window, over the integers. -/
inductive Next (a : WordArith) (c : VadConfig) (t : Trigger) (prob : F32) : Trigger → Prop
  /-- An idle trigger rises at the start of a high window. -/
  | rise : c.isHigh prob = true → t.triggered = false →
      Next a c t prob { t with
        currentSample := t.nextSample c
        triggered := true
        currentSpeech := { t.currentSpeech with start := t.currentSample } }
  /-- A high window inside a segment ends the silence, if there was one. -/
  | extend : c.isHigh prob = true → t.triggered = true →
      Next a c t prob { t with
        currentSample := t.nextSample c
        tempEnd := 0
        nextStart := if t.tempEnd ≠ 0 ∧ t.nextStart < t.prevEnd then t.currentSample
          else t.nextStart }
  /-- Too long, and silent since `prev_end`: the segment ends there. -/
  | endAtPrev : c.isHigh prob = false → t.triggered = true → t.exceeds c →
      0 < t.prevEnd → t.nextStart < t.prevEnd →
      Next a c t prob (t.close c { t.currentSpeech with end_ := t.prevEnd })
  /-- Too long, with speech again since `prev_end`: split there. -/
  | split : c.isHigh prob = false → t.triggered = true → t.exceeds c →
      0 < t.prevEnd → t.prevEnd ≤ t.nextStart →
      Next a c t prob { t.close c { t.currentSpeech with end_ := t.prevEnd } with
        triggered := true
        currentSpeech := { start := t.nextStart } }
  /-- Too long, and no silence to cut at: the segment ends here. -/
  | cut : c.isHigh prob = false → t.triggered = true → t.exceeds c → t.prevEnd ≤ 0 →
      Next a c t prob (t.close c { t.currentSpeech with end_ := t.nextSample c })
  /-- Enough silence after enough speech: the segment ends where the silence began. -/
  | fall : c.isHigh prob = false → c.isLow prob = true → t.triggered = true →
      ¬ t.exceeds c → t.silent a c →
      c.minSpeechSamples < t.silenceStart c - t.currentSpeech.start →
      Next a c t prob (t.close c { t.currentSpeech with end_ := t.silenceStart c })
  /-- A low window that does not end the segment remembers where the silence began. -/
  | mark : c.isHigh prob = false → c.isLow prob = true → t.triggered = true →
      ¬ t.exceeds c →
      ¬ (t.silent a c ∧ c.minSpeechSamples < t.silenceStart c - t.currentSpeech.start) →
      Next a c t prob { t with
        currentSample := t.nextSample c
        tempEnd := t.silenceStart c
        prevEnd := if a.toUnsigned c.minSilenceSamplesAtMaxSpeech
            < t.nextSample c - t.silenceStart c then t.silenceStart c else t.prevEnd
        currentSpeech := if t.silent a c then { t.currentSpeech with end_ := t.silenceStart c }
          else t.currentSpeech }
  /-- Nothing but the counter moves. -/
  | keep : c.isHigh prob = false →
      t.triggered = false ∨ (¬ t.exceeds c ∧ c.isLow prob = false) →
      Next a c t prob { t with currentSample := t.nextSample c }

/-- The counters of an open segment are in range of each other. -/
structure Open (t : Trigger) : Prop where
  start_nonneg : 0 ≤ t.currentSpeech.start
  start_le : t.currentSpeech.start ≤ t.currentSample
  tempEnd : t.tempEnd = 0 ∨ (t.currentSpeech.start ≤ t.tempEnd ∧ t.tempEnd ≤ t.currentSample)
  prevEnd : 0 ≤ t.prevEnd ∧ t.prevEnd ≤ t.currentSample
  nextStart : 0 ≤ t.nextStart ∧ t.nextStart ≤ t.currentSample

/-- The counters are in range; an idle trigger remembers no position. -/
structure Range (t : Trigger) : Prop where
  sample_nonneg : 0 ≤ t.currentSample
  idle : t.triggered = false → t.tempEnd = 0 ∧ t.prevEnd = 0 ∧ t.nextStart = 0
  opened : t.triggered = true → Open t

theorem range_init : Range {} := ⟨le_rfl, by simp, by simp⟩

theorem range_of_open {t : Trigger} (ht : t.triggered = true) (h : Open t) : Range t where
  sample_nonneg := le_trans h.start_nonneg h.start_le
  idle h' := by simp [ht] at h'
  opened _ := h

variable {a : WordArith} {c : VadConfig} {t t' : Trigger} {prob : F32}

theorem range_close (h : 0 ≤ t.nextSample c) (s : Timestamp) : Range (t.close c s) :=
  ⟨h, by simp [close], by simp [close]⟩

/-- The end of speech a low window records lies in the segment. -/
theorem Open.silenceStart (h : Open t) (hW : 0 ≤ c.windowSizeSamples) :
    t.currentSpeech.start ≤ t.silenceStart c ∧ t.silenceStart c ≤ t.nextSample c := by
  have h1 := h.start_le
  have h2 := h.tempEnd
  unfold Trigger.silenceStart nextSample
  split_ifs <;> omega

/-- **Every move keeps the counters in range.** -/
theorem Range.next (hW : 0 ≤ c.windowSizeSamples) (h : Range t) (hn : Next a c t prob t') :
    Range t' := by
  have h0 := h.sample_nonneg
  have hle := t.currentSample_le_nextSample hW
  have hpos : 0 ≤ t.nextSample c := le_trans h0 hle
  cases hn with
  | rise hp ht =>
      obtain ⟨e1, e2, e3⟩ := h.idle ht
      exact range_of_open rfl ⟨h0, hle, by simp [e1], by simp [e2, hpos], by simp [e3, hpos]⟩
  | extend hp ht =>
      obtain ⟨h1, h2, h3, h4, h5⟩ := h.opened ht
      refine range_of_open ht ⟨h1, by simp; omega, by simp, by simp; omega, ?_⟩
      dsimp only
      split_ifs <;> omega
  | endAtPrev hp ht => exact range_close hpos _
  | split hp ht hex hpe hns =>
      -- the segment goes on from `next_start`, with nothing remembered
      obtain ⟨h1, h2, h3, h4, h5⟩ := h.opened ht
      exact range_of_open rfl
        ⟨h5.1, by simp [close]; omega, by simp [close], by simp [close, hpos],
          by simp [close, hpos]⟩
  | cut hp ht => exact range_close hpos _
  | fall hp hl ht => exact range_close hpos _
  | mark hp hl ht =>
      have ho := h.opened ht
      obtain ⟨hs1, hs2⟩ := ho.silenceStart hW
      obtain ⟨h1, h2, h3, h4, h5⟩ := ho
      have hstart := start_mark a c t
      refine range_of_open ht ⟨?_, ?_, Or.inr ⟨?_, hs2⟩, ?_, by simp; omega⟩
      · rw [hstart]; exact h1
      · rw [hstart]; simp; omega
      · rw [hstart]; exact hs1
      · dsimp only
        split_ifs <;> omega
  | keep hp _ =>
      refine ⟨hpos, h.idle, ?_⟩
      intro ht
      obtain ⟨h1, h2, h3, h4, h5⟩ := h.opened ht
      exact ⟨h1, by simp; omega, by simp; omega, by simp; omega, by simp; omega⟩

/-! ## The inversion lemma

One lemma for each branch of `step`, from the state with the advanced counter. -/

/-- The state the branches of `step` start from. -/
def advance (c : VadConfig) (t : Trigger) : Trigger := { t with currentSample := t.nextSample c }

section Branches

variable {B : ℤ} (ha : a.ExactBelow B) (hW : 0 ≤ c.windowSizeSamples) (h : Range t)
  (hB : t.nextSample c < B)

include hW h

theorem Range.nextSample_nonneg : 0 ≤ t.nextSample c := by
  exact h.sample_nonneg.trans (t.currentSample_le_nextSample hW)

include ha hB

theorem toUnsigned_nextSample :
    a.toUnsigned (t.currentSample + a.toUnsigned c.windowSizeSamples) = t.nextSample c := by
  have h0 := h.sample_nonneg
  unfold nextSample at hB ⊢
  rw [ha.toUnsigned c.windowSizeSamples hW (by omega), ha.toUnsigned _ (by omega) hB]

theorem overMax_advance (ht : t.triggered = true) :
    (t.advance c).overMax a c = true ↔ t.exceeds c := by
  obtain ⟨h1, h2, -⟩ := h.opened ht
  have hle := t.currentSample_le_nextSample hW
  show c.maxSpeechSamples.lt
    (F32.ofInt (a.toUnsigned (t.nextSample c - a.toUnsigned t.currentSpeech.start))) = true ↔ _
  rw [ha.toUnsigned t.currentSpeech.start h1 (by omega), ha.toUnsigned _ (by omega) (by omega)]
  rfl

theorem stepHigh_next (hp : c.isHigh prob = true) :
    Next a c t prob ((t.advance c).stepHigh a c) := by
  have h0 := h.sample_nonneg
  have hlt : t.currentSample < B := by
    unfold nextSample at hB
    omega
  have hwin : a.toUnsigned c.windowSizeSamples = c.windowSizeSamples :=
    ha.toUnsigned _ hW (by unfold nextSample at hB; omega)
  have hsub : t.nextSample c - c.windowSizeSamples = t.currentSample := by
    unfold nextSample
    omega
  -- the counter has moved already, so the window started where it was before
  have hws : a.toSigned (a.toUnsigned (t.nextSample c - a.toUnsigned c.windowSizeSamples))
      = t.currentSample := by
    rw [hwin, hsub, ha.toUnsigned _ h0 hlt, ha.toSigned _ h0 hlt]
  cases ht : t.triggered with
  | false =>
      obtain ⟨e1, e2, e3⟩ := h.idle ht
      have := Next.rise (a := a) (c := c) hp ht
      simpa [stepHigh, advance, e1, ht, hws] using this
  | true =>
      have := Next.extend (a := a) (c := c) hp ht
      by_cases hte : t.tempEnd = 0
      · simpa [stepHigh, advance, ht, hte] using this
      · simpa [stepHigh, advance, ht, hte, hws] using this

theorem stepOverMax_next (hp : c.isHigh prob = false) (ht : t.triggered = true)
    (hex : t.exceeds c) : Next a c t prob ((t.advance c).stepOverMax a) := by
  have hpos := h.nextSample_nonneg hW
  by_cases hpe : 0 < t.prevEnd
  · by_cases hns : t.nextStart < t.prevEnd
    · have := Next.endAtPrev (a := a) hp ht hex hpe hns
      simpa [stepOverMax, advance, close, hpe, hns] using this
    · have := Next.split (a := a) hp ht hex hpe (by omega)
      simpa [stepOverMax, advance, close, hpe, hns, ht] using this
  · have := Next.cut (a := a) hp ht hex (by omega)
    simpa [stepOverMax, advance, close, hpe, ha.toSigned _ hpos hB] using this

theorem stepLow_next (hp : c.isHigh prob = false) (hl : c.isLow prob = true)
    (ht : t.triggered = true) (hex : ¬ t.exceeds c) :
    Next a c t prob ((t.advance c).stepLow a c) := by
  have ho := h.opened ht
  have h1 := ho.start_nonneg
  obtain ⟨hs1, hs2⟩ := ho.silenceStart hW
  have hte : a.toSigned (t.silenceStart c) = t.silenceStart c :=
    ha.toSigned _ (by omega) (by omega)
  have hsil : a.toUnsigned (t.nextSample c - t.silenceStart c)
      = t.nextSample c - t.silenceStart c := ha.toUnsigned _ (by omega) (by omega)
  have hlen : a.toSigned (t.silenceStart c - t.currentSpeech.start)
      = t.silenceStart c - t.currentSpeech.start := ha.toSigned _ (by omega) (by omega)
  have hmark : (if (t.advance c).tempEnd = 0 then (t.advance c).currentSample
      else (t.advance c).tempEnd) = t.silenceStart c := rfl
  unfold stepLow
  rw [hmark, if_pos (show (t.advance c).triggered = true from ht)]
  have hcur : (t.advance c).currentSample = t.nextSample c := rfl
  simp only [hcur, hsil, hte, ge_iff_le, gt_iff_lt]
  by_cases hq : t.silent a c
  · rw [if_pos (show a.toUnsigned c.minSilenceSamples ≤ t.nextSample c - t.silenceStart c from hq)]
    have hstart : (t.advance c).currentSpeech.start = t.currentSpeech.start := rfl
    simp only [hstart, hlen]
    by_cases hmin : c.minSpeechSamples < t.silenceStart c - t.currentSpeech.start
    · rw [if_pos hmin]
      exact Next.fall hp hl ht hex hq hmin
    · rw [if_neg hmin]
      have := Next.mark (a := a) hp hl ht hex (fun hh => hmin hh.2)
      rw [if_pos hq] at this
      exact this
  · rw [if_neg (show ¬ a.toUnsigned c.minSilenceSamples ≤ t.nextSample c - t.silenceStart c
      from hq)]
    have := Next.mark (a := a) hp hl ht hex (fun hh => hq hh.1)
    rw [if_neg hq] at this
    exact this

/-- **One call of `step` is one move**, as long as the counter stays below the bound the
conversions are exact for. -/
theorem step_next : Next a c t prob (t.step a c prob).2 := by
  unfold step
  rw [toUnsigned_nextSample ha hW h hB]
  show Next a c t prob (if c.isHigh prob then (true, (t.advance c).stepHigh a c)
    else if t.triggered && (t.advance c).overMax a c then (true, (t.advance c).stepOverMax a)
    else if c.isMiddle prob then (true, t.advance c)
    else if c.isLow prob then (true, (t.advance c).stepLow a c)
    else (false, t.advance c)).2
  by_cases hp : c.isHigh prob = true
  · rw [if_pos hp]
    exact stepHigh_next ha hW h hB hp
  rw [if_neg hp]
  have hp' : c.isHigh prob = false := by simpa using hp
  cases ht : t.triggered with
  | false =>
      -- below the threshold an idle trigger keeps still, whichever exit is taken
      have hkeep := Next.keep (a := a) (c := c) hp' (Or.inl ht)
      have hlow : (t.advance c).stepLow a c = t.advance c := by
        unfold stepLow
        rw [if_neg (by simp [advance, ht])]
      rw [hlow]
      simp only [Bool.false_and, Bool.false_eq_true, if_false]
      split_ifs <;> exact hkeep
  | true =>
      by_cases hex : t.exceeds c
      · rw [if_pos (by simpa using (overMax_advance ha hW h hB ht).mpr hex)]
        exact stepOverMax_next ha hW h hB hp' ht hex
      · rw [if_neg (by simpa using mt (overMax_advance ha hW h hB ht).mp hex)]
        cases hl : c.isLow prob with
        | true =>
            have hm : ¬ c.isMiddle prob = true := by
              have := FloatFormat.Value.not_le_of_lt (show prob.toF64.lt _ = true from hl)
              simp [VadConfig.isMiddle, this]
            rw [if_neg hm, if_pos rfl]
            exact stepLow_next ha hW h hB hp' hl ht hex
        | false =>
            -- the middle band, or a NaN
            have hkeep := Next.keep (a := a) (c := c) hp' (Or.inr ⟨hex, hl⟩)
            split_ifs <;> first | exact hkeep | contradiction

end Branches

end Trigger

end VadService
