import VadService.Iterator.Basic

set_option autoImplicit false

/-! # The trigger without a maximal length

With an infinite `max_speech_samples` the length test never succeeds, and a window does one
of three things: a high window opens or extends a segment, a low one may close it, and any
other only counts. What follows holds in any arithmetic and in any state, whether the
counters have wrapped or not.
-/

namespace VadService

namespace Trigger

variable {a : WordArith} {c : VadConfig} {t : Trigger} {prob : F32}

/-- The state after the sample counter has been advanced. -/
def count (a : WordArith) (c : VadConfig) (t : Trigger) : Trigger :=
  { t with currentSample := a.toUnsigned (t.currentSample + a.toUnsigned c.windowSizeSamples) }

/-- The end of speech a low window records, once it has been counted. -/
def markedEnd (t : Trigger) : ℤ := if t.tempEnd = 0 then t.currentSample else t.tempEnd

/-- A low window, once it has been counted, ends the open segment. -/
def Closes (a : WordArith) (c : VadConfig) (t : Trigger) : Prop :=
  a.toUnsigned c.minSilenceSamples ≤ a.toUnsigned (t.currentSample - t.markedEnd) ∧
    c.minSpeechSamples < a.toSigned (a.toSigned t.markedEnd - t.currentSpeech.start)

instance (a : WordArith) (c : VadConfig) (t : Trigger) : Decidable (t.Closes a c) :=
  inferInstanceAs (Decidable (_ ∧ _))

/-- A low window is not in the middle band. -/
theorem not_isMiddle_of_isLow (h : c.isLow prob = true) : c.isMiddle prob = false := by
  have hnot := FloatFormat.Value.not_le_of_lt (show prob.toF64.lt _ = true from h)
  simp [VadConfig.isMiddle, hnot]

/-- The length test fails. -/
theorem overMax_unlimited (hmax : c.maxSpeechSamples = F32.infinity) :
    t.overMax a c = false := by
  rw [overMax, hmax]
  simp [F32.infinity, FloatFormat.Value.not_inf_lt]

/-- **One window, without a maximal length.** -/
theorem step_unlimited (hmax : c.maxSpeechSamples = F32.infinity) :
    (t.step a c prob).2 =
      if c.isHigh prob then (t.count a c).stepHigh a c
      else if c.isLow prob then (t.count a c).stepLow a c
      else t.count a c := by
  show (if c.isHigh prob then (true, (t.count a c).stepHigh a c)
    else if t.triggered && (t.count a c).overMax a c then (true, (t.count a c).stepOverMax a)
    else if c.isMiddle prob then (true, t.count a c)
    else if c.isLow prob then (true, (t.count a c).stepLow a c)
    else (false, t.count a c)).2 = _
  rw [overMax_unlimited hmax, Bool.and_false]
  by_cases hp : c.isHigh prob = true
  · rw [if_pos hp, if_pos hp]
  rw [if_neg hp, if_neg hp, if_neg Bool.false_ne_true]
  by_cases hl : c.isLow prob = true
  · rw [not_isMiddle_of_isLow hl, if_neg Bool.false_ne_true, if_pos hl, if_pos hl]
  · rw [if_neg hl, if_neg hl]
    split_ifs <;> rfl

/-! ## The three branches -/

@[simp] theorem stepHigh_triggered : (t.stepHigh a c).triggered = true := by
  unfold stepHigh
  dsimp only
  split_ifs <;> simp_all

@[simp] theorem stepHigh_speeches : (t.stepHigh a c).speeches = t.speeches := by
  unfold stepHigh
  dsimp only
  split_ifs <;> rfl

theorem stepLow_idle (ht : t.triggered = false) : t.stepLow a c = t := by
  unfold stepLow
  rw [if_neg (by simp [ht])]

/-- A low window in an open segment, with the end of speech named. -/
theorem stepLow_open (ht : t.triggered = true) :
    t.stepLow a c =
      let silence := a.toUnsigned (t.currentSample - t.markedEnd)
      let prevEnd :=
        if silence > a.toUnsigned c.minSilenceSamplesAtMaxSpeech then a.toSigned t.markedEnd
        else t.prevEnd
      let ended := { t.currentSpeech with end_ := a.toSigned t.markedEnd }
      if silence ≥ a.toUnsigned c.minSilenceSamples then
        if a.toSigned (ended.end_ - ended.start) > c.minSpeechSamples then
          { currentSample := t.currentSample, speeches := t.speeches ++ [ended] }
        else { t with tempEnd := t.markedEnd, prevEnd, currentSpeech := ended }
      else { t with tempEnd := t.markedEnd, prevEnd } := by
  unfold stepLow
  rw [if_pos ht]
  rfl

/-- The segment ends where its silence began. -/
theorem stepLow_closes (ht : t.triggered = true) (h : t.Closes a c) :
    t.stepLow a c =
      { currentSample := t.currentSample
        speeches := t.speeches ++
          [{ t.currentSpeech with end_ := a.toSigned t.markedEnd }] } := by
  rw [stepLow_open ht]
  dsimp only
  rw [if_pos h.1, if_pos h.2]

/-- What a low window leaves as it is when it does not end the segment. -/
structure Marked (t t' : Trigger) : Prop where
  triggered : t'.triggered = true
  currentSample : t'.currentSample = t.currentSample
  start : t'.currentSpeech.start = t.currentSpeech.start
  speeches : t'.speeches = t.speeches
  tempEnd : t'.tempEnd = t.markedEnd

theorem stepLow_marked (ht : t.triggered = true) (h : ¬ t.Closes a c) :
    Marked t (t.stepLow a c) := by
  rw [stepLow_open ht]
  dsimp only
  by_cases hq : a.toUnsigned (t.currentSample - t.markedEnd) ≥ a.toUnsigned c.minSilenceSamples
  · have hshort : ¬ a.toSigned (a.toSigned t.markedEnd - t.currentSpeech.start)
        > c.minSpeechSamples := fun hlong => h ⟨hq, hlong⟩
    rw [if_pos hq, if_neg hshort]
    exact ⟨ht, rfl, rfl, rfl, rfl⟩
  · rw [if_neg hq]
    exact ⟨ht, rfl, rfl, rfl, rfl⟩

/-! ## What a window records -/

/-- **A window records a segment exactly when it ends one.** -/
theorem step_speeches (hmax : c.maxSpeechSamples = F32.infinity) (a : WordArith) (t : Trigger)
    (prob : F32) :
    (t.triggered = true ∧ (t.step a c prob).2.triggered = false ∧
        ∃ s, (t.step a c prob).2.speeches = t.speeches ++ [s]) ∨
      ((t.triggered = true → (t.step a c prob).2.triggered = true) ∧
        (t.step a c prob).2.speeches = t.speeches) := by
  rw [step_unlimited hmax]
  by_cases hp : c.isHigh prob = true
  · rw [if_pos hp]
    exact Or.inr ⟨fun _ => stepHigh_triggered, stepHigh_speeches⟩
  rw [if_neg hp]
  by_cases hl : c.isLow prob = true
  · rw [if_pos hl]
    cases ht : t.triggered with
    | false =>
        have hidle : (t.count a c).triggered = false := ht
        rw [stepLow_idle hidle]
        exact Or.inr ⟨fun h => absurd h Bool.false_ne_true, rfl⟩
    | true =>
        have hopen : (t.count a c).triggered = true := ht
        by_cases hc : (t.count a c).Closes a c
        · rw [stepLow_closes hopen hc]
          exact Or.inl ⟨rfl, rfl, _, rfl⟩
        · have hm := stepLow_marked hopen hc
          exact Or.inr ⟨fun _ => hm.triggered, hm.speeches⟩
  · rw [if_neg hl]
    exact Or.inr ⟨id, rfl⟩

end Trigger

end VadService
