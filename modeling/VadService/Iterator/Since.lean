import VadService.Iterator.Silence

set_option autoImplicit false

/-! # The segments of one run

Where the segments begin that a run of windows opens and closes. A run from a trigger `t`
either still has the segment of `t` open, or everything it opens begins at a position `P`
or later, if the run's first window does not open a segment before it (`since_run`). Every
falling edge of the run records a segment.
-/

namespace VadService

open Machine

namespace Trigger

/-- The segments of a run from `t` to `t'` with the trigger flags `bs`. -/
structure Since (t : Trigger) (P : ℤ) (bs : List Bool) (t' : Trigger) : Prop where
  current : t'.triggered = true → P ≤ t'.currentSpeech.start ∨
    (t.triggered = true ∧ t'.currentSpeech.start = t.currentSpeech.start ∧ false ∉ bs)
  kept : t.speeches.length ≤ t'.speeches.length
  appended : ∀ s ∈ t'.speeches.drop t.speeches.length, P ≤ s.start ∨
    (t.triggered = true ∧ s.start = t.currentSpeech.start)
  recorded : t'.triggered = false → t.triggered = true ∨ true ∈ bs →
    t.speeches.length < t'.speeches.length

variable {c : VadConfig} {t t₁ t₂ : Trigger} {prob : F32} {P : ℤ} {bs : List Bool}

theorem since_init (t : Trigger) (P : ℤ) : Since t P [] t where
  current h := Or.inr ⟨h, rfl, by simp⟩
  kept := le_rfl
  appended s hs := by simp at hs
  recorded h h' := by simp [h] at h'

/-- A window that keeps the open segment open. -/
theorem Since.stay (h : Since t P bs t₁) (ht₂ : t₂.triggered = t₁.triggered)
    (hstart : t₁.triggered = true → t₂.currentSpeech.start = t₁.currentSpeech.start)
    (hs : t₂.speeches = t₁.speeches) : Since t P (bs ++ [t₂.triggered]) t₂ where
  current h₂ := by
    have h₁ : t₁.triggered = true := ht₂ ▸ h₂
    rw [hstart h₁, h₂]
    simpa using h.current h₁
  kept := hs ▸ h.kept
  appended := hs ▸ h.appended
  recorded h₂ hup := by
    rw [hs]
    refine h.recorded (ht₂ ▸ h₂) ?_
    simpa [h₂] using hup

/-- A window that records the open segment and ends it. -/
theorem Since.record (h : Since t P bs t₁) (h₁ : t₁.triggered = true)
    (h₂ : t₂.triggered = false) {s : Timestamp} (hstart : s.start = t₁.currentSpeech.start)
    (hs : t₂.speeches = t₁.speeches ++ [s]) : Since t P (bs ++ [t₂.triggered]) t₂ where
  current ht := by simp [h₂] at ht
  kept := by
    have := h.kept
    rw [hs, List.length_append]
    omega
  appended r hr := by
    rw [hs, List.drop_append_of_le_length h.kept] at hr
    rcases List.mem_append.mp hr with hr | hr
    · exact h.appended r hr
    · rw [List.mem_singleton.mp hr, hstart]
      rcases h.current h₁ with hP | ⟨ht, heq, -⟩
      · exact Or.inl hP
      · exact Or.inr ⟨ht, heq⟩
  recorded _ _ := by
    have := h.kept
    rw [hs, List.length_append, List.length_singleton]
    omega

/-- **Every window keeps to `Since`**, if it opens no segment before `P`. -/
theorem Since.next {a : WordArith} (hmax : c.maxSpeechSamples = F32.infinity)
    (h : Since t P bs t₁) (hP : c.isHigh prob = true → t₁.triggered = false → P ≤ t₁.currentSample)
    (hn : Next a c t₁ prob t₂) : Since t P (bs ++ [t₂.triggered]) t₂ := by
  -- without a maximal length a segment is closed by silence only
  have hex := not_exceeds hmax t₁
  cases hn with
  | rise hp ht =>
      exact ⟨fun _ => Or.inl (hP hp ht), h.kept, h.appended, by simp⟩
  | extend hp ht => exact h.stay rfl (fun _ => rfl) rfl
  | endAtPrev _ _ hover => exact absurd hover hex
  | split _ _ hover => exact absurd hover hex
  | cut _ _ hover => exact absurd hover hex
  | fall _ _ ht =>
      exact h.record (s := { t₁.currentSpeech with end_ := t₁.silenceStart c }) ht rfl rfl rfl
  | mark _ _ ht =>
      exact h.stay rfl (fun _ => start_mark a c t₁) rfl
  | keep => exact h.stay rfl (fun _ => rfl) rfl

theorem flags_append (c : VadConfig) (t : Trigger) (ps : List F32) (p : F32) :
    t.flags c (ps ++ [p]) = t.flags c ps ++
      [(final (step WordArith.bits32 c) t (ps ++ [p])).triggered] := by
  induction ps generalizing t with
  | nil => rfl
  | cons q ps ih => exact congrArg (_ :: ·) (ih _)

/-- **The segments of a run.** The run starts less than a window before `P`, and its first
window does not open a segment unless it starts at `P`. -/
theorem since_run (hW : 0 ≤ c.windowSizeSamples) (hmax : c.maxSpeechSamples = F32.infinity)
    (hr : Range t) (hlt : P ≤ t.currentSample + c.windowSizeSamples) (ps : List F32)
    (hfirst : ∀ p ∈ ps.head?, c.isHigh p = true → t.triggered = false → P ≤ t.currentSample)
    (hB : t.currentSample + ps.length * c.windowSizeSamples < 2 ^ 31) :
    Since t P (t.flags c ps) (final (step WordArith.bits32 c) t ps) := by
  refine run_induction WordArith.bits32_exactBelow hW
    (P := fun ps t' => (∀ p ∈ ps.head?, c.isHigh p = true → t.triggered = false →
      P ≤ t.currentSample) → Since t P (t.flags c ps) t')
    hr (fun _ => since_init t P) ?_ ps hB hfirst
  intro ps p hs hcur ih hn hfirst
  have hprev : Since t P (t.flags c ps) (final (step WordArith.bits32 c) t ps) := by
    apply ih
    intro q hq
    apply hfirst q
    cases ps with
    | nil => simp at hq
    | cons r ps => exact hq
  rw [flags_append]
  refine hprev.next hmax ?_ hn
  intro hp hidle
  rw [hcur]
  cases ps with
  | nil =>
      -- the first window of the run
      simpa using hfirst p rfl hp hidle
  | cons r ps =>
      have hone : c.windowSizeSamples ≤ ((r :: ps).length : ℤ) * c.windowSizeSamples := by
        apply le_mul_of_one_le_left hW
        rw [List.length_cons]
        push_cast
        omega
      omega

end Trigger

end VadService
