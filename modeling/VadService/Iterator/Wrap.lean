import VadService.Iterator.Unlimited
import VadService.Iterator.Silence
import VadService.Lib.Lockstep

set_option autoImplicit false

/-! # Streams longer than the words

The trigger keeps positions in 32-bit words. Next to the same trigger over the integers it
makes the same decisions as long as every segment ends below `2^31`, after a silence that
reaches the minimum also when its length wraps, and as long as no end of speech is marked at
a multiple of `2^32`, which the words take for no mark at all (`InWords`). The two are related
by `Sim`: counters agree modulo `2^32`.
-/

namespace VadService

open Machine WordArith

namespace Trigger

variable {c : VadConfig} {m u : Trigger} {prob : F32}

/-! ## Reading a high window back -/

section High

variable (a : WordArith) (c : VadConfig) (t : Trigger)

theorem stepHigh_tempEnd : (t.stepHigh a c).tempEnd = 0 := by
  unfold stepHigh
  dsimp only
  split_ifs <;> simp_all

theorem stepHigh_currentSample : (t.stepHigh a c).currentSample = t.currentSample := by
  unfold stepHigh
  dsimp only
  split_ifs <;> rfl

theorem stepHigh_start : (t.stepHigh a c).currentSpeech.start =
    if t.triggered then t.currentSpeech.start
    else a.toSigned (a.toUnsigned (t.currentSample - a.toUnsigned c.windowSizeSamples)) := by
  unfold stepHigh
  dsimp only
  split_ifs <;> rfl

end High

/-! ## The simulation -/

/-- `m` counts in words what `u` counts in integers. A mark at a multiple of `2^32` says
nothing about the mark in words. -/
structure Sim (m u : Trigger) : Prop where
  triggered : m.triggered = u.triggered
  speeches : m.speeches = u.speeches
  sample : m.currentSample = u.currentSample % 2 ^ 32
  sample_nonneg : 0 ≤ u.currentSample
  start : u.triggered = true → m.currentSpeech.start = bits32.toSigned u.currentSpeech.start
  start_nonneg : u.triggered = true → 0 ≤ u.currentSpeech.start
  start_lt : u.triggered = true → u.currentSpeech.start < u.currentSample
  unmarked : u.tempEnd = 0 → m.tempEnd = 0
  marked : u.tempEnd % 2 ^ 32 ≠ 0 → m.tempEnd = u.tempEnd % 2 ^ 32
  start_lt_mark : u.triggered = true → u.tempEnd ≠ 0 → u.currentSpeech.start < u.tempEnd
  mark_le : u.tempEnd ≤ u.currentSample

theorem Sim.init : Sim {} {} where
  triggered := rfl
  speeches := rfl
  sample := rfl
  sample_nonneg := le_rfl
  start h := absurd h Bool.false_ne_true
  start_nonneg h := absurd h Bool.false_ne_true
  start_lt h := absurd h Bool.false_ne_true
  unmarked _ := rfl
  marked h := absurd rfl h
  start_lt_mark h := absurd h Bool.false_ne_true
  mark_le := le_rfl

/-- Counting a window keeps the simulation. -/
theorem Sim.count (h : Sim m u) (hW : 0 < c.windowSizeSamples) :
    Sim (m.count bits32 c) (u.count unbounded c) := by
  have hm : (m.count bits32 c).currentSample
      = (m.currentSample + c.windowSizeSamples % 2 ^ 32) % 2 ^ 32 := rfl
  have hu : (u.count unbounded c).currentSample = u.currentSample + c.windowSizeSamples := rfl
  have hsample := h.sample
  have hnonneg := h.sample_nonneg
  exact {
    triggered := h.triggered
    speeches := h.speeches
    sample := by
      rw [hm, hu]
      omega
    sample_nonneg := by
      rw [hu]
      omega
    start := h.start
    start_nonneg := h.start_nonneg
    start_lt := fun ht => by
      have hlt := h.start_lt ht
      rw [hu]
      exact hlt.trans (by omega)
    unmarked := h.unmarked
    marked := h.marked
    start_lt_mark := h.start_lt_mark
    mark_le := by
      have hle := h.mark_le
      rw [hu]
      exact hle.trans (by omega) }

/-- A high window keeps the simulation. -/
theorem Sim.stepHigh (h : Sim m u) (hW : 0 < c.windowSizeSamples)
    (hfirst : c.windowSizeSamples ≤ u.currentSample) :
    Sim (m.stepHigh bits32 c) (u.stepHigh unbounded c) := by
  have hsample := h.sample
  have hcur : (u.stepHigh unbounded c).currentSample = u.currentSample :=
    stepHigh_currentSample _ _ _
  have hstart : (u.stepHigh unbounded c).currentSpeech.start =
      if u.triggered then u.currentSpeech.start else u.currentSample - c.windowSizeSamples :=
    stepHigh_start _ _ _
  have hmark : (u.stepHigh unbounded c).tempEnd = 0 := stepHigh_tempEnd _ _ _
  exact {
    triggered := by rw [stepHigh_triggered, stepHigh_triggered]
    speeches := by
      rw [stepHigh_speeches, stepHigh_speeches]
      exact h.speeches
    sample := by
      rw [stepHigh_currentSample, hcur]
      exact h.sample
    sample_nonneg := by
      rw [hcur]
      exact h.sample_nonneg
    start := fun _ => by
      rw [hstart, stepHigh_start, h.triggered]
      by_cases ht : u.triggered = true
      · rw [if_pos ht, if_pos ht]
        exact h.start ht
      · rw [if_neg ht, if_neg ht, hsample]
        simp only [bits32]
        omega
    start_nonneg := fun _ => by
      rw [hstart]
      by_cases ht : u.triggered = true
      · rw [if_pos ht]
        exact h.start_nonneg ht
      · rw [if_neg ht]
        omega
    start_lt := fun _ => by
      rw [hstart, hcur]
      by_cases ht : u.triggered = true
      · rw [if_pos ht]
        exact h.start_lt ht
      · rw [if_neg ht]
        omega
    unmarked := fun _ => stepHigh_tempEnd _ _ _
    marked := fun hne => by
      rw [hmark] at hne
      exact absurd rfl hne
    start_lt_mark := fun _ hne => absurd hmark hne
    mark_le := by
      rw [hmark, hcur]
      exact h.sample_nonneg }

/-! ## A low window in an open segment -/

/-- The speech has begun before its end is marked. -/
theorem Sim.start_lt_markedEnd (h : Sim m u) (ht : u.triggered = true) :
    u.currentSpeech.start < u.markedEnd := by
  unfold markedEnd
  split_ifs with hmark
  · exact h.start_lt ht
  · exact h.start_lt_mark ht hmark

/-- The marks agree unless the mark over the integers is a multiple of `2^32`. -/
theorem Sim.markedEnd (h : Sim m u) (hmark : u.tempEnd ≠ 0 → u.tempEnd % 2 ^ 32 ≠ 0) :
    m.markedEnd = u.markedEnd % 2 ^ 32 := by
  unfold Trigger.markedEnd
  by_cases h0 : u.tempEnd = 0
  · rw [if_pos h0, if_pos (h.unmarked h0)]
    exact h.sample
  · have hm := h.marked (hmark h0)
    rw [if_neg h0, if_neg (hm ▸ hmark h0)]
    exact hm

theorem Sim.markedEnd_of_lt (h : Sim m u) (ht : u.triggered = true)
    (hend : u.markedEnd < 2 ^ 31) : m.markedEnd = u.markedEnd % 2 ^ 32 := by
  have hlt := h.start_lt_markedEnd ht
  have h0 := h.start_nonneg ht
  refine h.markedEnd fun hmark => ?_
  rw [Trigger.markedEnd, if_neg hmark] at hend hlt
  omega

theorem Sim.markedEnd_le (h : Sim m u) : u.markedEnd ≤ u.currentSample := by
  unfold Trigger.markedEnd
  split_ifs
  · exact le_rfl
  · exact h.mark_le

/-- With the same mark the words never end a segment the integers leave open. -/
theorem Sim.closes_of_closes (h : Sim m u) (ht : u.triggered = true)
    (hsil : c.minSilenceSamples < 2 ^ 31) (hmark : m.markedEnd = u.markedEnd % 2 ^ 32)
    (hcloses : m.Closes bits32 c) : u.Closes unbounded c := by
  obtain ⟨hquiet, hlong⟩ := hcloses
  have hstart := h.start ht
  have hlt := h.start_lt_markedEnd ht
  have hle := h.markedEnd_le
  rw [h.sample, hmark] at hquiet
  rw [hmark, hstart] at hlong
  simp only [bits32] at hquiet hlong
  refine ⟨?_, ?_⟩
  · show c.minSilenceSamples ≤ u.currentSample - u.markedEnd
    omega
  · show c.minSpeechSamples < u.markedEnd - u.currentSpeech.start
    omega

/-- The silence reaches the minimum also in words. -/
def QuietInWords (c : VadConfig) (u : Trigger) : Prop :=
  c.minSilenceSamples % 2 ^ 32 ≤ (u.currentSample - u.markedEnd) % 2 ^ 32

instance (c : VadConfig) (u : Trigger) : Decidable (QuietInWords c u) :=
  inferInstanceAs (Decidable (_ ≤ _))

/-- A segment that the integers end below `2^31` is ended by the words if the silence reaches
the minimum in words. -/
theorem Sim.closes_iff (h : Sim m u) (ht : u.triggered = true)
    (hmark : m.markedEnd = u.markedEnd % 2 ^ 32) (hcloses : u.Closes unbounded c)
    (hend : u.markedEnd < 2 ^ 31) : m.Closes bits32 c ↔ QuietInWords c u := by
  have hlong : c.minSpeechSamples < u.markedEnd - u.currentSpeech.start := hcloses.2
  have hstart := h.start ht
  have hlt := h.start_lt_markedEnd ht
  have h0 := h.start_nonneg ht
  unfold Closes QuietInWords
  rw [h.sample, hmark, hstart]
  simp only [bits32]
  omega

/-- The segment the words record is that of the integers exactly when it ends below `2^31`. -/
theorem Sim.recorded_iff (h : Sim m u) (ht : u.triggered = true) :
    ({ m.currentSpeech with end_ := bits32.toSigned m.markedEnd } : Timestamp)
        = { u.currentSpeech with end_ := u.markedEnd } ↔
      bits32.toSigned m.markedEnd = u.markedEnd ∧ u.currentSpeech.start < 2 ^ 31 := by
  have hstart := h.start ht
  have h0 := h.start_nonneg ht
  rw [Timestamp.mk.injEq, hstart]
  simp only [bits32]
  omega

/-! ## One window -/

/-- A window the words decide on as the integers do. If it ends a segment of the integers, the
segment ends below `2^31` and its silence is long enough in words too; if it does not, the words
have not lost a mark at a multiple of `2^32` and end the segment at a later one. -/
def InWords (c : VadConfig) (s : Trigger × Trigger) (prob : F32) : Prop :=
  c.isLow prob = true → s.2.triggered = true →
    ((s.2.count unbounded c).Closes unbounded c →
        (s.2.count unbounded c).markedEnd < 2 ^ 31 ∧ QuietInWords c (s.2.count unbounded c)) ∧
      (¬ (s.2.count unbounded c).Closes unbounded c → s.2.tempEnd ≠ 0 →
        s.2.tempEnd % 2 ^ 32 = 0 → ¬ (s.1.count bits32 c).Closes bits32 c)

instance (c : VadConfig) (s : Trigger × Trigger) (prob : F32) : Decidable (InWords c s prob) :=
  inferInstanceAs (Decidable (_ → _ → _ ∧ _))

/-- The window leaves the two triggers with the same flag and the same segments. -/
structure Same (m u : Trigger) : Prop where
  triggered : m.triggered = u.triggered
  speeches : m.speeches = u.speeches

theorem Sim.same (h : Sim m u) : Same m u := ⟨h.triggered, h.speeches⟩

/-- Both end the segment. -/
theorem Sim.both_close (h : Sim m u) (ht : u.triggered = true) (hm : m.Closes bits32 c)
    (hu : u.Closes unbounded c) :
    (Same (m.stepLow bits32 c) (u.stepLow unbounded c) ↔
        bits32.toSigned m.markedEnd = u.markedEnd ∧ u.currentSpeech.start < 2 ^ 31) ∧
      (Same (m.stepLow bits32 c) (u.stepLow unbounded c) →
        Sim (m.stepLow bits32 c) (u.stepLow unbounded c)) := by
  have htm : m.triggered = true := h.triggered.trans ht
  rw [stepLow_closes htm hm, stepLow_closes ht hu]
  have hrec := h.recorded_iff ht
  constructor
  · rw [← hrec]
    constructor
    · rintro ⟨-, hsp⟩
      have hlast : m.speeches ++ [_] = u.speeches ++ [_] := hsp
      rw [h.speeches] at hlast
      exact List.singleton_injective (List.append_cancel_left hlast)
    · intro heq
      refine ⟨rfl, ?_⟩
      show m.speeches ++ [_] = u.speeches ++ [_]
      rw [h.speeches]
      exact congrArg (fun s => u.speeches ++ [s]) heq
  · rintro ⟨-, hsp⟩
    exact {
      triggered := rfl
      speeches := hsp
      sample := h.sample
      sample_nonneg := h.sample_nonneg
      start := fun hne => absurd hne Bool.false_ne_true
      start_nonneg := fun hne => absurd hne Bool.false_ne_true
      start_lt := fun hne => absurd hne Bool.false_ne_true
      unmarked := fun _ => rfl
      marked := fun hne => absurd rfl hne
      start_lt_mark := fun hne => absurd hne Bool.false_ne_true
      mark_le := h.sample_nonneg }

/-- Neither ends the segment. -/
theorem Sim.neither_closes (h : Sim m u) (ht : u.triggered = true)
    (hm : ¬ m.Closes bits32 c) (hu : ¬ u.Closes unbounded c) :
    Sim (m.stepLow bits32 c) (u.stepLow unbounded c) := by
  have hmm := stepLow_marked (h.triggered.trans ht) hm
  have hmu := stepLow_marked ht hu
  have hlt := h.start_lt_markedEnd ht
  have h0 := h.start_nonneg ht
  exact {
    triggered := by rw [hmm.triggered, hmu.triggered]
    speeches := by
      rw [hmm.speeches, hmu.speeches]
      exact h.speeches
    sample := by
      rw [hmm.currentSample, hmu.currentSample]
      exact h.sample
    sample_nonneg := by
      rw [hmu.currentSample]
      exact h.sample_nonneg
    start := fun _ => by
      rw [hmm.start, hmu.start]
      exact h.start ht
    start_nonneg := fun _ => by
      rw [hmu.start]
      exact h0
    start_lt := fun _ => by
      rw [hmu.start, hmu.currentSample]
      exact h.start_lt ht
    unmarked := fun hne => by
      -- a mark over the integers is positive
      rw [hmu.tempEnd] at hne
      omega
    marked := fun hne => by
      rw [hmu.tempEnd] at hne ⊢
      rw [hmm.tempEnd]
      apply h.markedEnd
      intro hmark
      rwa [Trigger.markedEnd, if_neg hmark] at hne
    start_lt_mark := fun _ _ => by
      rw [hmu.start, hmu.tempEnd]
      exact hlt
    mark_le := by
      rw [hmu.tempEnd, hmu.currentSample]
      exact h.markedEnd_le }

/-- **A low window in an open segment.** -/
theorem Sim.stepLow (h : Sim m u) (ht : u.triggered = true)
    (hsil : c.minSilenceSamples < 2 ^ 31) :
    (Same (m.stepLow bits32 c) (u.stepLow unbounded c) ↔
        (u.Closes unbounded c → u.markedEnd < 2 ^ 31 ∧ QuietInWords c u) ∧
          (¬ u.Closes unbounded c → u.tempEnd ≠ 0 → u.tempEnd % 2 ^ 32 = 0 →
            ¬ m.Closes bits32 c)) ∧
      (Same (m.stepLow bits32 c) (u.stepLow unbounded c) →
        Sim (m.stepLow bits32 c) (u.stepLow unbounded c)) := by
  have htm : m.triggered = true := h.triggered.trans ht
  have hlt := h.start_lt_markedEnd ht
  by_cases hu : u.Closes unbounded c <;> by_cases hm : m.Closes bits32 c
  · -- both end the segment: the recorded segments decide
    obtain ⟨hiff, hkeep⟩ := h.both_close ht hm hu
    refine ⟨?_, hkeep⟩
    rw [hiff]
    constructor
    · rintro ⟨hend, -⟩
      have hend' : u.markedEnd < 2 ^ 31 := by
        rw [← hend]
        simp only [bits32]
        omega
      exact ⟨fun _ => ⟨hend', (h.closes_iff ht (h.markedEnd_of_lt ht hend') hu hend').mp hm⟩,
        fun hne => absurd hu hne⟩
    · rintro ⟨hwords, -⟩
      have hend := (hwords hu).1
      have h0 := h.start_nonneg ht
      rw [h.markedEnd_of_lt ht hend]
      simp only [bits32]
      omega
  · -- the words leave open what the integers end
    have hdiff : ¬ Same (m.stepLow bits32 c) (u.stepLow unbounded c) := by
      rintro ⟨htrig, -⟩
      rw [(stepLow_marked htm hm).triggered, stepLow_closes ht hu] at htrig
      cases htrig
    refine ⟨iff_of_false hdiff ?_, fun hsame => absurd hsame hdiff⟩
    rintro ⟨hwords, -⟩
    obtain ⟨hend, hquiet⟩ := hwords hu
    exact hm ((h.closes_iff ht (h.markedEnd_of_lt ht hend) hu hend).mpr hquiet)
  · -- the words end what the integers leave open: they have lost the mark
    have hdiff : ¬ Same (m.stepLow bits32 c) (u.stepLow unbounded c) := by
      rintro ⟨htrig, -⟩
      rw [(stepLow_marked ht hu).triggered, stepLow_closes htm hm] at htrig
      cases htrig
    refine ⟨iff_of_false hdiff ?_, fun hsame => absurd hsame hdiff⟩
    rintro ⟨-, hlost⟩
    exact hu (h.closes_of_closes ht hsil (h.markedEnd fun h0 h1 => hlost hu h0 h1 hm) hm)
  · have hsim := h.neither_closes ht hm hu
    exact ⟨iff_of_true hsim.same ⟨fun hne => absurd hne hu, fun _ _ _ => hm⟩, fun _ => hsim⟩

/-- **One window between triggers that simulate each other.** -/
theorem Sim.step (h : Sim m u) (hW : 0 < c.windowSizeSamples)
    (hmax : c.maxSpeechSamples = F32.infinity) (hsil : c.minSilenceSamples < 2 ^ 31)
    (prob : F32) :
    (Same (m.step bits32 c prob).2 (u.step unbounded c prob).2 ↔ InWords c (m, u) prob) ∧
      (Same (m.step bits32 c prob).2 (u.step unbounded c prob).2 →
        Sim (m.step bits32 c prob).2 (u.step unbounded c prob).2) := by
  have hcount := h.count hW
  have hfirst : c.windowSizeSamples ≤ (u.count unbounded c).currentSample := by
    have hnonneg := h.sample_nonneg
    show c.windowSizeSamples ≤ u.currentSample + c.windowSizeSamples
    omega
  rw [step_unlimited hmax, step_unlimited hmax]
  by_cases hhigh : c.isHigh prob = true
  · have hsim := hcount.stepHigh hW hfirst
    rw [if_pos hhigh, if_pos hhigh]
    refine ⟨iff_of_true hsim.same fun hlow => ?_, fun _ => hsim⟩
    rw [not_isHigh_of_isLow hlow] at hhigh
    cases hhigh
  rw [if_neg hhigh, if_neg hhigh]
  by_cases hlow : c.isLow prob = true
  · rw [if_pos hlow, if_pos hlow]
    cases ht : u.triggered with
    | false =>
        have htm : (m.count bits32 c).triggered = false := h.triggered.trans ht
        rw [stepLow_idle htm, stepLow_idle (show (u.count unbounded c).triggered = false from ht)]
        refine ⟨iff_of_true hcount.same ?_, fun _ => hcount⟩
        intro _ hopen
        rw [ht] at hopen
        cases hopen
    | true =>
        obtain ⟨hiff, hkeep⟩ := hcount.stepLow ht hsil
        refine ⟨hiff.trans ?_, hkeep⟩
        exact ⟨fun hw _ _ => hw, fun hw => hw hlow ht⟩
  · rw [if_neg hlow, if_neg hlow]
    exact ⟨iff_of_true hcount.same fun hl => absurd hl hlow, fun _ => hcount⟩

/-- The two triggers on the same probabilities. -/
def sideBySide (c : VadConfig) :
    Trigger × Trigger → F32 → (Bool × Bool) × (Trigger × Trigger) :=
  both (Trigger.step bits32 c) (Trigger.step unbounded c)

theorem along_same_iff (hW : 0 < c.windowSizeSamples)
    (hmax : c.maxSpeechSamples = F32.infinity) (hsil : c.minSilenceSamples < 2 ^ 31)
    (ps : List F32) :
    Along (sideBySide c)
        (fun s prob => Same (sideBySide c s prob).2.1 (sideBySide c s prob).2.2) ({}, {}) ps ↔
      Along (sideBySide c) (InWords c) ({}, {}) ps :=
  along_congr_inv (H := fun _ _ => True) (fun s : Trigger × Trigger => Sim s.1 s.2)
    (fun _ prob hsim _ => (hsim.step hW hmax hsil prob).1)
    (fun _ prob hsim _ => (hsim.step hW hmax hsil prob).2) Sim.init (along_true _ _)

/-- Low windows from the beginning only count. -/
theorem final_idle {a : WordArith}
    (hadd : ∀ x y, a.toUnsigned (a.toUnsigned x + a.toUnsigned y) = a.toUnsigned (x + y))
    (hzero : a.toUnsigned 0 = 0) (hmax : c.maxSpeechSamples = F32.infinity)
    (hlow : c.isLow prob = true) (n : ℕ) :
    final (Trigger.step a c) {} (List.replicate n prob)
      = { currentSample := a.toUnsigned (n * c.windowSizeSamples) } := by
  induction n with
  | zero => simp [hzero]
  | succ n ih =>
      rw [List.replicate_succ', final_append, ih, final_cons, final_nil, step_unlimited hmax,
        not_isHigh_of_isLow hlow, if_neg Bool.false_ne_true, if_pos hlow]
      have hcount : count a c { currentSample := a.toUnsigned (n * c.windowSizeSamples) }
          = { currentSample := a.toUnsigned ((n + 1 : ℕ) * c.windowSizeSamples) } := by
        rw [count, hadd]
        push_cast
        rw [add_mul, one_mul]
      rw [hcount, stepLow_idle rfl]

end Trigger

namespace VadIterator

open Trigger

variable {σ : Type} (run : OrtRun σ)

/-- After `k` of the windows the iterator has the flag and the segments of the trigger over the
integers, on the same probabilities. -/
def SameAfter (c : VadConfig) (session : σ) (ws : List (List F32)) (k : ℕ) : Prop :=
  Same (final (predictStep run) (new c session) (ws.take k)).toTrigger
    (final (Trigger.step unbounded c) {}
      ((outputs (predictStep run) (new c session) ws).take k))

/-- **Along a stream of any length the iterator decides and records as the trigger over the
integers does, exactly when every window is one the words decide on as the integers do.** -/
theorem sameAfter_iff_inWords {c : VadConfig} (hW : 0 < c.windowSizeSamples)
    (hmax : c.maxSpeechSamples = F32.infinity) (hsil : c.minSilenceSamples < 2 ^ 31)
    (session : σ) (ws : List (List F32)) :
    (∀ k ≤ ws.length, SameAfter run c session ws k) ↔
      Along (sideBySide c) (InWords c) ({}, {}) (outputs (predictStep run) (new c session) ws) := by
  rw [← along_same_iff hW hmax hsil,
    along_after_iff (R := fun s : Trigger × Trigger => Same s.1 s.2) ⟨rfl, rfl⟩, length_outputs]
  refine forall₂_congr fun k _ => ?_
  rw [SameAfter, sideBySide, final_both, final_predictStep, outputs_take]
  rfl

/-- Two bursts of speech at the beginning of a stream, the first of which is recorded. -/
theorem sameAfter_iff_inWords_window :
    (final (predictStep scripted) (new VadConfig.new twoBursts)
        (List.replicate 21 silentWindow)).getSpeechTimestamps = [⟨0, 4608⟩] ∧
      ∀ k ≤ 21, SameAfter scripted VadConfig.new twoBursts (List.replicate 21 silentWindow) k := by
  have hmax : VadConfig.new.maxSpeechSamples = F32.infinity :=
    maxSpeechSamples_new (by decide) (by decide) (by decide)
  refine ⟨?_, (sameAfter_iff_inWords scripted (by decide) hmax (by decide) twoBursts
    (List.replicate 21 silentWindow)).mpr ?_⟩
  · show (final (predictStep scripted) (new VadConfig.new twoBursts) _).toTrigger.speeches = _
    rw [final_scripted _ _ (by decide)]
    decide +kernel
  · rw [outputs_scripted _ _ (by decide)]
    decide +kernel

/-- Eight windows of speech and five of silence. -/
def shortBurst : List F32 := List.replicate 8 (F32.ofInt 1) ++ List.replicate 5 F32.zero

/-- Speech after `2^31` samples of silence: the segment begins at a negative position. -/
theorem segment_starts_negative :
    ¬ ∀ (script : List F32) (ws : List (List F32)), ∀ k ≤ ws.length,
      SameAfter scripted VadConfig.new script ws k := by
  intro h
  obtain ⟨n, hn⟩ : ∃ n : ℕ, (n : ℤ) * 512 = 2 ^ 31 := ⟨2 ^ 22, by norm_num⟩
  have hmax : VadConfig.new.maxSpeechSamples = F32.infinity :=
    maxSpeechSamples_new (by decide) (by decide) (by decide)
  have hlow : VadConfig.new.isLow F32.zero = true := by decide +kernel
  have hwords := @final_idle VadConfig.new F32.zero bits32
    (fun x y => (Int.add_emod x y _).symm) rfl hmax hlow n
  have hints := @final_idle VadConfig.new F32.zero unbounded (fun _ _ => rfl) rfl hmax hlow n
  have hsame := h (List.replicate n F32.zero ++ shortBurst)
    (List.replicate (n + shortBurst.length) silentWindow) (n + shortBurst.length) (by simp)
  rw [SameAfter, List.take_of_length_le (by simp), List.take_of_length_le (by simp),
    final_predictStep, outputs_scripted _ _ (by simp [new]),
    List.take_of_length_le (by simp [new])] at hsame
  have hwindow : VadConfig.new.windowSizeSamples = 512 := by decide
  rw [hwindow, hn] at hwords hints
  have hsp := hsame.speeches
  have hscript : (new VadConfig.new (List.replicate n F32.zero ++ shortBurst)).session
      = List.replicate n F32.zero ++ shortBurst := rfl
  have hstart : (new VadConfig.new (List.replicate n F32.zero ++ shortBurst)).toTrigger = {} := rfl
  have hcfg : (new VadConfig.new (List.replicate n F32.zero ++ shortBurst)).cfg
      = VadConfig.new := rfl
  rw [hscript, hstart, hcfg, final_append, final_append, hwords, hints] at hsp
  exact absurd hsp (by decide +kernel)

end VadIterator

end VadService
