import VadService.Iterator.Since

set_option autoImplicit false

/-! # The trigger as a function of the history

Without a maximal length the members of the trigger remember two windows only: the one the
open segment rose at, and the first low one since the last high one (`Remembers`). So what
a window does can be read off the probabilities and flags before it, with no counter in
sight (`trigger_history`); `prev_end` and `next_start` have no influence.
-/

namespace VadService

open Machine Window

namespace Trigger

/-! ## Windows of the history -/

/-- Window `k` of the history is below `threshold - 0.15`. -/
def LowAt (c : VadConfig) (ps : List F32) (k : ℕ) : Prop :=
  ∃ p, ps[k]? = some p ∧ c.isLow p = true

/-- `j` is the last window before window `k` at or above the threshold. -/
def LastHigh (c : VadConfig) (ps : List F32) (j k : ℕ) : Prop :=
  j < k ∧ HighAt c ps j ∧ ∀ i, j < i → i < k → ¬ HighAt c ps i

/-- `f` is the first window after window `j` below `threshold - 0.15`. -/
def FirstLow (c : VadConfig) (ps : List F32) (j f : ℕ) : Prop :=
  j < f ∧ LowAt c ps f ∧ ∀ i, j < i → i < f → ¬ LowAt c ps i

/-- The flags `bs`, one after each window, have been up since window `s` when window `k` comes,
and were down before window `s`. -/
def TriggeredSince (bs : List Bool) (s k : ℕ) : Prop :=
  s < k ∧ (∀ i, s ≤ i → i < k → bs[i]? = some true) ∧ ∀ i, i + 1 = s → bs[i]? = some false

/-- Window `k` ends the segment that rose at window `s`, and `f` is the window its silence
began with. -/
def EndsAt (c : VadConfig) (ps : List F32) (s k f : ℕ) : Prop :=
  LowAt c ps k ∧ (∃ j, LastHigh c ps j k ∧ FirstLow c ps j f) ∧
    c.minSilenceSamples ≤ ((k : ℤ) - f) * c.windowSizeSamples ∧
    c.minSpeechSamples < ((f : ℤ) + 1 - s) * c.windowSizeSamples

theorem lastHigh_unique {c : VadConfig} {ps : List F32} {j j' k : ℕ} (h : LastHigh c ps j k)
    (h' : LastHigh c ps j' k) : j = j' := by
  obtain ⟨hlt, hj, hnone⟩ := h
  obtain ⟨hlt', hj', hnone'⟩ := h'
  rcases lt_trichotomy j j' with hjj | hjj | hjj
  · exact absurd hj' (hnone j' hjj hlt')
  · exact hjj
  · exact absurd hj (hnone' j hjj hlt)

theorem firstLow_unique {c : VadConfig} {ps : List F32} {j f f' : ℕ} (h : FirstLow c ps j f)
    (h' : FirstLow c ps j f') : f = f' := by
  obtain ⟨hlt, hf, hnone⟩ := h
  obtain ⟨hlt', hf', hnone'⟩ := h'
  rcases lt_trichotomy f f' with hff | hff | hff
  · exact absurd hf (hnone' f hlt hff)
  · exact hff
  · exact absurd hf' (hnone f' hlt' hff)

theorem triggeredSince_unique {bs : List Bool} {s s' k : ℕ} (h : TriggeredSince bs s k)
    (h' : TriggeredSince bs s' k) : s = s' := by
  obtain ⟨hlt, hup, hdown⟩ := h
  obtain ⟨hlt', hup', hdown'⟩ := h'
  -- the flag would be up and down before the later of the two
  rcases lt_trichotomy s s' with hss | hss | hss
  · have h1 := hup (s' - 1) (by omega) (by omega)
    have h2 := hdown' (s' - 1) (by omega)
    simp [h1] at h2
  · exact hss
  · have h1 := hup' (s - 1) (by omega) (by omega)
    have h2 := hdown (s - 1) (by omega)
    simp [h1] at h2

theorem endsAt_unique {c : VadConfig} {ps : List F32} {s k f f' : ℕ} (h : EndsAt c ps s k f)
    (h' : EndsAt c ps s k f') : f = f' := by
  obtain ⟨-, ⟨j, hj, hf⟩, -⟩ := h
  obtain ⟨-, ⟨j', hj', hf'⟩, -⟩ := h'
  obtain rfl := lastHigh_unique hj hj'
  exact firstLow_unique hf hf'

/-! ## What the trigger remembers -/

/-- The trigger before window `n` of the history `ps` with the flags `bs`. -/
structure Remembers (c : VadConfig) (ps : List F32) (bs : List Bool) (n : ℕ) (t : Trigger) :
    Prop where
  sample : t.currentSample = windowStart c n
  flag : ∀ i, i + 1 = n → bs[i]? = some t.triggered
  since : t.triggered = true →
    ∃ s, TriggeredSince bs s n ∧ t.currentSpeech.start = windowStart c s
  silence : t.triggered = true → ∃ j, LastHigh c ps j n ∧
    ((t.tempEnd = 0 ∧ ∀ i, j < i → i < n → ¬ LowAt c ps i) ∨
      ∃ f, f < n ∧ FirstLow c ps j f ∧ t.tempEnd = windowStart c (f + 1))

variable {a : WordArith} {c : VadConfig} {t t' : Trigger} {prob : F32} {ps qs : List F32}
  {bs cs : List Bool} {n : ℕ}

theorem remembers_init : Remembers c [] [] 0 {} where
  sample := by simp [windowStart]
  flag i hi := by omega
  since h := absurd h Bool.false_ne_true
  silence h := absurd h Bool.false_ne_true

/-- Only the windows before window `n` matter. -/
theorem Remembers.congr (h : Remembers c ps bs n t) (hp : ∀ i, i < n → ps[i]? = qs[i]?)
    (hb : ∀ i, i < n → bs[i]? = cs[i]?) : Remembers c qs cs n t where
  sample := h.sample
  flag i hi := by
    rw [← hb i (by omega)]
    exact h.flag i hi
  since ht := by
    obtain ⟨s, ⟨hs, hup, hdown⟩, hstart⟩ := h.since ht
    refine ⟨s, ⟨hs, ?_, ?_⟩, hstart⟩
    · intro i hi hin
      rw [← hb i hin]
      exact hup i hi hin
    · intro i hi
      rw [← hb i (by omega)]
      exact hdown i hi
  silence ht := by
    have hhigh : ∀ i, i < n → (HighAt c ps i ↔ HighAt c qs i) := by
      intro i hi
      unfold HighAt
      rw [hp i hi]
    have hlow : ∀ i, i < n → (LowAt c ps i ↔ LowAt c qs i) := by
      intro i hi
      unfold LowAt
      rw [hp i hi]
    obtain ⟨j, ⟨hj, hjh, hjn⟩, hsil⟩ := h.silence ht
    refine ⟨j, ⟨hj, (hhigh j hj).mp hjh, ?_⟩, ?_⟩
    · intro i hi hin hih
      exact hjn i hi hin ((hhigh i hin).mpr hih)
    · rcases hsil with ⟨hz, hnone⟩ | ⟨f, hf, ⟨hjf, hfl, hfn⟩, hend⟩
      · left
        refine ⟨hz, ?_⟩
        intro i hi hin hil
        exact hnone i hi hin ((hlow i hin).mpr hil)
      · right
        refine ⟨f, hf, ⟨hjf, (hlow f hf).mp hfl, ?_⟩, hend⟩
        intro i hi hif hil
        exact hfn i hi hif ((hlow i (by omega)).mpr hil)

/-! ## Every window keeps the memory right -/

/-- A flag that stays up has been up since the same window. -/
theorem TriggeredSince.stay {s : ℕ} (h : TriggeredSince bs s n) (hn : bs[n]? = some true) :
    TriggeredSince bs s (n + 1) := by
  obtain ⟨hs, hup, hdown⟩ := h
  refine ⟨by omega, ?_, hdown⟩
  intro i hi hin
  rcases Nat.lt_succ_iff_lt_or_eq.mp hin with hlt | heq
  · exact hup i hi hlt
  · exact heq ▸ hn

/-- A window that is not high leaves the last high one. -/
theorem LastHigh.stay {j : ℕ} (h : LastHigh c ps j n) (hn : ¬ HighAt c ps n) :
    LastHigh c ps j (n + 1) := by
  obtain ⟨hj, hjh, hjn⟩ := h
  refine ⟨by omega, hjh, ?_⟩
  intro i hi hin
  rcases Nat.lt_succ_iff_lt_or_eq.mp hin with hlt | heq
  · exact hjn i hi hlt
  · exact heq ▸ hn

theorem lastHigh_self (h : HighAt c ps n) : LastHigh c ps n (n + 1) := by
  refine ⟨by omega, h, ?_⟩
  intro i hi hin
  omega

/-- The windows after a high one, when it has just passed. -/
theorem no_low_after_self : ∀ i, n < i → i < n + 1 → ¬ LowAt c ps i := by
  intro i hi hin
  omega

/-- The silence of an open segment, seen from a low window. -/
theorem Remembers.silenceStart (h : Remembers c ps bs n t) (hW : 0 < c.windowSizeSamples)
    (ht : t.triggered = true) (hl : LowAt c ps n) :
    ∃ j f, LastHigh c ps j n ∧ f < n + 1 ∧ FirstLow c ps j f ∧
      t.silenceStart c = windowStart c (f + 1) := by
  obtain ⟨j, hj, ⟨hz, hnone⟩ | ⟨f, hf, hfl, hend⟩⟩ := h.silence ht
  · refine ⟨j, n, hj, by omega, ⟨hj.1, hl, hnone⟩, ?_⟩
    rw [Trigger.silenceStart, if_pos hz, nextSample, h.sample, windowStart_succ]
  · have hne : t.tempEnd ≠ 0 := by
      have hpos : 0 < windowStart c (f + 1) := by
        unfold windowStart
        positivity
      omega
    exact ⟨j, f, hj, by omega, hfl, by rw [Trigger.silenceStart, if_neg hne, hend]⟩

/-- **Every window keeps the memory right.** -/
theorem Remembers.next (hW : 0 < c.windowSizeSamples) (hmax : c.maxSpeechSamples = F32.infinity)
    (hr : Range t) (h : Remembers c ps bs n t) (hp : ps[n]? = some prob)
    (hb : bs[n]? = some t'.triggered) (hn : Next a c t prob t') :
    Remembers c ps bs (n + 1) t' := by
  have hex := not_exceeds hmax t
  have hsample : t'.currentSample = windowStart c (n + 1) := by
    rw [hn.currentSample, nextSample, h.sample, windowStart_succ]
  have hflag : ∀ i, i + 1 = n + 1 → bs[i]? = some t'.triggered := by
    intro i hi
    rw [Nat.succ_injective hi]
    exact hb
  have hhigh : HighAt c ps n ↔ c.isHigh prob = true := by
    unfold HighAt
    simp [hp]
  have hlow : LowAt c ps n ↔ c.isLow prob = true := by
    unfold LowAt
    simp [hp]
  cases hn with
  | rise hp' ht =>
      obtain ⟨e1, -, -⟩ := hr.idle ht
      refine ⟨hsample, hflag, ?_, ?_⟩
      · intro _
        refine ⟨n, ⟨by omega, ?_, ?_⟩, h.sample⟩
        · intro i hi hin
          rw [show i = n by omega]
          exact hb
        · intro i hi
          rw [h.flag i hi, ht]
      · intro _
        exact ⟨n, lastHigh_self (hhigh.mpr hp'), Or.inl ⟨e1, no_low_after_self⟩⟩
  | extend hp' ht =>
      refine ⟨hsample, hflag, ?_, ?_⟩
      · intro _
        obtain ⟨s, hs, hstart⟩ := h.since ht
        exact ⟨s, hs.stay (hb.trans (congrArg some ht)), hstart⟩
      · intro _
        exact ⟨n, lastHigh_self (hhigh.mpr hp'), Or.inl ⟨rfl, no_low_after_self⟩⟩
  | endAtPrev _ _ hover => exact absurd hover hex
  | split _ _ hover => exact absurd hover hex
  | cut _ _ hover => exact absurd hover hex
  | fall => exact ⟨hsample, hflag, by simp [Trigger.close], by simp [Trigger.close]⟩
  | mark hp' hl ht =>
      have hnot : ¬ HighAt c ps n := by simp [hhigh, hp']
      refine ⟨hsample, hflag, ?_, ?_⟩
      · intro _
        obtain ⟨s, hs, hstart⟩ := h.since ht
        exact ⟨s, hs.stay (hb.trans (congrArg some ht)), (start_mark a c t).trans hstart⟩
      · intro _
        obtain ⟨j, f, hj, hf, hfl, hend⟩ := h.silenceStart hW ht (hlow.mpr hl)
        exact ⟨j, hj.stay hnot, Or.inr ⟨f, hf, hfl, hend⟩⟩
  | keep hp' hidle =>
      have hnot : ¬ HighAt c ps n := by simp [hhigh, hp']
      refine ⟨hsample, hflag, ?_, ?_⟩
      · intro ht
        obtain ⟨s, hs, hstart⟩ := h.since ht
        exact ⟨s, hs.stay (hb.trans (congrArg some ht)), hstart⟩
      · intro ht
        have hl : ¬ LowAt c ps n := by
          rcases hidle with hidle | ⟨-, hl⟩
          · exact absurd (hidle.symm.trans ht) Bool.false_ne_true
          · simp [hlow, hl]
        obtain ⟨j, hj, hsil⟩ := h.silence ht
        refine ⟨j, hj.stay hnot, ?_⟩
        rcases hsil with ⟨hz, hnone⟩ | ⟨f, hf, hfl, hend⟩
        · left
          refine ⟨hz, ?_⟩
          intro i hi hin
          rcases Nat.lt_succ_iff_lt_or_eq.mp hin with hlt | heq
          · exact hnone i hi hlt
          · exact heq ▸ hl
        · exact Or.inr ⟨f, by omega, hfl, hend⟩

@[simp] theorem length_flags (c : VadConfig) (t : Trigger) (ps : List F32) :
    (t.flags c ps).length = ps.length := by
  induction ps generalizing t with
  | nil => rfl
  | cons p ps ih => rw [flags, List.length_cons, List.length_cons, ih]

/-- What the trigger remembers of a run from the reset state. -/
theorem remembers_run (hW : 0 < c.windowSizeSamples) (hmax : c.maxSpeechSamples = F32.infinity)
    (ps : List F32) (hB : ps.length * c.windowSizeSamples < 2 ^ 31) :
    Remembers c ps (flags c {} ps) ps.length (final (step WordArith.bits32 c) {} ps) := by
  refine run_induction WordArith.bits32_exactBelow hW.le
    (P := fun ps t => Remembers c ps (flags c {} ps) ps.length t) range_init remembers_init
    ?_ ps (by rw [zero_add]; exact hB)
  intro ps p hr _ ih hn
  have hold : Remembers c (ps ++ [p]) (flags c {} (ps ++ [p])) ps.length
      (final (step WordArith.bits32 c) {} ps) := by
    apply ih.congr
    · intro i hi
      rw [List.getElem?_append_left hi]
    · intro i hi
      rw [flags_append, List.getElem?_append_left (by rw [length_flags]; exact hi)]
  rw [List.length_append, List.length_singleton]
  have hlast : (ps ++ [p])[ps.length]? = some p := by simp
  refine hold.next hW hmax hr hlast ?_ hn
  rw [flags_append, List.getElem?_append_right (by rw [length_flags]), length_flags, Nat.sub_self]
  rfl

/-! ## The characterisation -/

/-- Window `k` of the history `ps` with the flags `bs` leads from `t` to `t'`, as the
history says. -/
structure FollowsHistory (c : VadConfig) (ps : List F32) (bs : List Bool) (k : ℕ)
    (t t' : Trigger) : Prop where
  rises : t.triggered = false → (t'.triggered = true ↔ HighAt c ps k)
  since : t.triggered = true ↔ ∃ s, TriggeredSince bs s k
  falls : ∀ s, TriggeredSince bs s k → (t'.triggered = false ↔ ∃ f, EndsAt c ps s k f)
  records : ∀ s f, TriggeredSince bs s k → EndsAt c ps s k f → t'.speeches = t.speeches ++
    [⟨s * c.windowSizeSamples, (f + 1) * c.windowSizeSamples⟩]
  keeps : (∀ s f, TriggeredSince bs s k → ¬ EndsAt c ps s k f) → t'.speeches = t.speeches

/-- The end of a segment, by what the trigger remembers. -/
theorem Remembers.endsAt_iff (h : Remembers c ps bs n t) (hW : 0 < c.windowSizeSamples)
    (hsil : a.toUnsigned c.minSilenceSamples = c.minSilenceSamples) (ht : t.triggered = true)
    (hp : ps[n]? = some prob) {s : ℕ} (hs : TriggeredSince bs s n) (f : ℕ) :
    EndsAt c ps s n f ↔ c.isLow prob = true ∧ t.silenceStart c = windowStart c (f + 1) ∧
      t.silent a c ∧ t.LongEnough c := by
  have hlow : LowAt c ps n ↔ c.isLow prob = true := by
    unfold LowAt
    simp [hp]
  have hstart : t.currentSpeech.start = windowStart c s := by
    obtain ⟨s', hs', hstart⟩ := h.since ht
    rw [hstart, triggeredSince_unique hs' hs]
  have hnext : t.nextSample c = windowStart c (n + 1) := by
    rw [nextSample, h.sample, windowStart_succ]
  -- the two conditions of `predict`, once the silence is known to begin with window `f`
  have hconds : t.silenceStart c = windowStart c (f + 1) →
      ((t.silent a c ↔ c.minSilenceSamples ≤ ((n : ℤ) - f) * c.windowSizeSamples) ∧
        (t.LongEnough c ↔
          c.minSpeechSamples < ((f : ℤ) + 1 - s) * c.windowSizeSamples)) := by
    intro hf
    unfold silent LongEnough
    rw [hsil, hnext, hf, hstart]
    unfold windowStart
    push_cast
    rw [← sub_mul, ← sub_mul, add_sub_add_right_eq_sub]
    exact ⟨Iff.rfl, Iff.rfl⟩
  constructor
  · rintro ⟨hl, ⟨j, hj, hjf⟩, hm, hmin⟩
    obtain ⟨j', f', hj', -, hjf', hend⟩ := h.silenceStart hW ht hl
    obtain rfl := lastHigh_unique hj hj'
    obtain rfl := firstLow_unique hjf hjf'
    obtain ⟨hq, hlong⟩ := hconds hend
    exact ⟨hlow.mp hl, hend, hq.mpr hm, hlong.mpr hmin⟩
  · rintro ⟨hl, hf, hq, hlong⟩
    obtain ⟨j', f', hj', -, hjf', hend⟩ := h.silenceStart hW ht (hlow.mpr hl)
    have hff : f' = f := by
      have heq : windowStart c (f' + 1) = windowStart c (f + 1) := hend.symm.trans hf
      unfold windowStart at heq
      have := mul_right_cancel₀ hW.ne' heq
      omega
    subst hff
    obtain ⟨hq', hlong'⟩ := hconds hf
    exact ⟨hlow.mpr hl, ⟨j', hj', hjf'⟩, hq'.mp hq, hlong'.mp hlong⟩

theorem Remembers.triggered_iff (h : Remembers c ps bs n t) :
    t.triggered = true ↔ ∃ s, TriggeredSince bs s n := by
  constructor
  · intro ht
    obtain ⟨s, hs, -⟩ := h.since ht
    exact ⟨s, hs⟩
  · rintro ⟨s, hs, hup, -⟩
    have h1 := hup (n - 1) (by omega) (by omega)
    have h2 := h.flag (n - 1) (by omega)
    exact (Option.some.inj (h1.symm.trans h2)).symm

/-- A window between segments. -/
theorem Remembers.follows_idle (h : Remembers c ps bs n t) (ht : t.triggered = false)
    (hrises : t'.triggered = true ↔ HighAt c ps n) (hspeeches : t'.speeches = t.speeches) :
    FollowsHistory c ps bs n t t' := by
  have hnone : ∀ s, ¬ TriggeredSince bs s n := by
    intro s hs
    exact absurd (ht.symm.trans (h.triggered_iff.mpr ⟨s, hs⟩)) Bool.false_ne_true
  exact ⟨fun _ => hrises, h.triggered_iff, fun s hs => absurd hs (hnone s),
    fun s f hs => absurd hs (hnone s), fun _ => hspeeches⟩

/-- A window that leaves the segment open. -/
theorem Remembers.follows_open (h : Remembers c ps bs n t) (ht : t.triggered = true) {s : ℕ}
    (hs : TriggeredSince bs s n) (hno : ∀ f, ¬ EndsAt c ps s n f) (ht' : t'.triggered = true)
    (hspeeches : t'.speeches = t.speeches) : FollowsHistory c ps bs n t t' := by
  refine ⟨fun hf => absurd (hf.symm.trans ht) Bool.false_ne_true, h.triggered_iff, ?_, ?_,
    fun _ => hspeeches⟩
  · intro s' hs'
    obtain rfl := triggeredSince_unique hs hs'
    constructor
    · intro hf
      exact absurd (hf.symm.trans ht') Bool.false_ne_true
    · rintro ⟨f, hend⟩
      exact absurd hend (hno f)
  · intro s' f hs' hend
    obtain rfl := triggeredSince_unique hs hs'
    exact absurd hend (hno f)

/-- A window that ends the segment. -/
theorem Remembers.follows_end (h : Remembers c ps bs n t) (ht : t.triggered = true) {s f : ℕ}
    (hs : TriggeredSince bs s n) (hend : EndsAt c ps s n f) (ht' : t'.triggered = false)
    (hspeeches : t'.speeches
      = t.speeches ++ [⟨s * c.windowSizeSamples, (f + 1) * c.windowSizeSamples⟩]) :
    FollowsHistory c ps bs n t t' := by
  refine ⟨fun hf => absurd (hf.symm.trans ht) Bool.false_ne_true, h.triggered_iff, ?_, ?_,
    fun hno => absurd hend (hno s f hs)⟩
  · intro s' hs'
    obtain rfl := triggeredSince_unique hs hs'
    exact ⟨fun _ => ⟨f, hend⟩, fun _ => ht'⟩
  · intro s' f' hs' hend'
    obtain rfl := triggeredSince_unique hs hs'
    obtain rfl := endsAt_unique hend hend'
    exact hspeeches

/-- **One window follows the history.** -/
theorem Remembers.follows (h : Remembers c ps bs n t) (hW : 0 < c.windowSizeSamples)
    (hmax : c.maxSpeechSamples = F32.infinity)
    (hsil : a.toUnsigned c.minSilenceSamples = c.minSilenceSamples)
    (hp : ps[n]? = some prob) (hn : Next a c t prob t') : FollowsHistory c ps bs n t t' := by
  have hex := not_exceeds hmax t
  have hhigh : HighAt c ps n ↔ c.isHigh prob = true := by
    unfold HighAt
    simp [hp]
  cases ht : t.triggered with
  | false =>
      apply h.follows_idle ht
      · rw [hhigh]
        cases hn with
        | rise hp' => simp [hp']
        | keep hp' => simp [hp', ht]
        | _ => simp_all
      · cases hn <;> first | rfl | simp_all
  | true =>
      obtain ⟨s, hs, hstart⟩ := h.since ht
      have hends := h.endsAt_iff hW hsil ht hp hs
      -- a window that does not meet the three conditions keeps the segment open
      have hno : ¬ (c.isLow prob = true ∧ t.silent a c ∧ t.LongEnough c) →
          ∀ f, ¬ EndsAt c ps s n f := by
        intro hnot f hend
        obtain ⟨hl, -, hq, hlong⟩ := (hends f).mp hend
        exact hnot ⟨hl, hq, hlong⟩
      cases hn with
      | rise _ ht' => exact absurd (ht'.symm.trans ht) Bool.false_ne_true
      | extend hp' =>
          refine h.follows_open ht hs (hno ?_) ht rfl
          rintro ⟨hl, -⟩
          simp [not_isHigh_of_isLow hl] at hp'
      | endAtPrev _ _ hover => exact absurd hover hex
      | split _ _ hover => exact absurd hover hex
      | cut _ _ hover => exact absurd hover hex
      | fall _ hl _ _ hq hlong =>
          have hlow : LowAt c ps n := ⟨prob, hp, hl⟩
          obtain ⟨-, f, -, -, -, hend⟩ := h.silenceStart hW ht hlow
          have hf : EndsAt c ps s n f := (hends f).mpr ⟨hl, hend, hq, hlong⟩
          apply h.follows_end ht hs hf rfl
          show t.speeches ++ [⟨t.currentSpeech.start, t.silenceStart c⟩] = _
          rw [hend, hstart]
          unfold windowStart
          push_cast
          rfl
      | mark _ _ _ _ hnot => exact h.follows_open ht hs (hno fun hc => hnot hc.2) ht rfl
      | keep _ hidle =>
          refine h.follows_open ht hs (hno ?_) ht rfl
          rintro ⟨hl', -⟩
          rcases hidle with hidle | ⟨-, hl⟩
          · exact absurd (hidle.symm.trans ht) Bool.false_ne_true
          · exact absurd (hl.symm.trans hl') Bool.false_ne_true

/-- **Every window of a run from the reset state follows the history.** -/
theorem follows_run (hW : 0 < c.windowSizeSamples) (hmax : c.maxSpeechSamples = F32.infinity)
    (hsil : 0 ≤ c.minSilenceSamples) (hint : c.minSilenceSamples < 2 ^ 31) (ps : List F32)
    (p : F32) (hB : (ps.length + 1) * c.windowSizeSamples < 2 ^ 31) :
    FollowsHistory c (ps ++ [p]) (flags c {} ps) ps.length
      (final (step WordArith.bits32 c) {} ps) (final (step WordArith.bits32 c) {} (ps ++ [p])) := by
  have ha := WordArith.bits32_exactBelow
  have hps : (ps.length : ℤ) * c.windowSizeSamples + c.windowSizeSamples < 2 ^ 31 := by
    rw [add_mul, one_mul] at hB
    exact hB
  have hrem : Remembers c (ps ++ [p]) (flags c {} ps) ps.length
      (final (step WordArith.bits32 c) {} ps) := by
    apply (remembers_run hW hmax ps (by omega)).congr
    · intro i hi
      rw [List.getElem?_append_left hi]
    · exact fun i _ => rfl
  obtain ⟨hr, hcur⟩ := run_range ha hW.le range_init ps (by rw [zero_add]; omega)
  have hlt : (final (step WordArith.bits32 c) {} ps).nextSample c < 2 ^ 31 := by
    unfold nextSample
    rw [hcur, zero_add]
    exact hps
  rw [final_append]
  have hlast : (ps ++ [p])[ps.length]? = some p := by simp
  exact hrem.follows hW hmax (ha.toUnsigned _ hsil hint) hlast (step_next ha hW.le hr hlt)

end Trigger

namespace VadIterator

variable {σ : Type}

/-- **The trigger is a function of the history.** Take an iterator that has just been
constructed or reset, without a maximal length, and any windows `ws` and `w`. What the last
of them does is what the probabilities and flags so far say. The bound on
`min_silence_samples` is that of an `int`. -/
theorem trigger_history (run : OrtRun σ) (it : VadIterator σ) (hnew : it.toTrigger = {})
    (hW : 0 < it.cfg.windowSizeSamples) (hmax : it.cfg.maxSpeechSamples = F32.infinity)
    (hsil : 0 ≤ it.cfg.minSilenceSamples) (hint : it.cfg.minSilenceSamples < 2 ^ 31)
    (ws : List (List F32)) (w : List F32)
    (hB : ((ws ++ [w]).length : ℤ) * it.cfg.windowSizeSamples < 2 ^ 31) :
    Trigger.FollowsHistory it.cfg (outputs (predictStep run) it (ws ++ [w]))
      (outputs (triggerStep run) it ws) ws.length (final (predictStep run) it ws).toTrigger
      (final (predictStep run) it (ws ++ [w])).toTrigger := by
  have hlen : ((ws ++ [w]).length : ℤ) = (outputs (predictStep run) it ws).length + 1 := by
    rw [List.length_append, List.length_singleton, length_outputs]
    push_cast
    rfl
  have h := Trigger.follows_run hW hmax hsil hint (outputs (predictStep run) it ws)
    (predictStep run (final (predictStep run) it ws) w).1 (by rw [← hlen]; exact hB)
  rw [final_predictStep, final_predictStep, outputs_triggerStep, outputs_append, outputs_cons,
    outputs_nil, hnew]
  rw [length_outputs] at h
  exact h

/-- The low window that ends the first of two bursts. -/
theorem trigger_history_burst :
    let it := VadIterator.new VadConfig.new twoBursts
    let ws := List.replicate 12 silentWindow
    Trigger.FollowsHistory VadConfig.new
      (outputs (predictStep scripted) it (ws ++ [silentWindow]))
      (outputs (triggerStep scripted) it ws) 12
      (final (predictStep scripted) it ws).toTrigger
      (final (predictStep scripted) it (ws ++ [silentWindow])).toTrigger :=
  trigger_history scripted (VadIterator.new VadConfig.new twoBursts) rfl (by decide)
    (maxSpeechSamples_new (by decide) (by decide) (by decide)) (by decide) (by decide)
    (List.replicate 12 silentWindow) silentWindow (by decide)

end VadIterator

end VadService
