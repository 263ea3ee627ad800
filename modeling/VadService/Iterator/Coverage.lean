import VadService.Iterator.Invariant

set_option autoImplicit false

/-! # No speech window is lost or reported twice

The history of a run is the list of probabilities seen so far; window `k` of a run from the
reset state covers the samples from `k * W` to `(k + 1) * W`. `Trigger.Covers` relates the
high windows of the history to the segments: each lies in a recorded segment or after the
start of the open one, and once `prev_end` is set, on one side or the other of the gap
between `prev_end` and `next_start`, where the segment may be split.
-/

namespace VadService

open Machine Window

namespace Trigger

/-- Window `k` of the history is at or above the threshold. -/
def HighAt (c : VadConfig) (ps : List F32) (k : ℕ) : Prop :=
  ∃ p, ps[k]? = some p ∧ c.isHigh p = true

/-- The first sample of window `k`. -/
def windowStart (c : VadConfig) (k : ℕ) : ℤ := k * c.windowSizeSamples

/-- The segment `s` contains window `k`. -/
def Contains (c : VadConfig) (s : Timestamp) (k : ℕ) : Prop :=
  s.start ≤ windowStart c k ∧ windowStart c (k + 1) ≤ s.end_

/-- `x` is the first sample of a high window of the history. -/
def StartsHigh (c : VadConfig) (ps : List F32) (x : ℤ) : Prop :=
  ∃ k, HighAt c ps k ∧ x = windowStart c k

/-- Where the high windows of the history are. -/
structure Covers (c : VadConfig) (ps : List F32) (t : Trigger) : Prop where
  high : ∀ k, HighAt c ps k → (∃ s ∈ t.speeches, Contains c s k) ∨
    (t.triggered = true ∧ t.currentSpeech.start ≤ windowStart c k)
  tempEnd : t.triggered = true → t.tempEnd ≠ 0 → ∀ k, HighAt c ps k →
    windowStart c (k + 1) ≤ t.tempEnd
  prevEnd : t.triggered = true → 0 < t.prevEnd → ∀ k, HighAt c ps k →
    windowStart c (k + 1) ≤ t.prevEnd ∨
      (t.prevEnd ≤ t.nextStart ∧ t.nextStart ≤ windowStart c k)
  resumed : t.triggered = true → 0 < t.prevEnd → t.nextStart < t.prevEnd → t.tempEnd ≠ 0
  starts : ∀ s ∈ t.speeches, StartsHigh c ps s.start
  start : t.triggered = true → StartsHigh c ps t.currentSpeech.start
  nextStart : t.triggered = true → t.nextStart ≠ 0 → StartsHigh c ps t.nextStart

variable {a : WordArith} {c : VadConfig} {t t' : Trigger} {prob : F32} {ps : List F32}

theorem covers_init : Covers c [] {} := by
  constructor <;> simp [HighAt]

/-! ## High windows of a longer history -/

theorem windowStart_succ (c : VadConfig) (k : ℕ) :
    windowStart c (k + 1) = windowStart c k + c.windowSizeSamples := by
  unfold windowStart
  push_cast
  ring

theorem HighAt.lt {k : ℕ} (h : HighAt c ps k) : k < ps.length := by
  obtain ⟨p, hp, -⟩ := h
  exact (List.getElem?_eq_some_iff.mp hp).1

theorem HighAt.append {k : ℕ} (h : HighAt c ps k) (p : F32) : HighAt c (ps ++ [p]) k := by
  obtain ⟨q, hq, hh⟩ := h
  exact ⟨q, by rw [List.getElem?_append_left (List.getElem?_eq_some_iff.mp hq).1]; exact hq, hh⟩

theorem StartsHigh.append {x : ℤ} (h : StartsHigh c ps x) (p : F32) :
    StartsHigh c (ps ++ [p]) x := by
  obtain ⟨k, hk, hx⟩ := h
  exact ⟨k, hk.append p, hx⟩

/-- A high window of the longer history is an old one, or the new one. -/
theorem highAt_append {p : F32} {k : ℕ} (h : HighAt c (ps ++ [p]) k) :
    HighAt c ps k ∨ (k = ps.length ∧ c.isHigh p = true) := by
  obtain ⟨q, hq, hh⟩ := h
  rw [List.getElem?_append] at hq
  split_ifs at hq with hlt
  · exact Or.inl ⟨q, hq, hh⟩
  · have hk : k = ps.length := by
      have := (List.getElem?_eq_some_iff.mp hq).1
      simp only [List.length_singleton] at this
      omega
    rw [hk, Nat.sub_self] at hq
    simp only [List.getElem?_cons_zero, Option.some.injEq] at hq
    exact Or.inr ⟨hk, hq ▸ hh⟩

theorem highAt_append_of_not {p : F32} (hp : c.isHigh p = false) {k : ℕ} :
    HighAt c (ps ++ [p]) k ↔ HighAt c ps k := by
  constructor
  · intro h
    rcases highAt_append h with h | ⟨-, h⟩
    · exact h
    · simp [hp] at h
  · exact fun h => h.append p

/-- Every window seen so far ends at the sample counter or before. -/
theorem HighAt.end_le {k : ℕ} (h : HighAt c ps k) (hW : 0 ≤ c.windowSizeSamples) :
    windowStart c (k + 1) ≤ windowStart c ps.length := by
  unfold windowStart
  exact mul_le_mul_of_nonneg_right (by exact_mod_cast h.lt) hW

/-! ## Every move keeps the windows covered -/

/-- The recorded segments start with windows of the longer history. -/
theorem Covers.starts_append (h : Covers c ps t) (p : F32) :
    ∀ s ∈ t.speeches, StartsHigh c (ps ++ [p]) s.start := by
  intro s hs
  exact (h.starts s hs).append p

/-- So does the open segment, once it is recorded. -/
theorem Covers.starts_record (h : Covers c ps t) (ht : t.triggered = true) (e : ℤ) (p : F32) :
    ∀ s ∈ t.speeches ++ [{ t.currentSpeech with end_ := e }],
      StartsHigh c (ps ++ [p]) s.start := by
  intro s hs
  rcases List.mem_append.mp hs with hs | hs
  · exact h.starts_append p s hs
  · rw [List.mem_singleton.mp hs]
    exact (h.start ht).append p

/-- Closing a segment that contains all high windows since its start. -/
theorem Covers.close (h : Covers c ps t) (ht : t.triggered = true)
    (hp : c.isHigh prob = false) {e : ℤ}
    (he : ∀ k, HighAt c ps k → t.currentSpeech.start ≤ windowStart c k →
      windowStart c (k + 1) ≤ e) :
    Covers c (ps ++ [prob]) (t.close c { t.currentSpeech with end_ := e }) := by
  refine ⟨?_, by simp [Trigger.close], by simp [Trigger.close], by simp [Trigger.close],
    h.starts_record ht e prob, by simp [Trigger.close], by simp [Trigger.close]⟩
  intro k hk
  rw [highAt_append_of_not hp] at hk
  left
  rcases h.high k hk with ⟨s, hs, hc⟩ | ⟨-, hstart⟩
  · exact ⟨s, List.mem_append_left _ hs, hc⟩
  · exact ⟨_, List.mem_append_right _ (List.mem_singleton.mpr rfl), hstart, he k hk hstart⟩

/-- All high windows lie before the silence the next low window records. -/
theorem Covers.silenceStart (h : Covers c ps t) (hW : 0 ≤ c.windowSizeSamples)
    (hcur : t.currentSample = windowStart c ps.length) (ht : t.triggered = true) {k : ℕ}
    (hk : HighAt c ps k) : windowStart c (k + 1) ≤ t.silenceStart c := by
  unfold Trigger.silenceStart nextSample
  split_ifs with hz
  · have := hk.end_le hW
    omega
  · exact h.tempEnd ht hz k hk

/-- **Every move keeps the high windows covered.** -/
theorem Covers.next (hW : 0 < c.windowSizeSamples) (hr : Range t) (hi : Inv t)
    (hcur : t.currentSample = windowStart c ps.length) (h : Covers c ps t)
    (hn : Next a c t prob t') : Covers c (ps ++ [prob]) t' := by
  cases hn with
  | rise hp ht =>
      obtain ⟨e1, e2, e3⟩ := hr.idle ht
      have hnew : HighAt c (ps ++ [prob]) ps.length := ⟨prob, by simp, hp⟩
      refine ⟨?_, by simp [e1], by simp [e2], by simp [e2], h.starts_append prob,
        fun _ => ⟨_, hnew, hcur⟩, by simp [e3]⟩
      intro k hk
      rcases highAt_append hk with hk | ⟨rfl, -⟩
      · rcases h.high k hk with hs | ⟨ht', -⟩
        · exact Or.inl hs
        · simp [ht] at ht'
      · exact Or.inr ⟨rfl, hcur.le⟩
  | extend hp ht =>
      have hnew : HighAt c (ps ++ [prob]) ps.length := ⟨prob, by simp, hp⟩
      have hpe := (hr.opened ht).prevEnd.2
      refine ⟨?_, by simp, ?_, ?_, h.starts_append prob, ?_, ?_⟩
      · intro k hk
        rcases highAt_append hk with hk | ⟨rfl, -⟩
        · exact h.high k hk
        · exact Or.inr ⟨ht, by have := hi.start_lt ht; dsimp only; omega⟩
      · -- the first high window after `prev_end` sets `next_start`, and no later one does
        intro _ h0 k hk
        dsimp only at h0 ⊢
        rcases highAt_append hk with hk | ⟨rfl, -⟩
        · rcases h.prevEnd ht h0 k hk with hle | ⟨hle, hge⟩
          · exact Or.inl hle
          · rw [if_neg (by omega)]
            exact Or.inr ⟨hle, hge⟩
        · right
          split_ifs with hres
          · exact ⟨hpe, hcur.le⟩
          · have hlt := hi.nextStart_lt ht
            by_cases hns : t.nextStart < t.prevEnd
            · exact absurd ⟨h.resumed ht h0 hns, hns⟩ hres
            · omega
      · intro _ h0 hns
        dsimp only at h0 hns
        split_ifs at hns with hres
        · omega
        · exact absurd ⟨h.resumed ht h0 hns, hns⟩ hres
      · intro _
        exact (h.start ht).append prob
      · intro _ hns
        dsimp only at hns ⊢
        split_ifs at hns ⊢ with hres
        · exact ⟨_, hnew, hcur⟩
        · exact (h.nextStart ht hns).append prob
  | endAtPrev hp ht hex h0 hns =>
      -- a high window after `prev_end` would have set `next_start`
      apply h.close ht hp
      intro k hk _
      rcases h.prevEnd ht h0 k hk with hle | ⟨hle, -⟩
      · exact hle
      · omega
  | split hp ht hex h0 hns =>
      -- no high window lies in the gap between `prev_end` and `next_start`
      have hns0 := h.nextStart ht (by omega)
      refine ⟨?_, by simp [Trigger.close], by simp [Trigger.close], by simp [Trigger.close],
        h.starts_record ht t.prevEnd prob, fun _ => hns0.append prob, by simp [Trigger.close]⟩
      intro k hk
      rw [highAt_append_of_not hp] at hk
      rcases h.prevEnd ht h0 k hk with hle | ⟨-, hge⟩
      · left
        rcases h.high k hk with ⟨s, hs, hc⟩ | ⟨-, hstart⟩
        · exact ⟨s, List.mem_append_left _ hs, hc⟩
        · exact ⟨_, List.mem_append_right _ (List.mem_singleton.mpr rfl), hstart, hle⟩
      · exact Or.inr ⟨rfl, hge⟩
  | cut hp ht =>
      apply h.close ht hp
      intro k hk _
      have := hk.end_le hW.le
      unfold nextSample
      omega
  | fall hp hl ht => exact h.close ht hp fun k hk _ => h.silenceStart hW.le hcur ht hk
  | mark hp hl ht =>
      have hstart := start_mark a c t
      have hsil := hi.silenceStart_gt hW ht
      have hns0 := (hr.opened ht).nextStart.1
      have hst0 := (hr.opened ht).start_nonneg
      refine ⟨?_, ?_, ?_, ?_, h.starts_append prob, ?_, ?_⟩
      · intro k hk
        rw [highAt_append_of_not hp] at hk
        rw [hstart]
        exact h.high k hk
      · intro _ _ k hk
        rw [highAt_append_of_not hp] at hk
        exact h.silenceStart hW.le hcur ht hk
      · -- if `prev_end` moves, it moves behind all high windows
        intro _ h0 k hk
        rw [highAt_append_of_not hp] at hk
        dsimp only at h0 ⊢
        split_ifs at h0 ⊢ with hm
        · exact Or.inl (h.silenceStart hW.le hcur ht hk)
        · exact h.prevEnd ht h0 k hk
      · intro _ h0 hns
        dsimp only
        omega
      · intro _
        rw [hstart]
        exact (h.start ht).append prob
      · intro _ hns
        exact (h.nextStart ht hns).append prob
  | keep hp _ =>
      refine ⟨?_, ?_, ?_, h.resumed, h.starts_append prob, ?_, ?_⟩
      · intro k hk
        exact h.high k ((highAt_append_of_not hp).mp hk)
      · intro ht h0 k hk
        exact h.tempEnd ht h0 k ((highAt_append_of_not hp).mp hk)
      · intro ht h0 k hk
        exact h.prevEnd ht h0 k ((highAt_append_of_not hp).mp hk)
      · intro ht
        exact (h.start ht).append prob
      · intro ht hns
        exact (h.nextStart ht hns).append prob

/-! ## The returned segments -/

/-- The segments returned when the audio ends at sample `len`. -/
def flush (t : Trigger) (len : ℤ) : List Timestamp :=
  t.speeches ++ if t.triggered then [{ t.currentSpeech with end_ := len }] else []

theorem Inv.flush (hr : Range t) (h : Inv t) {len : ℤ} (hlen : t.currentSample ≤ len) :
    Timeline (t.flush len) len := by
  unfold Trigger.flush
  cases ht : t.triggered with
  | false => simpa using (h.idle ht).2.mono hlen
  | true =>
      exact (h.past ht).push (s := { t.currentSpeech with end_ := len })
        (hr.opened ht).start_nonneg le_rfl (lt_of_lt_of_le (h.start_lt ht) hlen)

theorem Covers.flush (hW : 0 ≤ c.windowSizeSamples) (h : Covers c ps t) {len : ℤ}
    (hlen : windowStart c ps.length ≤ len) :
    (∀ k, HighAt c ps k → ∃ s ∈ t.flush len, Contains c s k) ∧
      ∀ s ∈ t.flush len, StartsHigh c ps s.start := by
  unfold Trigger.flush
  constructor
  · intro k hk
    rcases h.high k hk with ⟨s, hs, hc⟩ | ⟨ht, hstart⟩
    · exact ⟨s, List.mem_append_left _ hs, hc⟩
    · rw [ht]
      exact ⟨_, List.mem_append_right _ (List.mem_singleton.mpr rfl), hstart,
        le_trans (hk.end_le hW) hlen⟩
  · intro s hs
    rcases List.mem_append.mp hs with hs | hs
    · exact h.starts s hs
    · cases ht : t.triggered with
      | false => simp [ht] at hs
      | true =>
          rw [ht, if_pos rfl] at hs
          rw [List.mem_singleton.mp hs]
          exact h.start ht

end Trigger

namespace VadIterator

variable {σ : Type} (run : OrtRun σ)

/-- The counters of `process` before the flush. -/
theorem processRun_range (it : VadIterator σ) {x : List F32} (hW : 0 < it.cfg.windowSizeSamples)
    (hx : (x.length : ℤ) < 2 ^ 31) :
    (it.processRun run x).Range ∧ (it.processRun run x).Inv ∧
      (it.processRun run x).currentSample
        = Trigger.windowStart it.cfg (it.processProbs run x).length ∧
      Trigger.Covers it.cfg (it.processProbs run x) (it.processRun run x).toTrigger := by
  have hle := it.length_processProbs_mul_le run x hW
  have hB : (0 : ℤ) + (it.processProbs run x).length * it.cfg.windowSizeSamples < 2 ^ 31 := by
    omega
  have ha := WordArith.bits32_exactBelow
  rw [processRun_toTrigger]
  obtain ⟨hr, hcur⟩ := Trigger.run_range ha hW.le Trigger.range_init _ hB
  refine ⟨hr, Trigger.inv_run ha hW Trigger.range_init Trigger.inv_init _ hB, ?_, ?_⟩
  · rw [hcur]
    simp [Trigger.windowStart]
  · refine (Trigger.run_induction ha hW.le (P := fun ps t => Trigger.Inv t ∧
      Trigger.Covers it.cfg ps t) Trigger.range_init ⟨Trigger.inv_init, Trigger.covers_init⟩
      (fun ps p hs hcur h hn => ⟨h.1.next hW hs hn, ?_⟩) _ hB).2
    exact h.2.next hW hs h.1 (by simpa [Trigger.windowStart] using hcur) hn

/-- **`process` returns the recorded segments, and the open one up to the end of the
audio.** -/
theorem process_speeches (it : VadIterator σ) {x : List F32}
    (hW : 0 < it.cfg.windowSizeSamples) (hx : (x.length : ℤ) < 2 ^ 31) :
    (it.process run x).getSpeechTimestamps = (it.processRun run x).flush x.length := by
  obtain ⟨hr, hi, -⟩ := it.processRun_range run hW hx
  have hiff := hi.start_nonneg_iff hr
  rw [process_eq run it hW hx]
  unfold getSpeechTimestamps closeOpen Trigger.flush
  by_cases ht : (it.processRun run x).triggered = true
  · rw [if_pos (hiff.mpr ht), if_pos ht]
  · rw [if_neg (fun h => ht (hiff.mp h)), if_neg ht, List.append_nil]

/-- The segments of a silent recording of `n` samples whose windows get the probabilities of
a script. -/
theorem process_scripted {cfg : VadConfig} {script : List F32} {n : ℕ}
    (hW : 0 < cfg.windowSizeSamples) (hn : n / cfg.windowSizeSamples.toNat = script.length)
    (hlt : (n : ℤ) < 2 ^ 31) :
    ((new cfg script).process scripted (List.replicate n F32.zero)).getSpeechTimestamps
      = (final (Trigger.step WordArith.bits32 cfg) {} script).flush n := by
  have hlen : (List.replicate n F32.zero).length = n := List.length_replicate
  calc ((new cfg script).process scripted (List.replicate n F32.zero)).getSpeechTimestamps
      = ((new cfg script).processRun scripted (List.replicate n F32.zero)).flush n := by
        rw [process_speeches scripted _ hW (by rw [hlen]; exact hlt), hlen]
    _ = (final (Trigger.step WordArith.bits32 cfg) {} script).flush n := by
        rw [processRun_toTrigger, processProbs_silence hn]
        rfl

/-- **No speech window is lost or reported twice**: every window at or above the threshold
lies in exactly one returned segment, and every returned segment lies within the recording
and starts with such a window. -/
theorem process_covers (it : VadIterator σ) {x : List F32} (hW : 0 < it.cfg.windowSizeSamples)
    (hx : (x.length : ℤ) < 2 ^ 31) :
    (∀ k, Trigger.HighAt it.cfg (it.processProbs run x) k →
      ∃! i : ℕ, ∃ s, (it.process run x).getSpeechTimestamps[i]? = some s ∧
        Trigger.Contains it.cfg s k) ∧
    (∀ s ∈ (it.process run x).getSpeechTimestamps,
      0 ≤ s.start ∧ s.start < s.end_ ∧ s.end_ ≤ x.length) ∧
    ∀ s ∈ (it.process run x).getSpeechTimestamps,
      Trigger.StartsHigh it.cfg (it.processProbs run x) s.start := by
  obtain ⟨hr, hi, hcur, hc⟩ := it.processRun_range run hW hx
  have hle := it.length_processProbs_mul_le run x hW
  have htl : Timeline _ (x.length : ℤ) := hi.flush hr (by rw [hcur]; exact hle)
  obtain ⟨hcov, hst⟩ := hc.flush hW.le hle
  rw [it.process_speeches run hW hx]
  refine ⟨?_, htl.valid, hst⟩
  intro k hk
  obtain ⟨s, hs, hks⟩ := hcov k hk
  obtain ⟨i, hi⟩ := List.getElem?_of_mem hs
  refine ⟨i, ⟨s, hi, hks⟩, ?_⟩
  -- a window is not empty, and different segments share no sample
  rintro j ⟨r, hj, hkr⟩
  have hlt : Trigger.windowStart it.cfg k < Trigger.windowStart it.cfg (k + 1) := by
    rw [Trigger.windowStart_succ]
    omega
  exact htl.index_unique hj hi hlt hkr hks

/-- The second window of the second burst lies in the second segment. -/
theorem process_covers_window :
    ((new VadConfig.new twoBursts).process scripted
        (List.replicate 10752 F32.zero)).getSpeechTimestamps = [⟨0, 4608⟩, ⟨6656, 10752⟩] ∧
      ∃! i : ℕ, ∃ s, ((new VadConfig.new twoBursts).process scripted
          (List.replicate 10752 F32.zero)).getSpeechTimestamps[i]? = some s ∧
        Trigger.Contains VadConfig.new s 14 := by
  have hlen : (List.replicate 10752 F32.zero).length = 10752 := List.length_replicate
  have hprobs : (new VadConfig.new twoBursts).processProbs scripted
      (List.replicate 10752 F32.zero) = twoBursts := processProbs_silence (by decide)
  refine ⟨?_, (process_covers scripted (new VadConfig.new twoBursts)
    (x := List.replicate 10752 F32.zero) (by decide) (by rw [hlen]; decide)).1 14 ?_⟩
  · rw [process_scripted (by decide) (by decide) (by decide)]
    decide +kernel
  · rw [hprobs]
    exact ⟨F32.ofInt 1, rfl, by decide +kernel⟩

end VadIterator

end VadService
