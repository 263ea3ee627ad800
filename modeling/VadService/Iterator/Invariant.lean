import VadService.Iterator.Run

set_option autoImplicit false

/-! # The representation invariant of the iterator

The segments recorded so far are a `Timeline`: nonempty, in order and disjoint. A trigger
is well formed (`Trigger.Inv`) when its recorded segments end before the open one starts,
and every position it remembers inside the open segment lies after that start. Every move
keeps this, so every run from the reset state has it.
-/

namespace VadService

open Machine Window

/-! ## Timelines -/

/-- Nonempty disjoint segments in order, within `[0, lim]`. -/
structure Timeline (l : List Timestamp) (lim : ℤ) : Prop where
  valid : ∀ s ∈ l, 0 ≤ s.start ∧ s.start < s.end_ ∧ s.end_ ≤ lim
  ordered : l.Pairwise fun s r => s.end_ ≤ r.start

namespace Timeline

variable {l : List Timestamp} {lim lim' : ℤ}

theorem nil (lim : ℤ) : Timeline [] lim := ⟨by simp, List.Pairwise.nil⟩

theorem mono (h : Timeline l lim) (hle : lim ≤ lim') : Timeline l lim' where
  valid s hs := by
    obtain ⟨h1, h2, h3⟩ := h.valid s hs
    exact ⟨h1, h2, le_trans h3 hle⟩
  ordered := h.ordered

/-- Recording a segment that starts at or after the limit. -/
theorem push (h : Timeline l lim) {s : Timestamp} (h0 : 0 ≤ s.start) (hlim : lim ≤ s.start)
    (hs : s.start < s.end_) : Timeline (l ++ [s]) s.end_ where
  valid r hr := by
    rcases List.mem_append.mp hr with hr | hr
    · obtain ⟨h1, h2, h3⟩ := h.valid r hr
      exact ⟨h1, h2, by omega⟩
    · rw [List.mem_singleton.mp hr]
      exact ⟨h0, hs, le_rfl⟩
  ordered := by
    rw [List.pairwise_append]
    refine ⟨h.ordered, List.pairwise_singleton _ _, ?_⟩
    intro r hr q hq
    rw [List.mem_singleton.mp hq]
    exact le_trans (h.valid r hr).2.2 hlim

/-- Two segments that share a position are the same entry of the timeline. -/
theorem index_unique (h : Timeline l lim) {i j : ℕ} {s r : Timestamp} (hi : l[i]? = some s)
    (hj : l[j]? = some r) {x y : ℤ} (hxy : x < y) (hs : s.start ≤ x ∧ y ≤ s.end_)
    (hr : r.start ≤ x ∧ y ≤ r.end_) : i = j := by
  obtain ⟨hil, rfl⟩ := List.getElem?_eq_some_iff.mp hi
  obtain ⟨hjl, rfl⟩ := List.getElem?_eq_some_iff.mp hj
  have hp := List.pairwise_iff_getElem.mp h.ordered
  rcases lt_trichotomy i j with hlt | heq | hgt
  · have := hp i j hil hjl hlt
    omega
  · exact heq
  · have := hp j i hjl hil hgt
    omega

end Timeline

/-! ## The invariant -/

namespace Trigger

/-- A well-formed trigger. -/
structure Inv (t : Trigger) : Prop where
  idle : t.triggered = false → t.currentSpeech = {} ∧ Timeline t.speeches t.currentSample
  past : t.triggered = true → Timeline t.speeches t.currentSpeech.start
  start_lt : t.triggered = true → t.currentSpeech.start < t.currentSample
  tempEnd_gt : t.triggered = true → t.tempEnd ≠ 0 → t.currentSpeech.start < t.tempEnd
  prevEnd_gt : t.triggered = true → 0 < t.prevEnd → t.currentSpeech.start < t.prevEnd
  nextStart_lt : t.triggered = true → t.nextStart < t.currentSample

theorem inv_init : Inv {} := by
  constructor <;> simp [Timeline.nil]

variable {a : WordArith} {c : VadConfig} {t t' : Trigger} {prob : F32}

/-- Closing a segment leaves a well-formed trigger. -/
theorem inv_close {s : Timestamp} (h : Timeline (t.speeches ++ [s]) s.end_)
    (hs : s.end_ ≤ t.nextSample c) : Inv (t.close c s) where
  idle _ := ⟨rfl, h.mono hs⟩
  past ht := by simp [close] at ht
  start_lt ht := by simp [close] at ht
  tempEnd_gt ht := by simp [close] at ht
  prevEnd_gt ht := by simp [close] at ht
  nextStart_lt ht := by simp [close] at ht

/-- Silence begins after the segment does. -/
theorem Inv.silenceStart_gt (h : Inv t) (hW : 0 < c.windowSizeSamples)
    (ht : t.triggered = true) : t.currentSpeech.start < t.silenceStart c := by
  have h1 := h.start_lt ht
  unfold silenceStart nextSample
  split_ifs with hz
  · omega
  · exact h.tempEnd_gt ht hz

/-- **Every move keeps the trigger well formed.** -/
theorem Inv.next (hW : 0 < c.windowSizeSamples) (hr : Range t) (h : Inv t)
    (hn : Next a c t prob t') : Inv t' := by
  have h0 := hr.sample_nonneg
  have hlt : t.currentSample < t.nextSample c := by
    unfold nextSample
    omega
  cases hn with
  | rise hp ht =>
      obtain ⟨-, htl⟩ := h.idle ht
      obtain ⟨e1, e2, e3⟩ := hr.idle ht
      exact ⟨by simp, fun _ => htl, fun _ => hlt, by simp [e1], by simp [e2], by simp [e3]; omega⟩
  | extend hp ht =>
      have h1 := h.start_lt ht
      have h2 := h.nextStart_lt ht
      refine ⟨by simp [ht], fun _ => h.past ht, fun _ => h1.trans hlt, by simp,
        fun _ => h.prevEnd_gt ht, ?_⟩
      intro _
      dsimp only
      split_ifs <;> omega
  | endAtPrev hp ht hex hpe hns =>
      have ho := hr.opened ht
      exact inv_close ((h.past ht).push ho.start_nonneg le_rfl (h.prevEnd_gt ht hpe))
        (le_trans ho.prevEnd.2 hlt.le)
  | split hp ht hex hpe hns =>
      have ho := hr.opened ht
      -- the timeline ends at `prev_end`, and `next_start` is not before it
      have htl := (h.past ht).push (s := { t.currentSpeech with end_ := t.prevEnd })
        ho.start_nonneg le_rfl (h.prevEnd_gt ht hpe)
      have h2 := h.nextStart_lt ht
      exact ⟨by simp, fun _ => htl.mono hns, fun _ => h2.trans hlt, by simp [close],
        by simp [close], fun _ => by simp [close]; omega⟩
  | cut hp ht =>
      have ho := hr.opened ht
      exact inv_close ((h.past ht).push ho.start_nonneg le_rfl ((h.start_lt ht).trans hlt)) le_rfl
  | fall hp hl ht hex hq hmin =>
      have ho := hr.opened ht
      have hsil := ho.silenceStart hW.le
      have hgt := h.silenceStart_gt hW ht
      exact inv_close ((h.past ht).push ho.start_nonneg le_rfl hgt) hsil.2
  | mark hp hl ht hex hq =>
      have hgt := h.silenceStart_gt hW ht
      have hstart := start_mark a c t
      refine ⟨by simp [ht], ?_, ?_, ?_, ?_, fun _ => (h.nextStart_lt ht).trans hlt⟩
      · intro _
        rw [hstart]; exact h.past ht
      · intro _
        rw [hstart]; exact (h.start_lt ht).trans hlt
      · intro _ _
        rw [hstart]; exact hgt
      · intro _ hpe
        rw [hstart]
        dsimp only at hpe ⊢
        -- `prev_end` is the silence in progress, or what it was
        split_ifs at hpe ⊢ with hm
        · exact hgt
        · exact h.prevEnd_gt ht hpe
  | keep hp _ =>
      refine ⟨?_, h.past, fun ht => (h.start_lt ht).trans hlt, h.tempEnd_gt, h.prevEnd_gt,
        fun ht => (h.nextStart_lt ht).trans hlt⟩
      intro ht
      obtain ⟨h1, h2⟩ := h.idle ht
      exact ⟨h1, h2.mono hlt.le⟩

/-- Every run from a well-formed state ends in one. -/
theorem inv_run {B : ℤ} (ha : a.ExactBelow B) (hW : 0 < c.windowSizeSamples) (hr : Range t)
    (h : Inv t) (probs : List F32)
    (hB : t.currentSample + probs.length * c.windowSizeSamples < B) :
    Inv (final (step a c) t probs) :=
  run_induction ha hW.le (P := fun _ => Inv) hr h
    (fun _ _ hs _ hi hn => hi.next hW hs hn) probs hB

/-- The flush test of `process` is the trigger flag. -/
theorem Inv.start_nonneg_iff (hr : Range t) (h : Inv t) :
    0 ≤ t.currentSpeech.start ↔ t.triggered = true := by
  constructor
  · intro h0
    by_contra ht
    rw [(h.idle (by simpa using ht)).1] at h0
    simp at h0
  · exact fun ht => (hr.opened ht).start_nonneg

/-- The invariant of the members as they are documented by their use: `-1` marks a closed
segment, `0` an unset position. -/
structure RepInv (t : Trigger) : Prop where
  triggered_iff : t.triggered = true ↔ 0 ≤ t.currentSpeech.start
  idle : t.triggered = false → t.tempEnd = 0 ∧ t.prevEnd = 0 ∧ t.nextStart = 0
  segments : ∀ s ∈ t.speeches, 0 ≤ s.start ∧ s.start < s.end_ ∧ s.end_ ≤ t.currentSample
  consecutive : t.speeches.IsChain fun s r => s.end_ ≤ r.start
  opened : t.triggered = true →
    (∀ s ∈ t.speeches.getLast?, s.end_ ≤ t.currentSpeech.start) ∧
      t.currentSpeech.start < t.currentSample

theorem Inv.repInv (hr : Range t) (h : Inv t) : RepInv t := by
  have htl : Timeline t.speeches t.currentSample := by
    cases ht : t.triggered with
    | false => exact (h.idle ht).2
    | true => exact (h.past ht).mono (hr.opened ht).start_le
  refine ⟨(h.start_nonneg_iff hr).symm, hr.idle, htl.valid, htl.ordered.isChain, ?_⟩
  intro ht
  refine ⟨?_, h.start_lt ht⟩
  intro s hs
  exact ((h.past ht).valid s (List.mem_of_getLast? hs)).2.2

end Trigger

namespace VadIterator

variable {σ : Type} (run : OrtRun σ)

/-- **Representation invariant**: after every sequence of windows from the reset state, as
long as fewer than `2^31` samples have been predicted. -/
theorem predict_repInv (it : VadIterator σ) (hW : 0 < it.cfg.windowSizeSamples)
    (ws : List (List F32)) (hlen : (ws.length : ℤ) * it.cfg.windowSizeSamples < 2 ^ 31) :
    (final (predictStep run) it.resetStates ws).RepInv := by
  have hB : (0 : ℤ) + (outputs (predictStep run) it.resetStates ws).length
      * it.cfg.windowSizeSamples < 2 ^ 31 := by
    rw [length_outputs, zero_add]
    exact hlen
  rw [final_predictStep, resetStates_toTrigger, resetStates_cfg]
  have hr := Trigger.run_range WordArith.bits32_exactBelow hW.le Trigger.range_init _ hB
  exact (Trigger.inv_run WordArith.bits32_exactBelow hW Trigger.range_init Trigger.inv_init _
    hB).repInv hr.1

/-- After two bursts of speech a segment is recorded and another is open. -/
theorem predict_repInv_window :
    let it := final (predictStep scripted) (new VadConfig.new twoBursts).resetStates
      (List.replicate 21 silentWindow)
    it.RepInv ∧ it.isTriggered = true ∧ it.getSpeechTimestamps = [⟨0, 4608⟩] := by
  intro it
  have htrigger : it.toTrigger = final (Trigger.step WordArith.bits32 VadConfig.new) {}
      twoBursts := final_scripted _ _ (by decide)
  refine ⟨predict_repInv scripted (new VadConfig.new twoBursts) (by decide) _ (by decide), ?_, ?_⟩
  · show it.toTrigger.triggered = true
    rw [htrigger]
    decide +kernel
  · show it.toTrigger.speeches = _
    rw [htrigger]
    decide +kernel

end VadIterator

end VadService
