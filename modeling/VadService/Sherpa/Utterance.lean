import VadService.Sherpa.Refines
import VadService.Lib.Clamp

set_option autoImplicit false

/-! # Where an utterance begins and ends

The two counters of the state machine against the frames of its history. The silence counted
in an utterance is 20 ms for each step of a counter that stops at zero, so it reaches 600 ms
at the first frame where the inactive frames of some suffix outnumber the active ones by 30.
The recognised duration grows with active frames only, so 250 ms need thirteen of them.
-/

namespace VadService

open Machine Clamp

/-! ## The counters and the history -/

namespace Phase

/-- What a frame adds to the silence: `1` for an inactive frame, `-1` for an active one. -/
def weight (active : Bool) : ℤ := if active then -1 else 1

/-- Some suffix of the frames has 30 inactive frames more than active ones. -/
def Due (as : List ℤ) : Prop := ∃ t, t <:+ as ∧ 30 ≤ t.sum

theorem due_iff (as : List ℤ) : Due as ↔ 30 ≤ clamped as := (le_clamped_iff as 30).symm

instance (as : List ℤ) : Decidable (Due as) := decidable_of_iff _ (due_iff as).symm

/-- In an utterance, with the frames `as` since it began and the end not due. -/
structure Counts (p : Phase) (as : List ℤ) : Prop where
  state : p.state = .activity
  silence : p.silenceDuration = F32.ofInt (20 * clamped as)
  lt : clamped as < 30

/-- The frame that begins an utterance counts. -/
theorem counts_begin (active : Bool) : Counts (begin active) [weight active] := by
  have hclamped : clamped [weight active] = if active then 0 else 1 := by
    cases active <;> decide
  refine ⟨begin_state active, ?_, ?_⟩
  · rw [begin_silence, hclamped]
    cases active <;> rfl
  · rw [hclamped]
    cases active <;> decide

section Counts

variable {p : Phase} {as : List ℤ} (h : Counts p as) (active : Bool)

include h

/-- A frame of an utterance is a step of the counter. -/
theorem Counts.listen_silence : (p.listen active).silenceDuration
    = F32.ofInt (20 * clamped (as ++ [weight active])) := by
  have h0 := clamped_nonneg as
  have hlt := h.lt
  have hlistened : listened (20 * clamped as) active
      = 20 * clamped (as ++ [weight active]) := by
    rw [clamped_append_singleton]
    cases active with
    | true =>
        simp only [listened, weight, Clamp.step, if_true]
        omega
    | false =>
        simp only [listened, weight, Clamp.step, Bool.false_eq_true, if_false]
        omega
  calc (p.listen active).silenceDuration
      = F32.ofInt (listened (20 * clamped as) active) :=
        Phase.listen_silence h.silence (by omega) (by omega) active
    _ = F32.ofInt (20 * clamped (as ++ [weight active])) := by rw [hlistened]

theorem Counts.next_eq (decay : F32) : p.next decay active =
    if 30 ≤ clamped (as ++ [weight active]) then setState .inactivity else p.listen active := by
  have h0 := clamped_nonneg (as ++ [weight active])
  have hle : clamped (as ++ [weight active]) ≤ clamped as + 1 := by
    have hc := clamped_nonneg as
    rw [clamped_append_singleton]
    unfold Clamp.step weight
    split_ifs <;> omega
  have hlt := h.lt
  have hsmall : |20 * clamped (as ++ [weight active])| < 2 ^ 24 := by
    rw [abs_of_nonneg (by omega)]
    omega
  have hiff : 600 ≤ 20 * clamped (as ++ [weight active]) ↔
      30 ≤ clamped (as ++ [weight active]) := by omega
  rw [next_activity h.state, h.listen_silence active, voiceStopDuration,
    F32.le_ofInt (by decide) hsmall]
  simp only [decide_eq_true_eq, hiff]

/-- The utterance goes on while its end is not due. -/
theorem Counts.next (decay : F32) (hdue : ¬ Due (as ++ [weight active])) :
    Counts (p.next decay active) (as ++ [weight active]) := by
  rw [due_iff] at hdue
  rw [h.next_eq active, if_neg hdue]
  exact ⟨by rw [listen_state, h.state], h.listen_silence active, not_le.mp hdue⟩

/-- **The utterance ends when its end is due.** -/
theorem Counts.ends_iff (decay : F32) :
    (p.next decay active).state = .inactivity ↔ Due (as ++ [weight active]) := by
  rw [due_iff, h.next_eq active]
  by_cases hdue : 30 ≤ clamped (as ++ [weight active])
  · rw [if_pos hdue]
    exact iff_of_true rfl hdue
  · rw [if_neg hdue, listen_state, h.state]
    exact iff_of_false (by decide) hdue

end Counts

/-- With `n` active frames so far, a silence has recognised at most `20 * n` ms, and it is left
after thirteen of them. -/
inductive Recognises : Phase → ℕ → Prop
  | waiting {p : Phase} {n : ℕ} (duration : ℤ) : p.state = .inactivity →
      p.recognitionDuration = F32.ofInt duration → 0 ≤ duration ∧ duration < 250 →
      duration ≤ 20 * n → Recognises p n
  | beginning {p : Phase} {n : ℕ} : p.state = .inactivityTransition → 13 ≤ n → Recognises p n
  | speaking {p : Phase} {n : ℕ} : p.state = .activity → Recognises p n

/-- A silence begins with nothing recognised. -/
theorem recognises_setState (n : ℕ) : Recognises (setState .inactivity) n :=
  Recognises.waiting 0 rfl rfl (by decide) (by omega)

/-- **A frame recognises at most its own 20 ms.** -/
theorem Recognises.next {p : Phase} {n : ℕ} (h : Recognises p n) (active : Bool) :
    Recognises (p.next (F32.ofInt 10) active) (n + if active then 1 else 0) := by
  cases h with
  | waiting duration hstate hrec hrange hn =>
      have hle : recognised 10 duration active ≤ 20 * (n + if active then 1 else 0 : ℕ) := by
        unfold recognised
        split_ifs <;> omega
      have hnonneg : 0 ≤ recognised 10 duration active := by
        unfold recognised
        split_ifs <;> omega
      rw [next_waiting hrec (by decide) hrange hstate]
      by_cases hleaves : 250 ≤ recognised 10 duration active
      · rw [if_pos hleaves]
        -- twelve frames make 240 ms
        exact Recognises.beginning rfl (by omega)
      · rw [if_neg hleaves]
        exact Recognises.waiting _ (by rw [recognise_state, hstate])
          (recognise_recognised hrec (by decide) hrange active) ⟨hnonneg, not_le.mp hleaves⟩ hle
  | beginning hstate =>
      rw [next_transition hstate]
      exact Recognises.speaking (begin_state active)
  | speaking hstate =>
      rw [next_activity hstate]
      by_cases hstop : voiceStopDuration.le (p.listen active).silenceDuration = true
      · rw [if_pos hstop]
        exact recognises_setState _
      · rw [if_neg hstop]
        exact Recognises.speaking (by rw [listen_state, hstate])

end Phase

/-! ## Runs of frames -/

namespace SherpaVadDetector

variable {σ : Type} (run : OrtRun σ)

/-- `process_internal`, answering with the bit of the frame. -/
def hearStep (d : SherpaVadDetector σ) (frame : List F32) : Bool × SherpaVadDetector σ :=
  (d.hears run frame, (d.processInternal run frame).2)

/-- The bits of the frames of a run. -/
def heard (d : SherpaVadDetector σ) (frames : List (List F32)) : List Bool :=
  outputs (hearStep run) d frames

/-- What the frames of a run add to the silence. -/
def weights (d : SherpaVadDetector σ) (frames : List (List F32)) : List ℤ :=
  (heard run d frames).map Phase.weight

theorem final_hearStep (d : SherpaVadDetector σ) (frames : List (List F32)) :
    final (hearStep run) d frames = final (processInternal run) d frames :=
  final_congr (hearStep run) (processInternal run) (fun _ _ => rfl) d frames

theorem heard_append_singleton (d : SherpaVadDetector σ) (frames : List (List F32))
    (frame : List F32) :
    heard run d (frames ++ [frame])
      = heard run d frames ++ [(final (processInternal run) d frames).hears run frame] := by
  rw [heard, outputs_append, final_hearStep]
  rfl

theorem weights_append_singleton (d : SherpaVadDetector σ) (frames : List (List F32))
    (frame : List F32) :
    weights run d (frames ++ [frame]) = weights run d frames ++
      [Phase.weight ((final (processInternal run) d frames).hears run frame)] := by
  rw [weights, heard_append_singleton, List.map_append]
  rfl

/-- A frame of an utterance ends it when that is due, and else goes on. -/
theorem counts_processInternal {d : SherpaVadDetector σ} {as : List ℤ}
    (h : Phase.Counts d.toPhase as) (frame : List F32) :
    ((d.processInternal run frame).1.state = .endSpeaking ↔
        Phase.Due (as ++ [Phase.weight (d.hears run frame)])) ∧
      ((d.processInternal run frame).1.state = .speaking ↔
        ¬ Phase.Due (as ++ [Phase.weight (d.hears run frame)])) := by
  obtain ⟨-, -, hend⟩ := processInternal_next run d frame
  have hiff : (d.processInternal run frame).1.state = .endSpeaking ↔
      Phase.Due (as ++ [Phase.weight (d.hears run frame)]) := by
    rw [hend, h.ends_iff]
    exact and_iff_right h.state
  refine ⟨hiff, ?_⟩
  rw [← hiff]
  have hedge := processInternal_edge run d frame
  rw [h.state] at hedge
  generalize (d.processInternal run frame).1.state = r at hedge ⊢
  generalize (d.processInternal run frame).2.state = now at hedge
  cases hedge with
  | quiet hwas => exact absurd rfl hwas
  | goesOn => decide
  | ends => decide

/-- After the frame that begins an utterance, and frames that do not make its end due. -/
theorem counts_final {d : SherpaVadDetector σ} {start : List F32}
    (hstart : (d.processInternal run start).1.state = .startSpeaking) (frames : List (List F32))
    (hdue : ∀ j < frames.length, ¬ Phase.Due (weights run d (start :: frames.take (j + 1)))) :
    Phase.Counts (final (processInternal run) d (start :: frames)).toPhase
      (weights run d (start :: frames)) := by
  induction frames using List.reverseRecOn with
  | nil =>
      obtain ⟨hnext, hbegin, -⟩ := processInternal_next run d start
      show Phase.Counts (d.processInternal run start).2.toPhase [Phase.weight (d.hears run start)]
      rw [hnext, Phase.next_transition (hbegin.mp hstart)]
      exact Phase.counts_begin _
  | append_singleton frames frame ih =>
      have hlen : (frames ++ [frame]).length = frames.length + 1 := List.length_append
      have hcounts := ih fun j hj => by
        have hdue' := hdue j (by omega)
        rwa [List.take_append_of_le_length (by omega)] at hdue'
      have hlast := hdue frames.length (by omega)
      rw [List.take_of_length_le (by omega), ← List.cons_append, weights_append_singleton] at hlast
      rw [← List.cons_append, weights_append_singleton, final_append, final_cons, final_nil,
        (processInternal_next run _ frame).1]
      exact hcounts.next _ _ hlast

/-- **`END_SPEAKING` is returned at the first frame whose end is due**, and `SPEAKING` before. -/
theorem ends_when_due {d : SherpaVadDetector σ} {start : List F32}
    (hstart : (d.processInternal run start).1.state = .startSpeaking) (frames : List (List F32))
    (k : ℕ) (hk : k < frames.length)
    (hdue : ∀ j < k, ¬ Phase.Due (weights run d (start :: frames.take (j + 1)))) :
    ((((final (processInternal run) d (start :: frames.take k)).processInternal run
          frames[k]).1.state = .endSpeaking ↔
        Phase.Due (weights run d (start :: frames.take (k + 1)))) ∧
      (((final (processInternal run) d (start :: frames.take k)).processInternal run
          frames[k]).1.state = .speaking ↔
        ¬ Phase.Due (weights run d (start :: frames.take (k + 1))))) := by
  have hlen : (frames.take k).length = k := by
    rw [List.length_take]
    omega
  have hcounts := counts_final run hstart (frames.take k) fun j hj => by
    rw [List.take_take, min_eq_left (by omega)]
    exact hdue j (by omega)
  rw [← List.take_concat_get' frames k hk, ← List.cons_append, weights_append_singleton]
  exact counts_processInternal run hcounts frames[k]

/-- An utterance has just ended, or the detector has just been reset. -/
def Rests (d : SherpaVadDetector σ) : Prop :=
  ∃ d₀ : SherpaVadDetector σ, d = d₀.reset ∨
    ∃ frame, (d₀.processInternal run frame).1.state = .endSpeaking ∧
      d = (d₀.processInternal run frame).2

theorem Rests.recognises {d : SherpaVadDetector σ} (h : Rests run d) :
    Phase.Recognises d.toPhase 0 := by
  obtain ⟨d₀, rfl | ⟨frame, hend, rfl⟩⟩ := h
  · exact Phase.recognises_setState 0
  · obtain ⟨hnext, -, hiff⟩ := processInternal_next run d₀ frame
    obtain ⟨hstate, hinactive⟩ := hiff.mp hend
    rw [hnext]
    rw [Phase.next_activity hstate] at hinactive ⊢
    split_ifs at hinactive ⊢
    · exact Phase.recognises_setState 0
    · rw [Phase.listen_state, hstate] at hinactive
      cases hinactive

theorem recognises_final {d : SherpaVadDetector σ} (h : Rests run d)
    (frames : List (List F32)) :
    Phase.Recognises (final (processInternal run) d frames).toPhase
      ((heard run d frames).count true) := by
  induction frames using List.reverseRecOn with
  | nil => exact h.recognises
  | append_singleton frames frame ih =>
      rw [heard_append_singleton, List.count_append, final_append, final_cons, final_nil,
        (processInternal_next run _ frame).1]
      have hnext := ih.next ((final (processInternal run) d frames).hears run frame)
      generalize (final (processInternal run) d frames).hears run frame = active at hnext ⊢
      cases active <;> exact hnext

/-- **`START_SPEAKING` is returned after thirteen active frames**, not counting its own. -/
theorem starts_after_speech {d : SherpaVadDetector σ} (h : Rests run d)
    (frames : List (List F32)) (frame : List F32)
    (hstart : ((final (processInternal run) d frames).processInternal run frame).1.state
      = .startSpeaking) : 13 ≤ (heard run d frames).count true := by
  have hstate := (processInternal_next run _ frame).2.1.mp hstart
  cases recognises_final run h frames with
  | waiting duration hinactive => rw [hinactive] at hstate; cases hstate
  | beginning _ hn => exact hn
  | speaking hactive => rw [hactive] at hstate; cases hstate

/-- **Where an utterance ends, and what it takes to begin one.** After a frame that returned
`START_SPEAKING`, every frame returns `SPEAKING` up to the first whose end is due, which
returns `END_SPEAKING`; and thirteen active frames come before a `START_SPEAKING`, counted
since the last `END_SPEAKING` or reset. -/
theorem utterance_bounds :
    (∀ (d : SherpaVadDetector σ) (start : List F32) (frames : List (List F32)),
      (d.processInternal run start).1.state = .startSpeaking →
      ∀ (k : ℕ) (hk : k < frames.length),
        (∀ j < k, ¬ Phase.Due (weights run d (start :: frames.take (j + 1)))) →
        ((((final (processInternal run) d (start :: frames.take k)).processInternal run
              frames[k]).1.state = .endSpeaking ↔
            Phase.Due (weights run d (start :: frames.take (k + 1)))) ∧
          (((final (processInternal run) d (start :: frames.take k)).processInternal run
              frames[k]).1.state = .speaking ↔
            ¬ Phase.Due (weights run d (start :: frames.take (k + 1)))))) ∧
      ∀ d : SherpaVadDetector σ, Rests run d → ∀ (frames : List (List F32)) (frame : List F32),
        ((final (processInternal run) d frames).processInternal run frame).1.state
          = .startSpeaking →
        13 ≤ (heard run d frames).count true :=
  ⟨fun _ _ frames hstart k hk hdue => ends_when_due run hstart frames k hk hdue,
    fun _ h frames frame hstart => starts_after_speech run h frames frame hstart⟩

/-- Fourteen frames of speech begin an utterance, and the thirtieth of silence ends it. -/
theorem utterance_bounds_frames :
    let quiet := List.replicate 320 F32.zero
    let fresh := withScript utteranceScript
    let d := final (processInternal VadIterator.scripted) fresh (List.replicate 13 quiet)
    ((final (processInternal VadIterator.scripted) d
          (quiet :: List.replicate 29 quiet)).processInternal VadIterator.scripted quiet).1.state
        = .endSpeaking ∧
      13 ≤ (heard VadIterator.scripted fresh (List.replicate 13 quiet)).count true := by
  intro quiet fresh d
  have hstart : (d.processInternal VadIterator.scripted quiet).1.state = .startSpeaking := by
    decide +kernel
  have hends := (utterance_bounds VadIterator.scripted).1 d quiet (List.replicate 30 quiet) hstart
    29 (by decide) (by decide +kernel)
  rw [List.take_replicate, List.getElem_replicate, show min 29 30 = 29 from rfl] at hends
  exact ⟨hends.1.mpr (by decide +kernel), (utterance_bounds VadIterator.scripted).2 fresh
    ⟨fresh, Or.inl rfl⟩ _ quiet hstart⟩

end SherpaVadDetector

end VadService
