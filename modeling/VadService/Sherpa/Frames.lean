import VadService.Sherpa.Phase
import VadService.Iterator.Run
import VadService.Lib.Machine

set_option autoImplicit false

/-! # The state a detector reports for a call

A call may complete any number of frames, whose results are merged into one. As long as it
completes one at least, the result tells whether the detector is in an utterance
(`blockLoop_keeps`). A call that completes none is answered with `SILENCE`, also in the
middle of an utterance.
-/

namespace VadService

open Machine

namespace SherpaVadDetector

variable {σ : Type} (run : OrtRun σ)

/-! ## One frame -/

/-- The result says that the speaker is speaking. -/
def Speaks (state : VadState) : Prop := state = .startSpeaking ∨ state = .speaking

instance (state : VadState) : Decidable (Speaks state) := inferInstanceAs (Decidable (_ ∨ _))

/-- What a frame can do: stay in silence, begin an utterance, stay in it, or end it. -/
inductive Edge : GoState → VadState → GoState → Prop
  | quiet {was now : GoState} : was ≠ .activity → now ≠ .activity → Edge was .silence now
  | begins : Edge .inactivityTransition .startSpeaking .activity
  | goesOn : Edge .activity .speaking .activity
  | ends : Edge .activity .endSpeaking .inactivity

/-- **Every frame is one of these edges.** -/
theorem processInternal_edge (d : SherpaVadDetector σ) (frame : List F32) :
    Edge d.state (d.processInternal run frame).1.state (d.processInternal run frame).2.state := by
  unfold processInternal
  dsimp only
  cases hd : d.state with
  | inactivity =>
      dsimp only [inInactivity, appendFixed]
      split_ifs
      · exact Edge.quiet (by decide) (by simp [Phase.setState])
      · exact Edge.quiet (by decide) (by simp [hd])
      · exact Edge.quiet (by decide) (by simp [hd])
  | inactivityTransition =>
      dsimp only [inTransition]
      rw [Phase.begin_state]
      exact Edge.begins
  | activity =>
      dsimp only [inActivity]
      split_ifs
      · exact Edge.ends
      · rw [Phase.listen_state, hd]
        exact Edge.goesOn

/-! ## One call -/

/-- The state of `last_result` after a frame with the state `r`. -/
def mergeState (lastState r : VadState) (triggeredAny : Bool) : VadState :=
  if r ≠ .silence ∧ r ≠ .speaking then r
  else if r = .speaking ∧ triggeredAny = false then r
  else lastState

/-- What has been merged tells whether the detector is in an utterance, or nothing has been
merged yet. -/
def Tells (state : GoState) (lastState : VadState) (triggeredAny : Bool) : Prop :=
  (Speaks lastState ↔ state = .activity) ∨ (lastState = .silence ∧ triggeredAny = false)

/-- **Merging a frame keeps the word on the utterance right.** -/
theorem Edge.tells {was now : GoState} {r lastState : VadState} {triggeredAny : Bool}
    (h : Edge was r now) (hlast : Tells was lastState triggeredAny) :
    Speaks (mergeState lastState r triggeredAny) ↔ now = .activity := by
  cases h with
  | quiet hwas hnow =>
      -- nothing has changed since the last word, or nothing has been said
      have hsilent : ¬ Speaks lastState := by
        rcases hlast with hlast | ⟨rfl, -⟩
        · rw [hlast]
          exact hwas
        · decide
      exact iff_of_false hsilent hnow
  | begins => exact iff_of_true (Or.inl rfl) rfl
  | goesOn =>
      refine iff_of_true ?_ rfl
      rcases hlast with hlast | ⟨-, rfl⟩
      · unfold mergeState
        split_ifs
        · exact Or.inr rfl
        · exact Or.inr rfl
        · exact hlast.mpr rfl
      · exact Or.inr rfl
  | ends => exact iff_of_false (fun h => by rcases h with h | h <;> cases h) (by decide)

/-- One round of the loop. -/
theorem blockLoop_succ (rounds : ℕ) (d : SherpaVadDetector σ) (lastResult : VadResult)
    (triggeredAny : Bool) : ∃ d' lastResult' triggeredAny',
      blockLoop run (rounds + 1) d lastResult triggeredAny
        = blockLoop run rounds d' lastResult' triggeredAny' ∧
      (Tells d.state lastResult.state triggeredAny →
        (Speaks lastResult'.state ↔ d'.state = .activity)) := by
  have hedge := processInternal_edge run
    { d with marginBuffer := d.marginBuffer.drop d.frameSizeSamples }
    (d.marginBuffer.take d.frameSizeSamples)
  have htells : Tells d.state lastResult.state triggeredAny → _ := hedge.tells
  rw [blockLoop]
  dsimp only
  generalize processInternal run
    { d with marginBuffer := d.marginBuffer.drop d.frameSizeSamples }
    (d.marginBuffer.take d.frameSizeSamples) = s at htells ⊢
  obtain ⟨res, d'⟩ := s
  unfold mergeState at htells
  dsimp only at htells ⊢
  split_ifs at htells ⊢
  · exact ⟨d', res, true, rfl, htells⟩
  · exact ⟨d', res, triggeredAny, rfl, htells⟩
  · exact ⟨d', lastResult, triggeredAny, rfl, htells⟩

/-- Every round keeps the merged word right. -/
theorem blockLoop_keeps (rounds : ℕ) (d : SherpaVadDetector σ) (lastResult : VadResult)
    (triggeredAny : Bool) (h : Speaks lastResult.state ↔ d.state = .activity) :
    Speaks (blockLoop run rounds d lastResult triggeredAny).1.state ↔
      (blockLoop run rounds d lastResult triggeredAny).2.state = .activity := by
  induction rounds generalizing d lastResult triggeredAny with
  | zero => exact h
  | succ rounds ih =>
      obtain ⟨d', lastResult', triggeredAny', heq, htells⟩ :=
        blockLoop_succ run rounds d lastResult triggeredAny
      rw [heq]
      exact ih _ _ _ (htells (Or.inl h))

theorem processFrame_eq (d : SherpaVadDetector σ) (audioFrame : List F32) :
    d.processFrame run audioFrame =
      if d.blocks audioFrame ≤ 0 then
        (d.emit .silence, { d with marginBuffer := d.marginBuffer ++ audioFrame })
      else
        blockLoop run (d.blocks audioFrame).toNat
          { d with marginBuffer := d.marginBuffer ++ audioFrame }
          { state := .silence, probability := F32.zero, timestamp := "" } false := rfl

/-- **A call that completes a frame tells whether the detector is in an utterance**; one that
completes none says that it is not. -/
theorem processFrame_tells (d : SherpaVadDetector σ) (audioFrame : List F32) :
    (Speaks (d.processFrame run audioFrame).1.state ↔
        (d.processFrame run audioFrame).2.state = .activity) ↔
      (0 < d.blocks audioFrame ∨ d.state ≠ .activity) := by
  rw [processFrame_eq]
  generalize d.blocks audioFrame = blocks
  by_cases hblocks : 0 < blocks
  · obtain ⟨n, hn⟩ : ∃ n, blocks.toNat = n + 1 := ⟨blocks.toNat - 1, by omega⟩
    obtain ⟨d', lastResult', triggeredAny', heq, htells⟩ := blockLoop_succ run n
      { d with marginBuffer := d.marginBuffer ++ audioFrame }
      { state := .silence, probability := F32.zero, timestamp := "" } false
    rw [if_neg (by omega), hn, heq]
    exact iff_of_true (blockLoop_keeps run n d' lastResult' triggeredAny'
      (htells (Or.inr ⟨rfl, rfl⟩))) (Or.inl hblocks)
  · -- the early return: nothing is processed, and the answer is `SILENCE`
    have hsilent : ¬ Speaks VadState.silence := by decide
    rw [if_pos (by omega)]
    show (Speaks VadState.silence ↔ d.state = .activity) ↔ 0 < blocks ∨ d.state ≠ .activity
    simp only [hsilent, hblocks, false_iff, false_or, ne_eq]

/-! ## Whole runs -/

/-- The call reports speech exactly when the detector is in an utterance after it. -/
def ReportsUtterance (d : SherpaVadDetector σ) (audioFrame : List F32) : Prop :=
  ((d.processFrame run audioFrame).1.state = .startSpeaking ∨
      (d.processFrame run audioFrame).1.state = .speaking) ↔
    (d.processFrame run audioFrame).2.state = .activity

/-- The call completes a frame, or does not come in the middle of an utterance. -/
def CompletesFrame (d : SherpaVadDetector σ) (audioFrame : List F32) : Prop :=
  0 < d.blocks audioFrame ∨ d.state ≠ .activity

instance (d : SherpaVadDetector σ) (audioFrame : List F32) :
    Decidable (d.CompletesFrame audioFrame) :=
  inferInstanceAs (Decidable (_ ∨ _))

/-- **The calls of a run report the utterances exactly when every call in the middle of an
utterance completes a frame.** -/
theorem reports_iff_completes (session : σ) (threshold : F32) (sampleRate : ℤ)
    (h : 0 < (sampleRate * 20).tdiv 1000) (frames : List (List F32)) :
    Along (processFrame run) (ReportsUtterance run) (new session threshold sampleRate h) frames ↔
      Along (processFrame run) CompletesFrame (new session threshold sampleRate h) frames :=
  along_congr (processFrame_tells run) _ _

/-- A detector with its default parameters and a script. -/
def withScript (script : List F32) : SherpaVadDetector (List F32) :=
  new script frameThreshold 16000 frameSize_default

/-- Fourteen frames of speech and thirty of silence: an utterance. -/
def utteranceScript : List F32 :=
  List.replicate 14 (F32.ofInt 1) ++ List.replicate 30 F32.zero

/-- The utterance in packets of one frame, one of a frame and a half, and packets of four. -/
theorem reports_iff_completes_frames :
    let d := withScript utteranceScript
    let packets := List.replicate 14 (List.replicate 320 F32.zero) ++ [List.replicate 480 F32.zero]
      ++ List.replicate 8 (List.replicate 1280 F32.zero)
    (outputs (processFrame VadIterator.scripted) d packets).map VadResult.state
        = List.replicate 13 .silence ++ [.startSpeaking] ++ List.replicate 8 .speaking
          ++ [.endSpeaking] ∧
      Along (processFrame VadIterator.scripted) (ReportsUtterance VadIterator.scripted) d
        packets := by
  intro d packets
  refine ⟨by decide +kernel, (reports_iff_completes VadIterator.scripted _ frameThreshold 16000
    frameSize_default packets).mpr ?_⟩
  decide +kernel

/-- After fourteen frames of speech an empty packet is answered with `SILENCE`. -/
theorem silence_in_utterance :
    ¬ ∀ (script : List F32) (frames : List (List F32)),
      Along (processFrame VadIterator.scripted) (ReportsUtterance VadIterator.scripted)
        (withScript script) frames := by
  intro h
  have halong := h (List.replicate 14 (F32.ofInt 1)) [List.replicate 4480 F32.zero, []]
  have hcompletes : CompletesFrame ((withScript (List.replicate 14 (F32.ofInt 1))).processFrame
      VadIterator.scripted (List.replicate 4480 F32.zero)).2 [] :=
    (processFrame_tells VadIterator.scripted _ _).mp halong.2.1
  exact absurd hcompletes (by decide +kernel)

end SherpaVadDetector

end VadService
