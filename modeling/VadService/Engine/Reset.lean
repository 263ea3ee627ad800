import VadService.Engine.Stream
import VadService.Sherpa.Blocks
import VadService.Lib.Lockstep

set_option autoImplicit false

/-! # A reset engine and a new one

`reset` restores everything but `last_prob`. A window overwrites it, so the probability of the
last window before the reset is still reported, up to the first packet that completes one.
Each engine that was reset is a new one that recalls a probability (`reset_eq_recalling`).
-/

namespace VadService

open Machine Window VadIterator

namespace VadIterator

variable {σ : Type}

/-- The iterator with the probability of an earlier window. -/
def recalling (it : VadIterator σ) (prob : F32) : VadIterator σ := { it with lastProb := prob }

variable (run : OrtRun σ)

/-- A window overwrites the probability. -/
theorem predict_recalling (it : VadIterator σ) (prob : F32) (w : List F32) :
    (it.recalling prob).predict run w = it.predict run w := rfl

theorem final_recalling (it : VadIterator σ) (prob : F32) {ws : List (List F32)} (h : ws ≠ []) :
    final (predictStep run) (it.recalling prob) ws = final (predictStep run) it ws := by
  cases ws with
  | nil => exact absurd rfl h
  | cons w ws =>
      show final (predictStep run) ((it.recalling prob).predict run w) ws = _
      rw [predict_recalling]
      rfl

/-- What a reset leaves of an iterator with a deterministic model. -/
theorem Shape.reset_eq_recalling {cfg : VadConfig} {it : VadIterator Unit} (h : Shape cfg it) :
    it.reset = (VadIterator.new cfg ()).recalling it.lastProb := h.resetStates_eq_new

end VadIterator

/-! ## The Silero engine -/

namespace SileroVadEngine

variable {σ : Type}

/-- The engine with the probability of an earlier window. -/
def recalling (e : SileroVadEngine σ) (prob : F32) : SileroVadEngine σ :=
  { e with vadIterator := e.vadIterator.recalling prob, windowSize_eq := e.windowSize_eq }

variable (run : OrtRun σ)

/-- A packet that completes a window is answered as if nothing was recalled. -/
theorem processFrame_recalling {e : SileroVadEngine σ} {audioFrame : List F32}
    (h : e.completed audioFrame ≠ []) (prob : F32) :
    processFrame run (e.recalling prob) audioFrame = processFrame run e audioFrame := by
  have hconsume : ((e.recalling prob).push audioFrame).consume run
      = (e.push audioFrame).consume run := by
    have hfinal := final_recalling run e.vadIterator prob h
    unfold completed at hfinal
    unfold consume push recalling
    simp only [hfinal]
  have hflags : flags run (e.recalling prob) audioFrame = flags run e audioFrame := by
    unfold flags
    show outputs (triggerStep run) (e.vadIterator.recalling prob) (e.completed audioFrame) = _
    cases e.completed audioFrame with
    | nil => rfl
    | cons w ws => rfl
  have hframe : runFrame run (e.recalling prob) audioFrame = runFrame run e audioFrame := by
    rw [runFrame_eq, runFrame_eq, hconsume, hflags]
    rfl
  unfold processFrame
  rw [hframe]

theorem processFrame_probability (e : SileroVadEngine σ) (audioFrame : List F32) :
    (processFrame run e audioFrame).1.probability
      = ((e.push audioFrame).consume run).vadIterator.getLastProbability := by
  have hprob : (processFrame run e audioFrame).1.probability
      = (runFrame run e audioFrame).result.probability := by
    unfold processFrame
    dsimp only
    cases (runFrame run e audioFrame).engine.vadIterator.getSpeechTimestamps.getLast? with
    | none => split_ifs <;> rfl
    | some stamp => split_ifs <;> rfl
  rw [hprob, runFrame_eq]

/-- A packet that completes no window is answered with what is recalled. -/
theorem processFrame_probability_of_empty {e : SileroVadEngine σ} {audioFrame : List F32}
    (h : e.completed audioFrame = []) :
    (processFrame run e audioFrame).1.probability = e.vadIterator.getLastProbability := by
  have hconsume : ((e.push audioFrame).consume run).vadIterator = e.vadIterator := by
    show final (predictStep run) e.vadIterator (e.completed audioFrame) = _
    rw [h, final_nil]
  rw [processFrame_probability, hconsume]

/-- **A reset engine is a new one that recalls the last probability.** -/
theorem reset_eq_recalling (run : OrtRun Unit) (sampleRate windowFrameMs : ℤ)
    (h : 0 < windowFrameMs * sampleRate.tdiv 1000) (history : List (List F32)) :
    (final (processFrame run) (new () sampleRate windowFrameMs h) history).reset =
      (new () sampleRate windowFrameMs h).recalling
        (final (processFrame run) (new () sampleRate windowFrameMs h)
          history).vadIterator.getLastProbability := by
  have hnew : Shape (VadConfig.new sampleRate windowFrameMs) (VadIterator.new _ ()) := shape_new ()
  have hreset := (hnew.final_predictStep run
    (windows (windowFrameMs * sampleRate.tdiv 1000).toNat history.flatten)).reset_eq_recalling
  rw [stream_eq _ (settled_new () sampleRate windowFrameMs h)]
  unfold reset recalling consume push new
  simp only [List.nil_append]
  simp only [hreset]
  rfl

end SileroVadEngine

/-! ## The Sherpa detector -/

namespace SherpaVadDetector

variable {σ : Type}

/-- The detector with the probability of an earlier frame. -/
def recalling (d : SherpaVadDetector σ) (prob : F32) : SherpaVadDetector σ :=
  { d with vad := d.vad.recalling prob }

variable (run : OrtRun σ)

/-- A packet that completes a frame is answered as if nothing was recalled. -/
theorem processFrame_recalling {d : SherpaVadDetector σ} {audioFrame : List F32}
    (h : 0 < d.blocks audioFrame) (prob : F32) :
    (d.recalling prob).processFrame run audioFrame = d.processFrame run audioFrame := by
  have hlen := length_handed d audioFrame
  rw [processFrame_eq_run run h, processFrame_eq_run run (d := d.recalling prob) h]
  have hhanded : (d.recalling prob).handed audioFrame = d.handed audioFrame := rfl
  rw [hhanded]
  cases hframes : d.handed audioFrame with
  | nil =>
      rw [hframes, List.length_nil] at hlen
      exact absurd hlen (by omega)
  | cons frame frames => rfl

/-- A packet that completes no frame is answered with what is recalled. -/
theorem processFrame_probability_of_empty {d : SherpaVadDetector σ} {audioFrame : List F32}
    (h : d.blocks audioFrame ≤ 0) :
    (d.processFrame run audioFrame).1.probability = d.vad.getLastProbability := by
  rw [processFrame_loop, if_pos h]
  rfl

theorem final_processFrame_sizes (d : SherpaVadDetector σ) (frames : List (List F32)) :
    SameSizes d (final (processFrame run) d frames) := by
  apply final_inv (SameSizes d) _ ⟨rfl, rfl⟩
  intro d' frame h
  exact h.trans (processFrame_sizes run d' frame)

theorem final_processFrame_shape {cfg : VadConfig} {d : SherpaVadDetector σ}
    (h : Shape cfg d.vad) (frames : List (List F32)) :
    Shape cfg (final (processFrame run) d frames).vad :=
  final_inv (fun d' : SherpaVadDetector σ => Shape cfg d'.vad)
    (fun _ frame h' => shape_processFrame run h' frame) h frames

/-- Detectors with the same sizes and configuration are reset to the same state, but for the
probability they recall. -/
theorem reset_eq_of_sizes {cfg : VadConfig} {d d' : SherpaVadDetector Unit}
    (hsizes : SameSizes d d') (hd : Shape cfg d.vad) (hd' : Shape cfg d'.vad) :
    d'.reset = d.reset.recalling d'.vad.getLastProbability := by
  have hvad : d'.vad.reset = d.vad.reset.recalling d'.vad.getLastProbability := by
    rw [hd.reset_eq_recalling, hd'.reset_eq_recalling]
    rfl
  obtain ⟨hsize, hcapacity⟩ := hsizes
  unfold reset recalling
  simp only [hvad, hsize, hcapacity]

theorem shape_new_vad (session : σ) (threshold : F32) (sampleRate : ℤ)
    (h : 0 < (sampleRate * 20).tdiv 1000) :
    Shape (VadConfig.new sampleRate 20 threshold) (new session threshold sampleRate h).vad :=
  (shape_new session).resetStates

/-- **A reset detector is a new one that recalls the last probability.** -/
theorem reset_eq_recalling (run : OrtRun Unit) (threshold : F32) (sampleRate : ℤ)
    (h : 0 < (sampleRate * 20).tdiv 1000) (history : List (List F32)) :
    (final (processFrame run) (new () threshold sampleRate h) history).reset =
      (new () threshold sampleRate h).recalling
        (final (processFrame run) (new () threshold sampleRate h)
          history).vad.getLastProbability := by
  have hshape := shape_new_vad () threshold sampleRate h
  have hreset : (new () threshold sampleRate h).reset = new () threshold sampleRate h := rfl
  rw [reset_eq_of_sizes (final_processFrame_sizes run _ history) hshape
    (final_processFrame_shape run hshape history), hreset]

end SherpaVadDetector

/-! ## Both engines -/

/-- After the history and a reset, the engine answers later packets like a new one. -/
def AnswersLikeNew {E : Type} (engine : IVadEngine E) (fresh : E)
    (history later : List (List F32)) : Prop :=
  outputs engine.processFrame (engine.reset (final engine.processFrame fresh history)) later
    = outputs engine.processFrame fresh later

theorem SileroVadEngine.answersLikeNew_iff (run : OrtRun Unit) (sampleRate windowFrameMs : ℤ)
    (h : 0 < windowFrameMs * sampleRate.tdiv 1000) (history later : List (List F32)) :
    AnswersLikeNew (engine run) (new () sampleRate windowFrameMs h) history later ↔
      ∀ audioFrame ∈ later.head?,
        (final (processFrame run) (new () sampleRate windowFrameMs h)
            history).vadIterator.getLastProbability = F32.zero ∨
          windowFrameMs * sampleRate.tdiv 1000 ≤ audioFrame.length := by
  unfold AnswersLikeNew engine
  dsimp only
  rw [reset_eq_recalling]
  generalize (final (processFrame run) (new () sampleRate windowFrameMs h)
    history).vadIterator.getLastProbability = prob
  apply outputs_eq_iff_head
  · rintro audioFrame (rfl | hfull)
    · rfl
    · apply processFrame_recalling
      intro hempty
      have hlen := congrArg List.length hempty
      have hwindow : (windowFrameMs * sampleRate.tdiv 1000).toNat ≤ audioFrame.length := by omega
      have hcompleted : (new () sampleRate windowFrameMs h).completed audioFrame
          = windows (windowFrameMs * sampleRate.tdiv 1000).toNat audioFrame := rfl
      rw [hcompleted, length_windows, List.length_nil] at hlen
      exact absurd (Nat.div_pos hwindow (by omega)) (by omega)
  · intro audioFrame hneither hanswers
    rw [not_or, not_le] at hneither
    have hshort : (new () sampleRate windowFrameMs h).completed audioFrame = [] := by
      apply windows_of_lt
      show audioFrame.length < (windowFrameMs * sampleRate.tdiv 1000).toNat
      omega
    have hprob := congrArg VadResult.probability hanswers
    rw [processFrame_probability_of_empty run (e := (new () sampleRate windowFrameMs h).recalling
      prob) hshort, processFrame_probability_of_empty run hshort] at hprob
    exact hneither.1 hprob

theorem SherpaVadDetector.answersLikeNew_iff (run : OrtRun Unit) (threshold : F32)
    (sampleRate : ℤ) (h : 0 < (sampleRate * 20).tdiv 1000) (history later : List (List F32)) :
    AnswersLikeNew (engine run) (new () threshold sampleRate h) history later ↔
      ∀ audioFrame ∈ later.head?,
        (final (processFrame run) (new () threshold sampleRate h)
            history).vad.getLastProbability = F32.zero ∨
          0 < (new () threshold sampleRate h).blocks audioFrame := by
  unfold AnswersLikeNew engine
  dsimp only
  rw [reset_eq_recalling]
  generalize (final (processFrame run) (new () threshold sampleRate h)
    history).vad.getLastProbability = prob
  apply outputs_eq_iff_head
  · rintro audioFrame (rfl | hfull)
    · rfl
    · exact processFrame_recalling run hfull prob
  · intro audioFrame hneither hanswers
    rw [not_or, not_lt] at hneither
    have hprob := congrArg VadResult.probability hanswers
    rw [processFrame_probability_of_empty run (d := (new () threshold sampleRate h).recalling prob)
      hneither.2, processFrame_probability_of_empty run hneither.2] at hprob
    exact hneither.1 hprob

/-- **When a reset engine answers like a new one.** A packet that completes a window, or frame,
is answered alike. Any other is answered with the last probability before the reset, where a
new engine has zero; so the two runs are the same exactly when that was zero too, or the first
packet completes one, or there is none. -/
theorem reset_answers_iff (run : OrtRun Unit) (history later : List (List F32)) :
    (∀ (sampleRate windowFrameMs : ℤ) (h : 0 < windowFrameMs * sampleRate.tdiv 1000),
      AnswersLikeNew (SileroVadEngine.engine run)
          (SileroVadEngine.new () sampleRate windowFrameMs h) history later ↔
        ∀ audioFrame ∈ later.head?,
          (final (SileroVadEngine.processFrame run)
              (SileroVadEngine.new () sampleRate windowFrameMs h)
              history).vadIterator.getLastProbability = F32.zero ∨
            windowFrameMs * sampleRate.tdiv 1000 ≤ audioFrame.length) ∧
      ∀ (threshold : F32) (sampleRate : ℤ) (h : 0 < (sampleRate * 20).tdiv 1000),
        AnswersLikeNew (SherpaVadDetector.engine run)
            (SherpaVadDetector.new () threshold sampleRate h) history later ↔
          ∀ audioFrame ∈ later.head?,
            (final (SherpaVadDetector.processFrame run)
                (SherpaVadDetector.new () threshold sampleRate h)
                history).vad.getLastProbability = F32.zero ∨
              0 < (SherpaVadDetector.new () threshold sampleRate h).blocks audioFrame :=
  ⟨fun sampleRate windowFrameMs h =>
      SileroVadEngine.answersLikeNew_iff run sampleRate windowFrameMs h history later,
    fun threshold sampleRate h =>
      SherpaVadDetector.answersLikeNew_iff run threshold sampleRate h history later⟩

/-- After speech and a reset, a stream whose first packet fills a window and a frame is answered
as by a new engine. -/
theorem reset_answers_iff_packets :
    let speech := List.replicate 14 (List.replicate 320 (F32.ofInt 1))
    let later := [List.replicate 512 F32.zero, [], List.replicate 320 (F32.ofInt 1)]
    AnswersLikeNew (SileroVadEngine.engine SileroVadEngine.speechAtEnd)
        (SileroVadEngine.new () 16000 32 SileroVadEngine.windowSize_default) speech later ∧
      AnswersLikeNew (SherpaVadDetector.engine SileroVadEngine.speechAtEnd)
        (SherpaVadDetector.new () SherpaVadDetector.frameThreshold 16000
          SherpaVadDetector.frameSize_default) speech later := by
  intro speech later
  have hiff := reset_answers_iff SileroVadEngine.speechAtEnd speech later
  have hfirst : ∀ audioFrame ∈ later.head?, audioFrame = List.replicate 512 F32.zero := by
    intro audioFrame hframe
    exact (Option.mem_some.mp hframe).symm
  constructor
  · refine (hiff.1 16000 32 SileroVadEngine.windowSize_default).mpr fun audioFrame hframe => ?_
    rw [hfirst audioFrame hframe, List.length_replicate]
    exact Or.inr (by decide)
  · refine (hiff.2 SherpaVadDetector.frameThreshold 16000
      SherpaVadDetector.frameSize_default).mpr fun audioFrame hframe => ?_
    rw [hfirst audioFrame hframe]
    exact Or.inr (by decide +kernel)

/-- A window of speech, a reset, and an empty packet: it is answered with the probability of the
window, by either engine. -/
theorem reset_answers_with_last_probability :
    (¬ ∀ (run : OrtRun Unit) (history later : List (List F32)),
      AnswersLikeNew (SileroVadEngine.engine run)
        (SileroVadEngine.new () 16000 32 SileroVadEngine.windowSize_default) history later) ∧
      ¬ ∀ (run : OrtRun Unit) (history later : List (List F32)),
        AnswersLikeNew (SherpaVadDetector.engine run)
          (SherpaVadDetector.new () SherpaVadDetector.frameThreshold 16000
            SherpaVadDetector.frameSize_default) history later := by
  constructor
  · intro h
    have hanswers := h SileroVadEngine.speechEverywhere [List.replicate 512 F32.zero] [[]]
    have hprob := congrArg (List.map fun r => F32.zero.lt r.probability) hanswers
    exact absurd hprob (by decide +kernel)
  · intro h
    have hanswers := h SileroVadEngine.speechEverywhere [List.replicate 320 F32.zero] [[]]
    have hprob := congrArg (List.map fun r => F32.zero.lt r.probability) hanswers
    exact absurd hprob (by decide +kernel)

end VadService
