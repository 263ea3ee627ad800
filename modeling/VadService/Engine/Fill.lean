import VadService.Engine.Stream
import VadService.Sherpa.Blocks
import VadService.Iterator.Input
import VadService.Lib.Lockstep

set_option autoImplicit false

/-! # The windows the engines hand over

`predict` does not check the size of its window. The Silero engine computes the size of its
windows as its iterator does. The Sherpa detector cuts frames of `sample_rate * 20 / 1000`
samples, where its iterator has windows of `20 * (sample_rate / 1000)`; the two are the same
when the sample rate is less than 50 Hz above a multiple of 1000 (`frameSize_eq_iff`), and
else every frame runs over the end of the input.
-/

namespace VadService

open Machine Window VadIterator

/-! ## The Silero engine -/

namespace SileroVadEngine

variable {σ : Type} (run : OrtRun σ)

/-- The windows of a packet fill the input of the model. -/
def FillsInput (e : SileroVadEngine σ) (audioFrame : List F32) : Prop :=
  Along (predictStep run) Fills e.vadIterator (e.handed run audioFrame)

/-- A sample rate of 1000 or more makes a window. -/
theorem windowSize_pos_of {sampleRate windowFrameMs : ℤ} (hrate : 1000 ≤ sampleRate)
    (hframe : 0 < windowFrameMs) : 0 < windowFrameMs * sampleRate.tdiv 1000 := by
  apply mul_pos hframe
  rw [Int.tdiv_eq_ediv_of_nonneg (by omega)]
  omega

/-- **The windows of a packet always fill the input.** -/
theorem fillsInput {e : SileroVadEngine σ} {cfg : VadConfig} (h : Shape cfg e.vadIterator)
    (hcfg : Roomy cfg) (audioFrame : List F32) : e.FillsInput run audioFrame := by
  unfold FillsInput
  rw [h.along_fills_iff run hcfg, handed_eq]
  intro w hw
  rw [length_of_mem_windows hw, ← h.cfg_eq, e.windowSize_eq]

theorem shape_processFrame {e : SileroVadEngine σ} {cfg : VadConfig}
    (h : Shape cfg e.vadIterator) (audioFrame : List F32) :
    Shape cfg (processFrame run e audioFrame).2.vadIterator := by
  rw [processFrame_engine]
  exact h.final_predictStep run _

/-- The windows of a stream of packets fill the input. -/
theorem along_fillsInput {e : SileroVadEngine σ} {cfg : VadConfig}
    (h : Shape cfg e.vadIterator) (hcfg : Roomy cfg) (frames : List (List F32)) :
    Along (processFrame run) (FillsInput run) e frames := by
  induction frames generalizing e with
  | nil => trivial
  | cons frame frames ih =>
      exact ⟨fillsInput run h hcfg frame, ih (shape_processFrame run h frame)⟩

end SileroVadEngine

/-! ## The Sherpa detector -/

namespace SherpaVadDetector

variable {σ : Type} (run : OrtRun σ)

/-- The frames of a packet fill the input of the model. -/
def FillsInput (d : SherpaVadDetector σ) (audioFrame : List F32) : Prop :=
  Along (predictStep run) Fills d.vad (d.handed audioFrame)

/-- A sample rate of 1000 or more makes a frame. -/
theorem frameSize_pos_of {sampleRate : ℤ} (hrate : 1000 ≤ sampleRate) :
    0 < (sampleRate * 20).tdiv 1000 := by
  rw [Int.tdiv_eq_ediv_of_nonneg (by omega)]
  omega

/-- **When frames have the size of the windows.** -/
theorem frameSize_eq_iff {sampleRate : ℤ} (hrate : 0 ≤ sampleRate) :
    (sampleRate * 20).tdiv 1000 = 20 * sampleRate.tdiv 1000 ↔ sampleRate % 1000 < 50 := by
  rw [Int.tdiv_eq_ediv_of_nonneg (by omega), Int.tdiv_eq_ediv_of_nonneg hrate]
  omega

/-- A detector with this frame size, and an iterator with this configuration. -/
structure Built (cfg : VadConfig) (frameSize : ℕ) (d : SherpaVadDetector σ) : Prop where
  shape : Shape cfg d.vad
  frameSize : d.frameSizeSamples = frameSize

variable {cfg : VadConfig} {frameSize : ℕ} {d : SherpaVadDetector σ}

/-- The frames of a packet fill the input when they have the size of a window, or there are
none. -/
theorem Built.fillsInput_iff (h : Built cfg frameSize d) (hcfg : Roomy cfg)
    (audioFrame : List F32) :
    d.FillsInput run audioFrame ↔
      (frameSize : ℤ) = cfg.windowSizeSamples ∨ d.blocks audioFrame ≤ 0 := by
  have hlen := length_handed d audioFrame
  have hsize : ∀ w ∈ d.handed audioFrame, w.length = frameSize := fun w hw =>
    (length_of_mem_handed hw).trans h.frameSize
  unfold FillsInput
  rw [h.shape.along_fills_iff run hcfg]
  generalize d.blocks audioFrame = blocks at hlen ⊢
  constructor
  · intro hfills
    cases hframes : d.handed audioFrame with
    | nil =>
        rw [hframes, List.length_nil] at hlen
        exact Or.inr (by omega)
    | cons w ws =>
        have hw : w ∈ d.handed audioFrame := by
          rw [hframes]
          exact List.mem_cons_self
        left
        rw [← hfills w hw, hsize w hw]
  · rintro (heq | hnone) w hw
    · rw [hsize w hw, heq]
    · have hempty : d.handed audioFrame = [] :=
        List.eq_nil_of_length_eq_zero (by omega)
      rw [hempty] at hw
      cases hw

theorem Built.processFrame (h : Built cfg frameSize d) (audioFrame : List F32) :
    Built cfg frameSize (d.processFrame run audioFrame).2 := by
  refine ⟨shape_processFrame run h.shape audioFrame, ?_⟩
  rw [(processFrame_sizes run d audioFrame).frameSize, h.frameSize]

/-- The call completes no frame. -/
def CompletesNone (d : SherpaVadDetector σ) (audioFrame : List F32) : Prop :=
  d.blocks audioFrame ≤ 0

/-- **The frames of a stream of packets fill the input** when they have the size of a window, or
the stream completes none. -/
theorem Built.along_fillsInput_iff (h : Built cfg frameSize d) (hcfg : Roomy cfg)
    (frames : List (List F32)) :
    Along (SherpaVadDetector.processFrame run) (FillsInput run) d frames ↔
      (frameSize : ℤ) = cfg.windowSizeSamples ∨
        Along (SherpaVadDetector.processFrame run) CompletesNone d frames := by
  rw [along_congr_inv (Q := fun d frame =>
      (frameSize : ℤ) = cfg.windowSizeSamples ∨ CompletesNone d frame)
    (Built cfg frameSize) (fun d frame h _ => h.fillsInput_iff run hcfg frame)
    (fun d frame h _ _ => h.processFrame run frame) h (along_true d frames)]
  by_cases heq : (frameSize : ℤ) = cfg.windowSizeSamples
  · simp only [heq, true_or, iff_true]
    exact along_true d frames
  · simp only [heq, false_or]

theorem built_new (session : σ) (threshold : F32) (sampleRate : ℤ)
    (h : 0 < (sampleRate * 20).tdiv 1000) :
    Built (VadConfig.new sampleRate 20 threshold) ((sampleRate * 20).tdiv 1000).toNat
      (new session threshold sampleRate h) :=
  ⟨(shape_new session).resetStates, rfl⟩

end SherpaVadDetector

/-! ## Both engines -/

/-- **When the input of the model is filled exactly.** With the Silero engine it always is; with
the Sherpa detector when the sample rate is less than 50 Hz above a multiple of 1000, or the
packets complete no frame. -/
theorem fills_input_iff {σ : Type} (run : OrtRun σ) (session : σ) (sampleRate : ℤ)
    (hrate : 1000 ≤ sampleRate) (frames : List (List F32)) :
    (∀ (windowFrameMs : ℤ) (hframe : 0 < windowFrameMs),
      Along (SileroVadEngine.processFrame run) (SileroVadEngine.FillsInput run)
        (SileroVadEngine.new session sampleRate windowFrameMs
          (SileroVadEngine.windowSize_pos_of hrate hframe)) frames) ∧
      ∀ threshold : F32,
        Along (SherpaVadDetector.processFrame run) (SherpaVadDetector.FillsInput run)
            (SherpaVadDetector.new session threshold sampleRate
              (SherpaVadDetector.frameSize_pos_of hrate)) frames ↔
          sampleRate % 1000 < 50 ∨
            Along (SherpaVadDetector.processFrame run) SherpaVadDetector.CompletesNone
              (SherpaVadDetector.new session threshold sampleRate
                (SherpaVadDetector.frameSize_pos_of hrate)) frames := by
  constructor
  · intro windowFrameMs hframe
    exact SileroVadEngine.along_fillsInput run (shape_new session)
      (roomy_new sampleRate windowFrameMs _) frames
  · intro threshold
    have hpos := SherpaVadDetector.frameSize_pos_of hrate
    have hwindow : (VadConfig.new sampleRate 20 threshold).windowSizeSamples
        = 20 * sampleRate.tdiv 1000 := rfl
    rw [(SherpaVadDetector.built_new session threshold sampleRate hpos).along_fillsInput_iff run
      (roomy_new sampleRate 20 threshold), hwindow, Int.toNat_of_nonneg hpos.le,
      SherpaVadDetector.frameSize_eq_iff (by omega)]

/-- Packets of 441 samples: at 22050 Hz each is a frame and overruns the input, at 16000 Hz it
is a frame and a part of the next, and the input is filled. -/
theorem fills_input_iff_frames :
    let run := SileroVadEngine.speechEverywhere
    let frames := List.replicate 10 (List.replicate 441 F32.zero)
    Along (SileroVadEngine.processFrame run) (SileroVadEngine.FillsInput run)
        (SileroVadEngine.new () 22050 32 (SileroVadEngine.windowSize_pos_of (by decide)
          (by decide))) frames ∧
      ¬ Along (SherpaVadDetector.processFrame run) (SherpaVadDetector.FillsInput run)
          (SherpaVadDetector.new () SherpaVadDetector.frameThreshold 22050
            (SherpaVadDetector.frameSize_pos_of (by decide))) frames ∧
        Along (SherpaVadDetector.processFrame run) (SherpaVadDetector.FillsInput run)
          (SherpaVadDetector.new () SherpaVadDetector.frameThreshold 16000
            (SherpaVadDetector.frameSize_pos_of (by decide))) frames := by
  intro run frames
  have hfills := fills_input_iff run () 22050 (by decide) frames
  have hfills' := fills_input_iff run () 16000 (by decide) frames
  refine ⟨hfills.1 32 (by decide), ?_, (hfills'.2 _).mpr (Or.inl (by decide))⟩
  intro h
  rcases (hfills.2 SherpaVadDetector.frameThreshold).mp h with hrate | ⟨hnone, -⟩
  · exact absurd hrate (by decide)
  · unfold SherpaVadDetector.CompletesNone at hnone
    exact absurd hnone (by decide +kernel)

/-- At 22050 Hz a frame has 441 samples, and a window 440. -/
theorem frame_overruns_input :
    ¬ ∀ (sampleRate : ℤ) (hrate : 1000 ≤ sampleRate) (frames : List (List F32)),
      Along (SherpaVadDetector.processFrame SileroVadEngine.speechEverywhere)
        (SherpaVadDetector.FillsInput SileroVadEngine.speechEverywhere)
        (SherpaVadDetector.new () SherpaVadDetector.frameThreshold sampleRate
          (SherpaVadDetector.frameSize_pos_of hrate)) frames := by
  intro h
  have hfills := h 22050 (by decide) [List.replicate 441 F32.zero]
  rw [(SherpaVadDetector.built_new () SherpaVadDetector.frameThreshold 22050
    (by decide)).along_fillsInput_iff _ (roomy_new 22050 20 SherpaVadDetector.frameThreshold)]
    at hfills
  rcases hfills with hsize | ⟨hnone, -⟩
  · exact absurd hsize (by decide +kernel)
  · unfold SherpaVadDetector.CompletesNone at hnone
    exact absurd hnone (by decide +kernel)

end VadService
