import VadService.Sherpa.Frames
import VadService.Iterator.Calls

set_option autoImplicit false

/-! # The frames of a call

`process_frame` cuts the samples it has into frames, runs `process_internal` over them, and
merges the results (`processFrame_eq_run`). So a call is a run over the windows of the
buffer, and the iterator of the detector runs over the same windows.
-/

namespace VadService

open Machine Window VadIterator

namespace SherpaVadDetector

variable {σ : Type} (run : OrtRun σ)

/-! ## What a frame leaves alone -/

/-- The detector before the `switch` of `process_internal`. -/
def predicted (d : SherpaVadDetector σ) (frame : List F32) : SherpaVadDetector σ :=
  { d with vad := d.vad.predict run frame, frameIndex := d.frameIndex + 1 }

theorem processInternal_eq (d : SherpaVadDetector σ) (frame : List F32) :
    d.processInternal run frame =
      match d.state with
      | .inactivity =>
          ((d.predicted run frame).appendFixed frame).inInactivity
            (d.predicted run frame).frameActive
      | .inactivityTransition =>
          ((d.predicted run frame).appendFixed frame).inTransition
            (d.predicted run frame).frameActive
      | .activity => (d.predicted run frame).inActivity (d.predicted run frame).frameActive := rfl

/-- `process_internal` predicts its frame, and leaves the buffer of `process_frame` and the
sizes alone. -/
structure Took (frame : List F32) (d d' : SherpaVadDetector σ) : Prop where
  vad : d'.vad = d.vad.predict run frame
  frameSize : d'.frameSizeSamples = d.frameSizeSamples
  capacity : d'.fixedBufferCapacity = d.fixedBufferCapacity
  margin : d'.marginBuffer = d.marginBuffer

theorem processInternal_took (d : SherpaVadDetector σ) (frame : List F32) :
    Took run frame d (d.processInternal run frame).2 := by
  rw [processInternal_eq]
  cases d.state with
  | inactivity =>
      dsimp only [inInactivity]
      split_ifs <;> exact ⟨rfl, rfl, rfl, rfl⟩
  | inactivityTransition => exact ⟨rfl, rfl, rfl, rfl⟩
  | activity =>
      dsimp only [inActivity]
      split_ifs <;> exact ⟨rfl, rfl, rfl, rfl⟩

/-- The detector with another buffer of samples. -/
def withMargin (d : SherpaVadDetector σ) (marginBuffer : List F32) : SherpaVadDetector σ :=
  { d with marginBuffer := marginBuffer }

@[simp] theorem withMargin_toPhase (d : SherpaVadDetector σ) (marginBuffer : List F32) :
    (d.withMargin marginBuffer).toPhase = d.toPhase := rfl

@[simp] theorem withMargin_vad (d : SherpaVadDetector σ) (marginBuffer : List F32) :
    (d.withMargin marginBuffer).vad = d.vad := rfl

@[simp] theorem withMargin_frameSize (d : SherpaVadDetector σ) (marginBuffer : List F32) :
    (d.withMargin marginBuffer).frameSizeSamples = d.frameSizeSamples := rfl

@[simp] theorem withMargin_margin (d : SherpaVadDetector σ) (marginBuffer : List F32) :
    (d.withMargin marginBuffer).marginBuffer = marginBuffer := rfl

@[simp] theorem withMargin_withMargin (d : SherpaVadDetector σ) (margin marginBuffer : List F32) :
    (d.withMargin margin).withMargin marginBuffer = d.withMargin marginBuffer := rfl

theorem inInactivity_withMargin (frameActive : Bool) (d : SherpaVadDetector σ)
    (marginBuffer : List F32) :
    (d.withMargin marginBuffer).inInactivity frameActive
      = ((d.inInactivity frameActive).1,
          (d.inInactivity frameActive).2.withMargin marginBuffer) := by
  unfold inInactivity
  dsimp only [withMargin_toPhase]
  split_ifs <;> rfl

theorem inActivity_withMargin (frameActive : Bool) (d : SherpaVadDetector σ)
    (marginBuffer : List F32) :
    (d.withMargin marginBuffer).inActivity frameActive
      = ((d.inActivity frameActive).1,
          (d.inActivity frameActive).2.withMargin marginBuffer) := by
  unfold inActivity
  dsimp only [withMargin_toPhase]
  split_ifs <;> rfl

/-- `process_internal` does not look at the buffer. -/
theorem processInternal_withMargin (d : SherpaVadDetector σ) (marginBuffer frame : List F32) :
    (d.withMargin marginBuffer).processInternal run frame
      = ((d.processInternal run frame).1,
          (d.processInternal run frame).2.withMargin marginBuffer) := by
  have hstate : (d.withMargin marginBuffer).state = d.state := rfl
  rw [processInternal_eq, processInternal_eq, hstate]
  cases d.state with
  | inactivity =>
      exact inInactivity_withMargin (d.predicted run frame).frameActive
        ((d.predicted run frame).appendFixed frame) marginBuffer
  | inactivityTransition => rfl
  | activity =>
      exact inActivity_withMargin (d.predicted run frame).frameActive
        (d.predicted run frame) marginBuffer

theorem outputs_withMargin (d : SherpaVadDetector σ) (marginBuffer : List F32)
    (frames : List (List F32)) :
    outputs (processInternal run) (d.withMargin marginBuffer) frames
      = outputs (processInternal run) d frames := by
  induction frames generalizing d with
  | nil => rfl
  | cons frame frames ih => rw [outputs_cons, outputs_cons, processInternal_withMargin, ih]

theorem final_withMargin (d : SherpaVadDetector σ) (marginBuffer : List F32)
    (frames : List (List F32)) :
    final (processInternal run) (d.withMargin marginBuffer) frames
      = (final (processInternal run) d frames).withMargin marginBuffer := by
  induction frames generalizing d with
  | nil => rfl
  | cons frame frames ih => rw [final_cons, final_cons, processInternal_withMargin, ih]

theorem final_processInternal_vad (d : SherpaVadDetector σ) (frames : List (List F32)) :
    (final (processInternal run) d frames).vad = final (predictStep run) d.vad frames := by
  induction frames generalizing d with
  | nil => rfl
  | cons frame frames ih =>
      rw [final_cons, final_cons, ih, (processInternal_took run d frame).vad]
      rfl

/-- The two detectors have the same sizes. -/
structure SameSizes (d d' : SherpaVadDetector σ) : Prop where
  frameSize : d'.frameSizeSamples = d.frameSizeSamples
  capacity : d'.fixedBufferCapacity = d.fixedBufferCapacity

theorem SameSizes.trans {d d' d'' : SherpaVadDetector σ} (h : SameSizes d d')
    (h' : SameSizes d' d'') : SameSizes d d'' :=
  ⟨h'.frameSize.trans h.frameSize, h'.capacity.trans h.capacity⟩

theorem SameSizes.withMargin {d d' : SherpaVadDetector σ} (h : SameSizes d d')
    (marginBuffer : List F32) : SameSizes d (d'.withMargin marginBuffer) :=
  ⟨h.frameSize, h.capacity⟩

theorem final_processInternal_sizes (d : SherpaVadDetector σ) (frames : List (List F32)) :
    SameSizes d (final (processInternal run) d frames) := by
  apply final_inv (SameSizes d) _ ⟨rfl, rfl⟩
  intro d' frame h
  have htook := processInternal_took run d' frame
  exact h.trans ⟨htook.frameSize, htook.capacity⟩

/-! ## The loop -/

/-- `last_result` and `triggered_any` after a frame with the result `res`. -/
def merge (last : VadResult × Bool) (res : VadResult) : VadResult × Bool :=
  if res.state ≠ .silence ∧ res.state ≠ .speaking then (res, true)
  else if res.state = .speaking ∧ last.2 = false then (res, last.2)
  else last

/-- One round of the loop. -/
theorem blockLoop_cons (rounds : ℕ) (d : SherpaVadDetector σ) (last : VadResult × Bool) :
    blockLoop run (rounds + 1) d last.1 last.2 =
      blockLoop run rounds
        ((d.processInternal run (d.marginBuffer.take d.frameSizeSamples)).2.withMargin
          (d.marginBuffer.drop d.frameSizeSamples))
        (merge last (d.processInternal run (d.marginBuffer.take d.frameSizeSamples)).1).1
        (merge last (d.processInternal run (d.marginBuffer.take d.frameSizeSamples)).1).2 := by
  have hround := processInternal_withMargin run d (d.marginBuffer.drop d.frameSizeSamples)
    (d.marginBuffer.take d.frameSizeSamples)
  rw [blockLoop]
  dsimp only
  change processInternal run { d with marginBuffer := d.marginBuffer.drop d.frameSizeSamples }
    (d.marginBuffer.take d.frameSizeSamples) = _ at hround
  rw [hround]
  dsimp only
  generalize d.processInternal run (d.marginBuffer.take d.frameSizeSamples) = s
  obtain ⟨lastResult, triggeredAny⟩ := last
  unfold merge
  split_ifs <;> rfl

/-- **The loop runs over the frames in the buffer.** -/
theorem blockLoop_eq (rounds : ℕ) (d : SherpaVadDetector σ) (last : VadResult × Bool)
    (h : rounds ≤ d.marginBuffer.length / d.frameSizeSamples) :
    blockLoop run rounds d last.1 last.2 =
      (((outputs (processInternal run) d
          ((windows d.frameSizeSamples d.marginBuffer).take rounds)).foldl merge last).1,
        (final (processInternal run) d
          ((windows d.frameSizeSamples d.marginBuffer).take rounds)).withMargin
            (d.marginBuffer.drop (rounds * d.frameSizeSamples))) := by
  have hF := d.frameSize_pos
  induction rounds generalizing d last with
  | zero =>
      rw [List.take_zero, Nat.zero_mul, List.drop_zero]
      rfl
  | succ rounds ih =>
      have hfull : d.frameSizeSamples ≤ d.marginBuffer.length := by
        by_contra hlt
        rw [Nat.div_eq_of_lt (not_le.mp hlt)] at h
        exact absurd h (by omega)
      have htook := processInternal_took run d (d.marginBuffer.take d.frameSizeSamples)
      rw [blockLoop_cons, windows_cons hF hfull, List.take_succ_cons, outputs_cons, final_cons,
        List.foldl_cons]
      rw [length_drop_div hF hfull] at h
      generalize d.processInternal run (d.marginBuffer.take d.frameSizeSamples) = s at htook ⊢
      have hrest := ih (s.2.withMargin (d.marginBuffer.drop d.frameSizeSamples))
        (merge last s.1) (by
          show rounds ≤ (d.marginBuffer.drop d.frameSizeSamples).length / s.2.frameSizeSamples
          rw [htook.frameSize]
          omega) s.2.frameSize_pos
      have hdrop : (d.marginBuffer.drop d.frameSizeSamples).drop (rounds * d.frameSizeSamples)
          = d.marginBuffer.drop ((rounds + 1) * d.frameSizeSamples) := by
        rw [List.drop_drop, Nat.succ_mul, Nat.add_comm]
      rw [hrest, outputs_withMargin, final_withMargin, withMargin_margin, withMargin_frameSize,
        withMargin_withMargin, htook.frameSize, hdrop]

/-- The result of the loop. -/
theorem blockLoop_result (rounds : ℕ) (d : SherpaVadDetector σ) (last : VadResult × Bool)
    (h : rounds ≤ d.marginBuffer.length / d.frameSizeSamples) :
    (blockLoop run rounds d last.1 last.2).1 =
      ((outputs (processInternal run) d
          ((windows d.frameSizeSamples d.marginBuffer).take rounds)).foldl merge last).1 := by
  rw [blockLoop_eq run rounds d last h]

/-! ## One call -/

/-- The frames a call hands to `process_internal`. -/
def handed (d : SherpaVadDetector σ) (audioFrame : List F32) : List (List F32) :=
  (windows d.frameSizeSamples (d.marginBuffer ++ audioFrame)).take (d.blocks audioFrame).toNat

/-- As an `int`, the number of frames does not grow. -/
theorem blocks_le (d : SherpaVadDetector σ) (audioFrame : List F32) :
    (d.blocks audioFrame).toNat
      ≤ (d.marginBuffer ++ audioFrame).length / d.frameSizeSamples := by
  rw [List.length_append]
  unfold blocks
  generalize (d.marginBuffer.length + audioFrame.length) / d.frameSizeSamples = n
  simp only [WordArith.bits32]
  omega

theorem length_handed (d : SherpaVadDetector σ) (audioFrame : List F32) :
    (d.handed audioFrame).length = (d.blocks audioFrame).toNat := by
  rw [handed, List.length_take, length_windows, min_eq_left (d.blocks_le audioFrame)]

theorem length_of_mem_handed {d : SherpaVadDetector σ} {audioFrame frame : List F32}
    (h : frame ∈ d.handed audioFrame) : frame.length = d.frameSizeSamples :=
  length_of_mem_windows (List.mem_of_mem_take h)

/-- `last_result` before the loop. -/
def nothingYet : VadResult where
  state := .silence
  probability := F32.zero
  timestamp := ""

theorem processFrame_loop (d : SherpaVadDetector σ) (audioFrame : List F32) :
    d.processFrame run audioFrame =
      if d.blocks audioFrame ≤ 0 then
        (d.emit .silence, d.withMargin (d.marginBuffer ++ audioFrame))
      else
        blockLoop run (d.blocks audioFrame).toNat (d.withMargin (d.marginBuffer ++ audioFrame))
          nothingYet false := rfl

/-- **A call that completes a frame is a run over its frames.** -/
theorem processFrame_eq_run {d : SherpaVadDetector σ} {audioFrame : List F32}
    (h : 0 < d.blocks audioFrame) :
    d.processFrame run audioFrame =
      (((outputs (processInternal run) d (d.handed audioFrame)).foldl merge
          (nothingYet, false)).1,
        (final (processInternal run) d (d.handed audioFrame)).withMargin
          ((d.marginBuffer ++ audioFrame).drop
            ((d.blocks audioFrame).toNat * d.frameSizeSamples))) := by
  have hle := d.blocks_le audioFrame
  rw [processFrame_loop, if_neg (not_le.mpr h), handed]
  have hloop := blockLoop_eq run (d.blocks audioFrame).toNat
    (d.withMargin (d.marginBuffer ++ audioFrame)) (nothingYet, false) hle
  rw [outputs_withMargin, final_withMargin, withMargin_margin, withMargin_frameSize,
    withMargin_withMargin] at hloop
  exact hloop

/-- The result of a call that completes a frame. -/
theorem processFrame_result {d : SherpaVadDetector σ} {audioFrame : List F32}
    (h : 0 < d.blocks audioFrame) :
    (d.processFrame run audioFrame).1 =
      ((outputs (processInternal run) d (d.handed audioFrame)).foldl merge
        (nothingYet, false)).1 := by
  have hle := d.blocks_le audioFrame
  have hloop := blockLoop_result run (d.blocks audioFrame).toNat
    (d.withMargin (d.marginBuffer ++ audioFrame)) (nothingYet, false) hle
  rw [outputs_withMargin, withMargin_margin, withMargin_frameSize] at hloop
  rw [processFrame_loop, if_neg (not_le.mpr h), handed]
  exact hloop

/-- What a call makes of the detector, also if it completes no frame. -/
theorem processFrame_detector (d : SherpaVadDetector σ) (audioFrame : List F32) :
    (d.processFrame run audioFrame).2 =
      (final (processInternal run) d (d.handed audioFrame)).withMargin
        ((d.marginBuffer ++ audioFrame).drop
          ((d.blocks audioFrame).toNat * d.frameSizeSamples)) := by
  by_cases h : 0 < d.blocks audioFrame
  · rw [processFrame_eq_run run h]
  · have hzero : (d.blocks audioFrame).toNat = 0 := by omega
    rw [processFrame_loop, if_pos (not_lt.mp h), handed, hzero, List.take_zero, final_nil,
      Nat.zero_mul, List.drop_zero]

/-- The iterator runs over the frames of the call. -/
theorem processFrame_vad (d : SherpaVadDetector σ) (audioFrame : List F32) :
    (d.processFrame run audioFrame).2.vad
      = final (predictStep run) d.vad (d.handed audioFrame) := by
  calc (d.processFrame run audioFrame).2.vad
      = (final (processInternal run) d (d.handed audioFrame)).vad := by
        rw [processFrame_detector, withMargin_vad]
    _ = final (predictStep run) d.vad (d.handed audioFrame) :=
        final_processInternal_vad run d _

theorem shape_processFrame {cfg : VadConfig} {d : SherpaVadDetector σ} (h : Shape cfg d.vad)
    (audioFrame : List F32) : Shape cfg (d.processFrame run audioFrame).2.vad := by
  rw [processFrame_vad]
  exact h.final_predictStep run _

theorem processFrame_sizes (d : SherpaVadDetector σ) (audioFrame : List F32) :
    SameSizes d (d.processFrame run audioFrame).2 := by
  rw [processFrame_detector]
  exact (final_processInternal_sizes run d _).withMargin _

end SherpaVadDetector

end VadService
