import VadService.Iterator.Calls

set_option autoImplicit false

/-! # What the model is given

The input of the model is the context and a window. When the window has its size, it fills
the input exactly (`fills_iff`). Every exit of `predict` but one stores the end of the input
as the next context, and that one is taken for a NaN only. So without NaNs the context is
always the end of the stream, whatever the trigger logic makes of the probabilities.
-/

namespace VadService

open Machine Window FloatFormat

/-! ## The input -/

namespace VadIterator

variable {σ : Type}

/-- The window fills the model's input: with the context in front of it, it takes up the whole
of `new_data` and no more. -/
structure Fills (it : VadIterator σ) (chunk : List F32) : Prop where
  size : (chunk.length : ℤ) = it.cfg.windowSizeSamples
  newData : it.newData chunk = it.context ++ chunk
  effective : ((it.newData chunk).length : ℤ) = it.cfg.effectiveWindowSize

/-- The two copies of `predict`, when they fit. -/
theorem newData_eq {it : VadIterator σ} {chunk : List F32}
    (hcontext : it.context.length = contextSamples)
    (heffective : it.cfg.effectiveWindowSize = it.cfg.windowSizeSamples + contextSamples)
    (hchunk : (chunk.length : ℤ) = it.cfg.windowSizeSamples) :
    it.newData chunk = it.context ++ chunk := by
  have hsize : it.cfg.effectiveWindowSize.toNat = it.context.length + chunk.length := by omega
  unfold newData
  rw [hsize, ← hcontext]
  dsimp only
  generalize it.context = context
  have hfirst : copyAt (List.replicate (context.length + chunk.length) F32.zero) 0 context
      = context ++ List.replicate chunk.length F32.zero := by
    simp [copyAt]
  rw [hfirst]
  simp [copyAt]

/-- The configuration leaves room for the context and one window. -/
def Roomy (cfg : VadConfig) : Prop :=
  cfg.effectiveWindowSize = cfg.windowSizeSamples + contextSamples

theorem roomy_new (sampleRate windowsFrameSize : ℤ) (threshold : F32) :
    Roomy (VadConfig.new sampleRate windowsFrameSize threshold) := rfl

theorem Shape.newData_eq {cfg : VadConfig} {it : VadIterator σ} (h : Shape cfg it)
    (hcfg : Roomy cfg) {chunk : List F32} (hchunk : (chunk.length : ℤ) = cfg.windowSizeSamples) :
    it.newData chunk = it.context ++ chunk := by
  rw [← h.cfg_eq] at hcfg hchunk
  exact VadIterator.newData_eq h.context hcfg hchunk

/-- **A window fills the input exactly when it has its size.** -/
theorem Shape.fills_iff {cfg : VadConfig} {it : VadIterator σ} (h : Shape cfg it)
    (hcfg : Roomy cfg) (chunk : List F32) :
    it.Fills chunk ↔ (chunk.length : ℤ) = cfg.windowSizeSamples := by
  constructor
  · intro hfills
    rw [← h.cfg_eq]
    exact hfills.size
  · intro hchunk
    have hnew := h.newData_eq hcfg hchunk
    refine ⟨h.cfg_eq.symm ▸ hchunk, hnew, ?_⟩
    rw [hnew, List.length_append, h.context, h.cfg_eq, hcfg]
    omega

/-- The windows of a run fill the input when all have the size. -/
theorem Shape.along_fills_iff (run : OrtRun σ) {cfg : VadConfig} {it : VadIterator σ}
    (h : Shape cfg it) (hcfg : Roomy cfg) (ws : List (List F32)) :
    Along (predictStep run) Fills it ws ↔ ∀ w ∈ ws, (w.length : ℤ) = cfg.windowSizeSamples := by
  induction ws generalizing it with
  | nil => simp
  | cons w ws ih =>
      rw [along_cons, h.fills_iff hcfg, List.forall_mem_cons]
      exact and_congr_right fun _ => ih (h.predict run w)

end VadIterator

/-! ## The context -/

/-- **Every exit copies the context**, if neither the probability nor the threshold is a NaN. -/
theorem Trigger.step_copies (a : WordArith) {c : VadConfig} (hthreshold : c.threshold ≠ .nan)
    (t : Trigger) {prob : F32} (hprob : prob ≠ .nan) : (t.step a c prob).1 = true := by
  have hlow : c.threshold.toF64.sub d015 ≠ .nan := by
    obtain ⟨h, hd⟩ := d015_eq
    rw [hd]
    exact Value.sub_fin_ne_nan (Value.widen_ne_nan _ hthreshold) _ h
  have hhigh : c.isHigh prob = !prob.lt c.threshold := Value.le_eq_not_lt hprob hthreshold
  have hmiddle : c.isMiddle prob = (!c.isLow prob && prob.lt c.threshold) :=
    congrArg (· && prob.lt c.threshold) (Value.le_eq_not_lt (Value.widen_ne_nan _ hprob) hlow)
  unfold Trigger.step
  dsimp only
  rw [hhigh, hmiddle]
  split_ifs with h1 h2 h3 h4
  · rfl
  · rfl
  · rfl
  · rfl
  · -- below the threshold, not in the middle band and not below it
    have hlt : prob.lt c.threshold = true := by simpa using h1
    exact absurd (by rw [hlt, Bool.and_true]; simpa using h4) h3

namespace VadIterator

/-- The samples that have arrived with the windows up to number `k`, after the initial
context. -/
def arrived (ws : List (List F32)) (k : ℕ) : List F32 :=
  List.replicate contextSamples F32.zero ++ (ws.take k).flatten

/-- The input for window `k`: the last samples that have arrived with it. -/
def inputAt (windowSize : ℕ) (ws : List (List F32)) (k : ℕ) : List F32 :=
  (arrived ws (k + 1)).rtake (contextSamples + windowSize)

/-- The recurrent state for window `k`: what the model returned for the window before. -/
def recurrentAt (run : OrtRun Unit) (sampleRate : ℤ) (windowSize : ℕ) (ws : List (List F32)) :
    ℕ → OrtState
  | 0 => Vector.replicate sizeState F32.zero
  | k + 1 =>
      (run (inputAt windowSize ws k) (recurrentAt run sampleRate windowSize ws k) sampleRate
        ()).1.2

/-- `predict`, answering with what it gives the model. -/
def inputStep {σ : Type} (run : OrtRun σ) (it : VadIterator σ) (dataChunk : List F32) :
    (List F32 × OrtState × ℤ) × VadIterator σ :=
  ((it.newData dataChunk, it.state, it.cfg.sampleRate), it.predict run dataChunk)

/-- The inputs of the model in a run over the windows. -/
def inputs {σ : Type} (run : OrtRun σ) (it : VadIterator σ) (ws : List (List F32)) :
    List (List F32 × OrtState × ℤ) :=
  outputs (inputStep run) it ws

theorem final_inputStep {σ : Type} (run : OrtRun σ) (it : VadIterator σ)
    (ws : List (List F32)) : final (inputStep run) it ws = final (predictStep run) it ws :=
  final_congr (inputStep run) (predictStep run) (fun _ _ => rfl) it ws

theorem arrived_succ {ws : List (List F32)} {k : ℕ} (hk : k < ws.length) :
    arrived ws (k + 1) = arrived ws k ++ ws[k] := by
  unfold arrived
  rw [List.take_add_one, List.getElem?_eq_getElem hk, Option.toList_some, List.flatten_append,
    List.flatten_singleton, List.append_assoc]

section Run

variable {run : OrtRun Unit} {cfg : VadConfig} {windowSize : ℕ}

/-- The iterator has seen the first `k` windows. -/
structure HasSeen (run : OrtRun Unit) (cfg : VadConfig) (windowSize : ℕ) (ws : List (List F32))
    (k : ℕ) (it : VadIterator Unit) : Prop where
  shape : Shape cfg it
  context : it.context = (arrived ws k).rtake contextSamples
  state : it.state = recurrentAt run cfg.sampleRate windowSize ws k

/-- An iterator that was reset has seen nothing. -/
theorem Shape.hasSeen_reset {it : VadIterator Unit} (h : Shape cfg it) (ws : List (List F32)) :
    HasSeen run cfg windowSize ws 0 it.reset := by
  refine ⟨h.resetStates, ?_, rfl⟩
  show List.replicate it.context.length F32.zero = _
  rw [h.context]
  rfl

variable {ws : List (List F32)} {k : ℕ} {it : VadIterator Unit}

/-- The input for the next window. -/
theorem HasSeen.newData_eq (h : HasSeen run cfg windowSize ws k it) (hcfg : Roomy cfg)
    (hsize : cfg.windowSizeSamples = windowSize) (hk : k < ws.length)
    (hw : ws[k].length = windowSize) : it.newData ws[k] = inputAt windowSize ws k := by
  calc it.newData ws[k] = it.context ++ ws[k] :=
        h.shape.newData_eq hcfg (by rw [hw, hsize])
    _ = (arrived ws k).rtake contextSamples ++ ws[k] := by rw [h.context]
    _ = (arrived ws k ++ ws[k]).rtake (contextSamples + ws[k].length) :=
        (rtake_append _ _ _).symm
    _ = inputAt windowSize ws k := by rw [inputAt, arrived_succ hk, hw]

/-- **One window more.** -/
theorem HasSeen.predict (h : HasSeen run cfg windowSize ws k it) (hcfg : Roomy cfg)
    (hsize : cfg.windowSizeSamples = windowSize) (hthreshold : cfg.threshold ≠ .nan)
    (hrun : ∀ input state sr, (run input state sr ()).1.1 ≠ .nan) (hk : k < ws.length)
    (hw : ws[k].length = windowSize) :
    HasSeen run cfg windowSize ws (k + 1) (it.predict run ws[k]) := by
  have hnew := h.newData_eq hcfg hsize hk hw
  have hcopies : (it.toTrigger.step WordArith.bits32 it.cfg
      (it.predict run ws[k]).getLastProbability).1 = true :=
    Trigger.step_copies _ (h.shape.cfg_eq ▸ hthreshold) _ (hrun _ _ _)
  refine ⟨h.shape.predict run _, ?_, ?_⟩
  · rw [predict_context, if_pos hcopies, hnew]
    exact rtake_rtake _ (Nat.le_add_right _ _)
  · show (run (it.newData ws[k]) it.state it.cfg.sampleRate it.session).1.2 = _
    rw [hnew, h.state, h.shape.cfg_eq]
    rfl

/-- A run over windows of the right size. -/
theorem HasSeen.final_predictStep (h : HasSeen run cfg windowSize ws 0 it) (hcfg : Roomy cfg)
    (hsize : cfg.windowSizeSamples = windowSize) (hthreshold : cfg.threshold ≠ .nan)
    (hrun : ∀ input state sr, (run input state sr ()).1.1 ≠ .nan)
    (hws : ∀ w ∈ ws, w.length = windowSize) {k : ℕ} (hk : k ≤ ws.length) :
    HasSeen run cfg windowSize ws k (final (predictStep run) it (ws.take k)) := by
  induction k with
  | zero => exact h
  | succ k ih =>
      rw [List.take_add_one, List.getElem?_eq_getElem hk, Option.toList_some, final_append]
      exact (ih (Nat.le_of_succ_le hk)).predict hcfg hsize hthreshold hrun hk
        (hws _ (List.getElem_mem hk))

/-- **What the model is given in a run.** -/
theorem HasSeen.inputs_eq (h : HasSeen run cfg windowSize ws 0 it) (hcfg : Roomy cfg)
    (hsize : cfg.windowSizeSamples = windowSize) (hthreshold : cfg.threshold ≠ .nan)
    (hrun : ∀ input state sr, (run input state sr ()).1.1 ≠ .nan)
    (hws : ∀ w ∈ ws, w.length = windowSize) :
    inputs run it ws = (List.range ws.length).map fun k =>
      (inputAt windowSize ws k, recurrentAt run cfg.sampleRate windowSize ws k,
        cfg.sampleRate) := by
  unfold inputs
  apply List.ext_getElem
  · rw [length_outputs, List.length_map, List.length_range]
  · intro k hk _
    have hk' : k < ws.length := by rwa [length_outputs] at hk
    have hseen := h.final_predictStep hcfg hsize hthreshold hrun hws (Nat.le_of_lt hk')
    rw [List.getElem_map, List.getElem_range, getElem_outputs, final_inputStep]
    show (newData _ ws[k], _, _) = _
    rw [hseen.newData_eq hcfg hsize hk' (hws _ (List.getElem_mem hk')), hseen.state,
      hseen.shape.cfg_eq]

end Run

/-! ## Two settings -/

/-- The parameters of the trigger logic. -/
structure Settings where
  threshold : F32
  minSilenceDurationMs : ℤ
  speechPadMs : ℤ
  minSpeechDurationMs : ℤ
  maxSpeechDurationS : F32

/-- The configuration with these settings. -/
def Settings.config (s : Settings) (sampleRate windowsFrameSize : ℤ) : VadConfig :=
  VadConfig.new sampleRate windowsFrameSize s.threshold s.minSilenceDurationMs s.speechPadMs
    s.minSpeechDurationMs s.maxSpeechDurationS

/-- An iterator that has served some calls, and has then been reset. -/
def afterReset (run : OrtRun Unit) (cfg : VadConfig) (calls : List Call) : VadIterator Unit :=
  (final (callStep run) (VadIterator.new cfg ()) calls).reset

/-- **The trigger logic has no influence on the inference.** Two iterators with the same model
and any two settings give the model the same inputs, whatever they were used for before their
reset: the end of the stream, and the recurrent state of the window before. -/
theorem inputs_independent (run : OrtRun Unit)
    (hrun : ∀ input state sr, (run input state sr ()).1.1 ≠ .nan)
    (sampleRate windowsFrameSize : ℤ) (s₁ s₂ : Settings) (h₁ : s₁.threshold ≠ .nan)
    (h₂ : s₂.threshold ≠ .nan) (calls₁ calls₂ : List Call) (ws : List (List F32))
    (windowSize : ℕ) (hsize : windowsFrameSize * sampleRate.tdiv 1000 = windowSize)
    (hws : ∀ w ∈ ws, w.length = windowSize) :
    inputs run (afterReset run (s₁.config sampleRate windowsFrameSize) calls₁) ws
        = inputs run (afterReset run (s₂.config sampleRate windowsFrameSize) calls₂) ws ∧
      inputs run (afterReset run (s₁.config sampleRate windowsFrameSize) calls₁) ws
        = (List.range ws.length).map fun k =>
            (inputAt windowSize ws k, recurrentAt run sampleRate windowSize ws k, sampleRate) := by
  have hinputs : ∀ (s : Settings) (calls : List Call), s.threshold ≠ .nan →
      inputs run (afterReset run (s.config sampleRate windowsFrameSize) calls) ws
        = (List.range ws.length).map fun k =>
            (inputAt windowSize ws k, recurrentAt run sampleRate windowSize ws k, sampleRate) := by
    intro s calls hthreshold
    have hshape : Shape (s.config sampleRate windowsFrameSize) _ := calls_shape run () calls
    exact (hshape.hasSeen_reset ws).inputs_eq rfl hsize hthreshold hrun hws
  exact ⟨(hinputs s₁ calls₁ h₁).trans (hinputs s₂ calls₂ h₂).symm, hinputs s₁ calls₁ h₁⟩

/-- A model that returns the same probability for every window. -/
def steady (prob : F32) : OrtRun Unit := fun _ state _ session => ((prob, state), session)

/-- The settings of the constructor's defaults, but for the threshold. -/
def settingsWith (threshold : F32) : Settings where
  threshold := threshold
  minSilenceDurationMs := 100
  speechPadMs := 30
  minSpeechDurationMs := 250
  maxSpeechDurationS := F32.infinity

theorem inputs_independent_windows :
    let run := steady (F32.ofInt 1)
    let ws := [List.replicate 512 (F32.ofInt 1), List.replicate 512 F32.zero]
    inputs run (afterReset run ((settingsWith (binary32.round (1 / 2))).config 16000 32) []) ws
        = inputs run
            (afterReset run ((settingsWith (F32.ofInt 2)).config 16000 32) [.process []]) ws ∧
      inputs run (afterReset run ((settingsWith (binary32.round (1 / 2))).config 16000 32) []) ws
        = (List.range ws.length).map fun k =>
            (inputAt 512 ws k, recurrentAt run 16000 512 ws k, 16000) := by
  intro run ws
  have hws : ∀ w ∈ ws, w.length = 512 := by
    intro w hw
    rcases List.mem_pair.mp hw with rfl | rfl
    · exact List.length_replicate
    · exact List.length_replicate
  exact inputs_independent run (fun _ _ _ => Value.round_ne_nan 1) 16000 32
    (settingsWith (binary32.round (1 / 2))) (settingsWith (F32.ofInt 2))
    (Value.round_ne_nan _) (Value.round_ne_nan _) [] [.process []] ws 512 (by decide) hws

/-- With a NaN as its threshold an iterator leaves its context at zero. -/
theorem inputs_depend_on_nan_threshold :
    ¬ ∀ (run : OrtRun Unit), (∀ input state sr, (run input state sr ()).1.1 ≠ .nan) →
      ∀ (s₁ s₂ : Settings) (ws : List (List F32)), (∀ w ∈ ws, w.length = 512) →
        inputs run (afterReset run (s₁.config 16000 32) []) ws
          = inputs run (afterReset run (s₂.config 16000 32) []) ws := by
  intro h
  have hinputs := h (steady (F32.ofInt 1)) (fun _ _ _ => Value.round_ne_nan 1)
    (settingsWith (binary32.round (1 / 2))) (settingsWith .nan)
    (List.replicate 2 (List.replicate 512 (F32.ofInt 1))) fun w hw => by
      rw [List.eq_of_mem_replicate hw]
      exact List.length_replicate
  have hsamples := congrArg (List.map fun input => input.1.map F32.zero.lt) hinputs
  exact absurd hsamples (by decide +kernel)

end VadIterator

end VadService
