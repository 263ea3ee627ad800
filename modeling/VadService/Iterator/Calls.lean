import VadService.Iterator.Coverage

set_option autoImplicit false

/-! # The life of an iterator

An iterator serves any sequence of `predict`, `process` and `reset` calls. Two things hold
whatever the history: the configuration and the size of the context never change, so
`reset_states` leads back to the state of the constructor (`resetStates_eq_new`). As long as
no call wraps a counter (`Fits`), the counters stay in range (`calls_range`).
-/

namespace VadService

open Machine Window

namespace VadIterator

variable {σ : Type} (run : OrtRun σ)

/-- A call of a public operation that changes the iterator. -/
inductive Call where
  | predict (dataChunk : List F32)
  | process (inputWav : List F32)
  | reset

/-- One call. -/
def call (it : VadIterator σ) : Call → VadIterator σ
  | .predict dataChunk => it.predict run dataChunk
  | .process inputWav => it.process run inputWav
  | .reset => it.reset

/-- `call` as a transducer. -/
def callStep (it : VadIterator σ) (c : Call) : Unit × VadIterator σ := ((), it.call run c)

/-- The call does not wrap the counters. -/
def Fits (it : VadIterator σ) : Call → Prop
  | .predict _ => it.currentSample + it.cfg.windowSizeSamples < 2 ^ 31
  | .process inputWav => 0 < it.cfg.windowSizeSamples ∧ (inputWav.length : ℤ) < 2 ^ 31
  | .reset => True

instance decidableFits (it : VadIterator σ) : ∀ c : Call, Decidable (it.Fits c)
  | .predict _ => inferInstanceAs (Decidable (_ < _))
  | .process _ => inferInstanceAs (Decidable (_ ∧ _))
  | .reset => inferInstanceAs (Decidable True)

/-! ## What no call changes -/

/-- The context has its size, and the configuration is `cfg`. -/
structure Shape (cfg : VadConfig) (it : VadIterator σ) : Prop where
  cfg_eq : it.cfg = cfg
  context : it.context.length = contextSamples

variable {cfg : VadConfig} {it : VadIterator σ}

theorem shape_new (session : σ) : Shape cfg (VadIterator.new cfg session) :=
  ⟨rfl, List.length_replicate⟩

theorem length_copyAt {α : Type} (dst src : List α) {pos : ℕ} (h : pos ≤ dst.length) :
    (copyAt dst pos src).length = max dst.length (pos + src.length) := by
  simp only [copyAt, List.length_append, List.length_take, List.length_drop]
  omega

theorem Shape.resetStates (h : Shape cfg it) : Shape cfg it.resetStates :=
  ⟨h.cfg_eq, List.length_replicate.trans h.context⟩

theorem Shape.predict (h : Shape cfg it) (w : List F32) : Shape cfg (it.predict run w) := by
  refine ⟨h.cfg_eq, ?_⟩
  have hctx : (copyAt (List.replicate it.cfg.effectiveWindowSize.toNat F32.zero) 0
      it.context).length = max it.cfg.effectiveWindowSize.toNat contextSamples := by
    rw [length_copyAt _ _ (Nat.zero_le _), List.length_replicate, h.context, Nat.zero_add]
  have hnew : contextSamples ≤ (it.newData w).length := by
    unfold newData
    rw [length_copyAt _ _ (by rw [hctx]; exact le_max_right _ _), hctx]
    omega
  rw [predict_context]
  -- the exit of a NaN keeps the old context
  split_ifs
  · rw [List.length_drop]
    omega
  · exact h.context

theorem Shape.final_predictStep (h : Shape cfg it) (ws : List (List F32)) :
    Shape cfg (final (predictStep run) it ws) :=
  final_inv (Shape cfg) (fun _ w h => h.predict run w) h ws

theorem Shape.processLoop (h : Shape cfg it) (x : List F32) (len fuel j : ℕ) :
    Shape cfg (processLoop run x len fuel j it) := by
  induction fuel generalizing j it with
  | zero => exact h
  | succ fuel ih =>
      unfold VadIterator.processLoop
      dsimp only
      split_ifs
      · exact h
      · exact ih (h.predict run _) _
      · exact h

theorem Shape.closeOpen (h : Shape cfg it) (len : ℤ) : Shape cfg (it.closeOpen len) := by
  unfold VadIterator.closeOpen
  split_ifs
  · exact ⟨h.cfg_eq, h.context⟩
  · exact h

theorem Shape.process (h : Shape cfg it) (x : List F32) : Shape cfg (it.process run x) :=
  (h.resetStates.processLoop run x _ _ 0).closeOpen _

theorem Shape.call (h : Shape cfg it) (c : Call) : Shape cfg (it.call run c) := by
  cases c with
  | predict w => exact h.predict run w
  | process x => exact h.process run x
  | reset => exact h.resetStates

theorem calls_shape (session : σ) (calls : List Call) :
    Shape cfg (final (callStep run) (VadIterator.new cfg session) calls) :=
  final_inv (Shape cfg) (fun _ c h => h.call run c) (shape_new session) calls

/-- **A reset forgets the history.** Only the probability of the last window survives it. -/
theorem Shape.resetStates_eq_new (h : Shape cfg it) :
    it.resetStates = { VadIterator.new cfg it.session with lastProb := it.lastProb } := by
  simp only [VadIterator.resetStates, VadIterator.new, h.cfg_eq, h.context]

/-- The probability of the last window has no influence on the trigger. -/
theorem final_lastProb (it : VadIterator σ) (p : F32) (ws : List (List F32)) :
    (final (predictStep run) { it with lastProb := p } ws).toTrigger
      = (final (predictStep run) it ws).toTrigger := by
  cases ws with
  | nil => rfl
  | cons w ws => rfl

/-! ## Counters in range -/

theorem range_closeOpen (h : it.Range) (len : ℤ) : (it.closeOpen len).Range := by
  unfold VadIterator.closeOpen
  split_ifs
  · exact ⟨h.sample_nonneg, by simp, by simp⟩
  · exact h

/-- The counters are in range after calls that do not wrap them. -/
theorem calls_range (hW : 0 ≤ cfg.windowSizeSamples) (session : σ) (calls : List Call)
    (hfits : Along (callStep run) Fits (VadIterator.new cfg session) calls) :
    (final (callStep run) (VadIterator.new cfg session) calls).Range := by
  have hinv := hfits.final_inv (fun it => Shape cfg it ∧ it.Range) ?_
    ⟨shape_new session, Trigger.range_init⟩
  · exact hinv.2
  intro it c ⟨hs, hr⟩ hf
  refine ⟨hs.call run c, ?_⟩
  have hW' : 0 ≤ it.cfg.windowSizeSamples := hs.cfg_eq ▸ hW
  cases c with
  | predict w =>
      show (it.predict run w).Range
      rw [predict_toTrigger]
      exact hr.next hW' (Trigger.step_next WordArith.bits32_exactBelow hW' hr hf)
  | process x =>
      obtain ⟨hrun, -⟩ := it.processRun_range run hf.1 hf.2
      show (it.process run x).Range
      rw [process_eq run it hf.1 hf.2]
      exact range_closeOpen hrun x.length
  | reset => exact Trigger.range_init

end VadIterator

end VadService
