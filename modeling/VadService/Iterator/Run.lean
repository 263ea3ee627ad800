import VadService.Iterator.Next
import VadService.Lib.Machine
import VadService.Lib.Window

set_option autoImplicit false

/-! # Runs of the iterator

`predict` as a transducer that answers each window with its probability. A run of the
iterator drives a run of the trigger over these probabilities (`final_predictStep`), and
`process` is such a run over the windows of the recording, from the reset state
(`process_eq`). `Trigger.run_induction` is the induction rule for the trigger: what every
move preserves, with the probabilities seen so far in view, every run preserves.
-/

namespace VadService

open Machine Window

/-! ## Runs of the trigger -/

namespace Trigger

variable {a : WordArith} {c : VadConfig} {t t' : Trigger} {prob : F32}

theorem Next.currentSample (h : Next a c t prob t') : t'.currentSample = t.nextSample c := by
  cases h <;> rfl

variable {B : ℤ}

/-- The counters of a run that stays below the bound. -/
theorem run_range (ha : a.ExactBelow B) (hW : 0 ≤ c.windowSizeSamples) (ht : Range t)
    (probs : List F32) (hB : t.currentSample + probs.length * c.windowSizeSamples < B) :
    Range (final (step a c) t probs) ∧
      (final (step a c) t probs).currentSample
        = t.currentSample + probs.length * c.windowSizeSamples := by
  induction probs generalizing t with
  | nil => simpa using ht
  | cons p ps ih =>
      have hlen : ((p :: ps).length : ℤ) * c.windowSizeSamples
          = c.windowSizeSamples + ps.length * c.windowSizeSamples := by
        push_cast [List.length_cons]
        ring
      have hps : 0 ≤ (ps.length : ℤ) * c.windowSizeSamples := mul_nonneg (by omega) hW
      have hlt : t.nextSample c < B := by
        unfold nextSample
        omega
      have hn : Next a c t p _ := step_next ha hW ht hlt
      have hcur := hn.currentSample
      have hnext : t.nextSample c = t.currentSample + c.windowSizeSamples := rfl
      obtain ⟨h1, h2⟩ := ih (ht.next hW hn) (by omega)
      exact ⟨h1, by rw [final_cons, h2]; omega⟩

/-- **The induction rule for runs of the trigger.** -/
theorem run_induction (ha : a.ExactBelow B) (hW : 0 ≤ c.windowSizeSamples)
    {P : List F32 → Trigger → Prop} (ht : Range t) (h0 : P [] t)
    (hstep : ∀ ps p, Range (final (step a c) t ps) →
      (final (step a c) t ps).currentSample
        = t.currentSample + ps.length * c.windowSizeSamples →
      P ps (final (step a c) t ps) →
      Next a c (final (step a c) t ps) p (final (step a c) t (ps ++ [p])) →
      P (ps ++ [p]) (final (step a c) t (ps ++ [p])))
    (probs : List F32) (hB : t.currentSample + probs.length * c.windowSizeSamples < B) :
    P probs (final (step a c) t probs) := by
  induction probs using List.reverseRecOn with
  | nil => exact h0
  | append_singleton ps p ih =>
      have hlen : ((ps ++ [p]).length : ℤ) * c.windowSizeSamples
          = ps.length * c.windowSizeSamples + c.windowSizeSamples := by
        push_cast [List.length_append, List.length_singleton]
        ring
      obtain ⟨hr, hcur⟩ := run_range ha hW ht ps (by omega)
      have hlt : (final (step a c) t ps).nextSample c < B := by
        unfold nextSample
        omega
      have hnext := hstep ps p hr hcur (ih (by omega))
      rw [final_append] at hnext ⊢
      exact hnext (step_next ha hW hr hlt)

/-- The trigger flags after each window of a run. -/
def flags (c : VadConfig) (t : Trigger) : List F32 → List Bool
  | [] => []
  | p :: ps => (t.step WordArith.bits32 c p).2.triggered ::
      flags c (t.step WordArith.bits32 c p).2 ps

end Trigger

/-! ## Runs of the iterator -/

namespace VadIterator

variable {σ : Type} (run : OrtRun σ)

/-- `predict`, answering with the probability it stores. -/
def predictStep (it : VadIterator σ) (dataChunk : List F32) : F32 × VadIterator σ :=
  ((it.predict run dataChunk).getLastProbability, it.predict run dataChunk)

@[simp] theorem predict_cfg (it : VadIterator σ) (w : List F32) :
    (it.predict run w).cfg = it.cfg := rfl

theorem predict_toTrigger (it : VadIterator σ) (w : List F32) :
    (it.predict run w).toTrigger
      = (it.toTrigger.step WordArith.bits32 it.cfg (it.predict run w).getLastProbability).2 := rfl

theorem predict_context (it : VadIterator σ) (w : List F32) :
    (it.predict run w).context
      = if (it.toTrigger.step WordArith.bits32 it.cfg
            (it.predict run w).getLastProbability).1 then
          (it.newData w).drop ((it.newData w).length - contextSamples)
        else it.context := rfl

@[simp] theorem resetStates_cfg (it : VadIterator σ) : it.resetStates.cfg = it.cfg := rfl

@[simp] theorem resetStates_toTrigger (it : VadIterator σ) : it.resetStates.toTrigger = {} := rfl

theorem final_predictStep_cfg (it : VadIterator σ) (ws : List (List F32)) :
    (final (predictStep run) it ws).cfg = it.cfg :=
  final_inv (fun it' : VadIterator σ => it'.cfg = it.cfg)
    (fun s w h => (predict_cfg run s w).trans h) rfl ws

/-- **The trigger runs over the probabilities of the windows.** -/
theorem final_predictStep (it : VadIterator σ) (ws : List (List F32)) :
    (final (predictStep run) it ws).toTrigger
      = final (Trigger.step WordArith.bits32 it.cfg) it.toTrigger
          (outputs (predictStep run) it ws) := by
  induction ws generalizing it with
  | nil => rfl
  | cons w ws ih =>
      rw [final_cons, outputs_cons, final_cons, ih]
      rfl

/-- `predict`, answering with the trigger flag. -/
def triggerStep (it : VadIterator σ) (dataChunk : List F32) : Bool × VadIterator σ :=
  ((it.predict run dataChunk).isTriggered, it.predict run dataChunk)

theorem outputs_triggerStep (it : VadIterator σ) (ws : List (List F32)) :
    outputs (triggerStep run) it ws
      = it.toTrigger.flags it.cfg (outputs (predictStep run) it ws) := by
  induction ws generalizing it with
  | nil => rfl
  | cons w ws ih =>
      rw [outputs_cons, outputs_cons, Trigger.flags]
      exact congrArg _ (ih (it.predict run w))

/-! ## A model with a script -/

/-- A model that returns the probabilities of a script, whatever the audio. With it every
sequence of probabilities is the sequence of a run. -/
def scripted : OrtRun (List F32) :=
  fun _ state _ script => ((script.headD F32.zero, state), script.tail)

theorem outputs_scripted (it : VadIterator (List F32)) (ws : List (List F32))
    (h : ws.length ≤ it.session.length) :
    outputs (predictStep scripted) it ws = it.session.take ws.length := by
  induction ws generalizing it with
  | nil => rfl
  | cons w ws ih =>
      cases hs : it.session with
      | nil => simp [hs] at h
      | cons p ps =>
          have hsession : (it.predict scripted w).session = ps := by
            show it.session.tail = ps
            rw [hs, List.tail_cons]
          have hprob : (predictStep scripted it w).1 = p := by
            show it.session.headD F32.zero = p
            rw [hs, List.headD_cons]
          have hih := ih (it.predict scripted w) (by
            rw [hsession]
            simpa [hs] using h)
          rw [outputs_cons, hprob, List.length_cons, List.take_succ_cons, ← hsession]
          exact congrArg (p :: ·) hih

/-- The trigger of a scripted run. -/
theorem final_scripted (it : VadIterator (List F32)) (ws : List (List F32))
    (h : ws.length ≤ it.session.length) :
    (final (predictStep scripted) it ws).toTrigger
      = final (Trigger.step WordArith.bits32 it.cfg) it.toTrigger
          (it.session.take ws.length) := by
  rw [final_predictStep, outputs_scripted it ws h]

/-- A scripted run uses up its script. -/
theorem final_scripted_session (it : VadIterator (List F32)) (ws : List (List F32)) :
    (final (predictStep scripted) it ws).session = it.session.drop ws.length := by
  induction ws generalizing it with
  | nil => rfl
  | cons w ws ih =>
      rw [final_cons, List.length_cons, ← List.drop_tail]
      exact ih (it.predict scripted w)

/-- A window of silence at 16 kHz. -/
def silentWindow : List F32 := List.replicate 512 F32.zero

/-- Eight high windows, five low ones and eight high ones: a segment, and another that stays
open. -/
def twoBursts : List F32 :=
  List.replicate 8 (F32.ofInt 1) ++ List.replicate 5 F32.zero ++ List.replicate 8 (F32.ofInt 1)

/-! ## `process` as a run -/

theorem processLoop_eq {len : ℕ} {x : List F32} (hlen : len = x.length) (fuel j : ℕ)
    (it : VadIterator σ) (hW : 0 < it.cfg.windowSizeSamples) (hj : j ≤ len)
    (hfuel : len ≤ j + fuel) :
    processLoop run x len fuel j it
      = final (predictStep run) it (windows it.cfg.windowSizeSamples.toNat (x.drop j)) := by
  induction fuel generalizing j it with
  | zero =>
      -- the rounds suffice, so the recording is used up
      have hd : x.drop j = [] := List.drop_eq_nil_of_le (by omega)
      simp [processLoop, hd, windows]
  | succ fuel ih =>
      have hw : 0 < it.cfg.windowSizeSamples.toNat := by omega
      have hdl : (x.drop j).length = len - j := by rw [List.length_drop, hlen]
      unfold processLoop
      dsimp only
      by_cases hfull : j + it.cfg.windowSizeSamples.toNat ≤ len
      · have hih := ih (j + it.cfg.windowSizeSamples.toNat)
          (it.predict run ((x.drop j).take it.cfg.windowSizeSamples.toNat)) hW hfull (by omega)
        rw [if_pos (by omega), if_neg (by omega), windows_cons hw (by omega), final_cons,
          List.drop_drop, hih]
        rfl
      · have hnil : windows it.cfg.windowSizeSamples.toNat (x.drop j) = [] :=
          windows_of_lt (by omega)
        rw [hnil, final_nil]
        -- the loop is left by its `break`, or at the end of the recording
        by_cases hend : j < len
        · rw [if_pos hend, if_pos (by omega)]
        · rw [if_neg hend]

/-- The state before the end-of-audio flush. -/
def processRun (it : VadIterator σ) (x : List F32) : VadIterator σ :=
  final (predictStep run) it.resetStates (windows it.cfg.windowSizeSamples.toNat x)

/-- The probabilities the model returns during `process`, one for each full window. -/
def processProbs (it : VadIterator σ) (x : List F32) : List F32 :=
  outputs (predictStep run) it.resetStates (windows it.cfg.windowSizeSamples.toNat x)

theorem length_processProbs (it : VadIterator σ) (x : List F32) :
    (it.processProbs run x).length = x.length / it.cfg.windowSizeSamples.toNat := by
  rw [processProbs, length_outputs, length_windows]

/-- The probabilities of a recording under a script. -/
theorem processProbs_scripted (it : VadIterator (List F32)) (x : List F32)
    (h : x.length / it.cfg.windowSizeSamples.toNat ≤ it.session.length) :
    it.processProbs scripted x
      = it.session.take (x.length / it.cfg.windowSizeSamples.toNat) := by
  rw [processProbs, outputs_scripted _ _ (by rw [length_windows]; exact h), length_windows]
  rfl

/-- Those of a silent recording with as many windows as the script has probabilities. -/
theorem processProbs_silence {cfg : VadConfig} {script : List F32} {n : ℕ}
    (hn : n / cfg.windowSizeSamples.toNat = script.length) :
    (new cfg script).processProbs scripted (List.replicate n F32.zero) = script := by
  have hlen : (List.replicate n F32.zero).length = n := List.length_replicate
  rw [processProbs_scripted _ _ (by rw [hlen]; exact hn.le), hlen]
  exact (congrArg script.take hn).trans List.take_length

theorem processRun_toTrigger (it : VadIterator σ) (x : List F32) :
    (it.processRun run x).toTrigger
      = final (Trigger.step WordArith.bits32 it.cfg) {} (it.processProbs run x) := by
  rw [processRun, final_predictStep, resetStates_toTrigger, resetStates_cfg]
  rfl

/-- The windows of a recording stay within the recording. -/
theorem length_processProbs_mul_le (it : VadIterator σ) (x : List F32)
    (hW : 0 < it.cfg.windowSizeSamples) :
    ((it.processProbs run x).length : ℤ) * it.cfg.windowSizeSamples ≤ x.length := by
  rw [length_processProbs]
  have h := Nat.div_mul_le_self x.length it.cfg.windowSizeSamples.toNat
  have hw : (it.cfg.windowSizeSamples.toNat : ℤ) = it.cfg.windowSizeSamples :=
    Int.toNat_of_nonneg hW.le
  calc ((x.length / it.cfg.windowSizeSamples.toNat : ℕ) : ℤ) * it.cfg.windowSizeSamples
      = ((x.length / it.cfg.windowSizeSamples.toNat * it.cfg.windowSizeSamples.toNat : ℕ) : ℤ) := by
        push_cast
        rw [hw]
    _ ≤ x.length := by exact_mod_cast h

/-- **`process` runs over the windows of the recording, from the reset state**, then closes
the segment that is still open. -/
theorem process_eq (it : VadIterator σ) {x : List F32} (hW : 0 < it.cfg.windowSizeSamples)
    (hx : (x.length : ℤ) < 2 ^ 31) :
    it.process run x = (it.processRun run x).closeOpen x.length := by
  have hlen : WordArith.bits32.toSigned x.length = x.length :=
    WordArith.bits32_exactBelow.toSigned _ (by omega) hx
  have hloop := processLoop_eq run (rfl : x.length = x.length) x.length 0 it.resetStates hW
    (by omega) (by omega)
  rw [List.drop_zero, resetStates_cfg] at hloop
  unfold process
  simp only [hlen, Int.toNat_natCast, hloop]
  rfl

/-- The samples of a recording that `process` counts: as many as its length, as an `int`,
says. A recording of fewer than `2^31` samples is counted in full. -/
def counted (x : List F32) : List F32 := x.take (WordArith.bits32.toSigned x.length).toNat

theorem length_counted {x : List F32} (hx : 0 ≤ WordArith.bits32.toSigned x.length) :
    ((counted x).length : ℤ) = WordArith.bits32.toSigned x.length ∧
      WordArith.bits32.toSigned x.length < 2 ^ 31 := by
  have hle : WordArith.bits32.toSigned x.length ≤ x.length ∧
      WordArith.bits32.toSigned x.length < 2 ^ 31 := by
    simp only [WordArith.bits32] at hx ⊢
    omega
  refine ⟨?_, hle.2⟩
  rw [counted, List.length_take]
  omega

/-- The loop looks at no sample after the length it is given. -/
theorem processLoop_take (x : List F32) (len fuel j : ℕ) (it : VadIterator σ) :
    processLoop run (x.take len) len fuel j it = processLoop run x len fuel j it := by
  induction fuel generalizing j it with
  | zero => rfl
  | succ fuel ih =>
      unfold processLoop
      dsimp only
      by_cases hj : j < len
      · by_cases hw : j + it.cfg.windowSizeSamples.toNat > len
        · rw [if_pos hj, if_pos hj, if_pos hw, if_pos hw]
        · have hchunk : ((x.take len).drop j).take it.cfg.windowSizeSamples.toNat
              = (x.drop j).take it.cfg.windowSizeSamples.toNat := by
            rw [List.drop_take, List.take_take, min_eq_left (by omega)]
          rw [if_pos hj, if_pos hj, if_neg hw, if_neg hw, hchunk, ih]
      · rw [if_neg hj, if_neg hj]

/-- **`process` runs over the samples it counts.** A negative length is left out: there the
program reads past the end of the recording. -/
theorem process_counted (it : VadIterator σ) {x : List F32}
    (hx : 0 ≤ WordArith.bits32.toSigned x.length) :
    it.process run x = it.process run (counted x) := by
  obtain ⟨hlen, hlt⟩ := length_counted hx
  have hsigned : WordArith.bits32.toSigned (counted x).length
      = WordArith.bits32.toSigned x.length := by
    rw [WordArith.bits32_exactBelow.toSigned _ (by omega) (by omega), hlen]
  unfold process
  rw [hsigned]
  dsimp only
  rw [counted, processLoop_take]

end VadIterator

end VadService
