import VadService.Session.Segment
import VadService.Iterator.Unlimited

set_option autoImplicit false

/-! # What one call reports

Two exact accounts of the answer to a packet. For a packet of any length, the state
`process_frame` reports is a function of the trigger flags before the call and after each
of its windows (`Reports`). For packets of at most one window, as the clients send them,
nothing is merged: every edge of the trigger and every recorded segment shows in the
answer to its own packet (`Exact`).
-/

namespace VadService

open Machine Window SileroVadEngine

/-! ## Packets of any length -/

namespace SileroVadEngine

/-- The state reported for a call, by the flags `ts`: the one before the call and those after
each of its `n` windows. -/
structure Reports (n : ℕ) (ts : List Bool) (state : VadState) : Prop where
  silence : state = .silence ↔ ∀ t ∈ ts, t = false
  endSpeaking : state = .endSpeaking ↔ ts[n]? = some false ∧ true ∈ ts
  startSpeaking : state = .startSpeaking ↔
    1 ≤ n ∧ ts[n]? = some true ∧ ts[n - 1]? = some false
  speaking : state = .speaking ↔
    ¬ (∀ t ∈ ts, t = false) ∧ ¬ (ts[n]? = some false ∧ true ∈ ts) ∧
      ¬ (1 ≤ n ∧ ts[n]? = some true ∧ ts[n - 1]? = some false)

theorem getElem?_lastFlag (was : Bool) (bs : List Bool) :
    (was :: bs)[bs.length]? = some (lastFlag was bs) := by
  induction bs generalizing was with
  | nil => rfl
  | cons b bs ih => rw [List.length_cons, List.getElem?_cons_succ, lastFlag_cons, ih]

theorem getElem?_beforeLast (was : Bool) (bs : List Bool) :
    (was :: bs)[bs.length - 1]? = some (beforeLast was bs) := by
  induction bs generalizing was with
  | nil => rfl
  | cons b bs ih =>
      cases bs with
      | nil => rfl
      | cons c bs => exact ih b

/-- With no window the flag before the last window is the last flag. -/
theorem beforeLast_of_length {was : Bool} {bs : List Bool} (h : ¬ 1 ≤ bs.length) :
    beforeLast was bs = lastFlag was bs := by
  have hnil : bs = [] := List.length_eq_zero_iff.mp (by omega)
  rw [hnil]
  rfl

theorem someFlag_iff (was : Bool) (bs : List Bool) :
    (was || someFlag bs) = true ↔ true ∈ was :: bs := by
  rw [Bool.or_eq_true, List.mem_cons, someFlag, List.any_eq_true]
  constructor
  · rintro (h | ⟨b, hb, h⟩)
    · exact Or.inl h.symm
    · exact Or.inr (h ▸ hb)
  · rintro (h | h)
    · exact Or.inl h.symm
    · exact Or.inr ⟨true, h, rfl⟩

/-- No flag is up. -/
theorem quiet_iff (was : Bool) (bs : List Bool) :
    (∀ t ∈ was :: bs, t = false) ↔ (was || someFlag bs) = false := by
  rw [← Bool.not_eq_true, someFlag_iff]
  constructor
  · intro h ht
    exact absurd (h true ht) (by decide)
  · intro h t ht
    cases t with
    | false => rfl
    | true => exact absurd ht h

/-- The flag is down in the end, and was up. -/
theorem ended_iff (was : Bool) (bs : List Bool) :
    (was :: bs)[bs.length]? = some false ∧ true ∈ was :: bs ↔
      lastFlag was bs = false ∧ (was || someFlag bs) = true := by
  rw [getElem?_lastFlag, someFlag_iff, Option.some.injEq]

/-- The last window raised the flag. -/
theorem started_iff (was : Bool) (bs : List Bool) :
    1 ≤ bs.length ∧ (was :: bs)[bs.length]? = some true ∧
        (was :: bs)[bs.length - 1]? = some false ↔
      lastFlag was bs = true ∧ beforeLast was bs = false := by
  rw [getElem?_lastFlag, getElem?_beforeLast, Option.some.injEq, Option.some.injEq]
  constructor
  · exact fun h => h.2
  · intro h
    refine ⟨?_, h⟩
    by_contra hnone
    rw [beforeLast_of_length hnone, h.1] at h
    exact absurd h.2 (by decide)

/-- **The closed form reports the edges.** -/
theorem reports_reported (was : Bool) (bs : List Bool) :
    Reports bs.length (was :: bs) (reported was bs) := by
  have hup : lastFlag was bs = true → (was || someFlag bs) = true := by
    intro h
    rw [someFlag_iff, ← h]
    exact List.mem_of_getElem? (getElem?_lastFlag was bs)
  rw [reported]
  -- the last flag, the one before it and whether any is up decide everything
  refine ⟨?_, ?_, ?_, ?_⟩ <;>
    simp only [quiet_iff, ended_iff, started_iff] <;>
    revert hup <;>
    generalize lastFlag was bs = l, beforeLast was bs = b, (was || someFlag bs) = o <;>
    revert l b o <;> decide

variable {σ : Type}

/-- **Every call reports the edges of its windows.** -/
theorem reports_processFrame (run : OrtRun σ) (e : SileroVadEngine σ) (audioFrame : List F32) :
    Reports (e.handed run audioFrame).length
      (e.vadIterator.isTriggered ::
        outputs (VadIterator.triggerStep run) e.vadIterator (e.handed run audioFrame))
      (processFrame run e audioFrame).1.state := by
  have h := reports_reported e.vadIterator.isTriggered (flags run e audioFrame)
  rw [← processFrame_state, flags, length_outputs] at h
  rw [handed_eq]
  exact h

end SileroVadEngine

namespace Session

variable {H σ : Type}

theorem inSync_run (run : OrtRun σ) (id : String) (hdl : H) (session : σ)
    (packets : List (List UInt8 × ℕ)) :
    (final (audioStep (engine run)) (silero id hdl session) packets).InSync :=
  final_inv InSync (fun _ p hs => inSync_processAudio hs p.1 p.2)
    (inSync_silero id hdl session) packets

/-- **The result of a call of any length**, whatever the engine has done before; and the
session remembers `SPEAKING` exactly while the iterator is triggered. -/
theorem call_result (run : OrtRun σ) :
    (∀ (e : SileroVadEngine σ) (audioFrame : List F32),
      Reports (e.handed run audioFrame).length
        (e.vadIterator.isTriggered ::
          outputs (VadIterator.triggerStep run) e.vadIterator (e.handed run audioFrame))
        (processFrame run e audioFrame).1.state) ∧
    ∀ (id : String) (hdl : H) (session : σ) (packets : List (List UInt8 × ℕ)),
      (final (audioStep (engine run)) (silero id hdl session) packets).lastState = .speaking ↔
        (final (audioStep (engine run)) (silero id hdl session) packets).triggered = true := by
  refine ⟨reports_processFrame run, ?_⟩
  intro id hdl session packets
  rw [inSync_run run id hdl session packets]
  cases (final (audioStep (engine run)) (silero id hdl session) packets).triggered <;> decide

/-! ## Packets of at most one window -/

/-- The packet holds whole samples, and no more than a window of them. -/
def OneWindow (packet : List UInt8 × ℕ) : Prop :=
  Even packet.1.length ∧ packet.1.length / 2 ≤ 512

/-- Nothing is merged in the answer to a packet: it predicts at most one window, and its
state tells the edge of the trigger and whether a segment was recorded. -/
structure Exact (run : OrtRun σ) (s : Session (SileroVadEngine σ) H)
    (packet : List UInt8 × ℕ) : Prop where
  oneWindow : (s.vadEngine.handed run (toFloatAudio packet.1)).length ≤ 1
  begins : (audioStep (engine run) s packet).1.vadState = "VAD_BEGIN" ↔
    s.triggered = false ∧ (audioStep (engine run) s packet).2.triggered = true
  ends : (audioStep (engine run) s packet).1.vadState = "VAD_END" ↔
    s.triggered = true ∧ (audioStep (engine run) s packet).2.triggered = false
  recorded : (audioStep (engine run) s packet).1.vadState = "VAD_END" →
    ∃ segment, (audioStep (engine run) s packet).2.trigger.speeches
      = s.trigger.speeches ++ [segment]
  kept : (audioStep (engine run) s packet).1.vadState ≠ "VAD_END" →
    (audioStep (engine run) s packet).2.trigger.speeches = s.trigger.speeches
  speaking : (audioStep (engine run) s packet).1.vadState = "SPEAKING" ↔
    (audioStep (engine run) s packet).2.triggered = true ∧
      (audioStep (engine run) s packet).1.vadState ≠ "VAD_BEGIN"
  silence : (audioStep (engine run) s packet).1.vadState = "SILENCE" ↔
    (audioStep (engine run) s packet).1.vadState ≠ "VAD_BEGIN" ∧
      (audioStep (engine run) s packet).1.vadState ≠ "VAD_END" ∧
      (audioStep (engine run) s packet).1.vadState ≠ "SPEAKING"

/-- What holds between the packets of a session with the default engine. -/
structure Regular (s : Session (SileroVadEngine σ) H) : Prop where
  sync : s.InSync
  settled : s.vadEngine.Settled
  windowSize : s.vadEngine.windowSizeSamples = 512
  maxSpeech : s.vadEngine.vadIterator.cfg.maxSpeechSamples = F32.infinity

theorem regular_silero (id : String) (hdl : H) (session : σ) :
    (silero id hdl session).Regular where
  sync := rfl
  settled := settled_new session 16000 32 (by decide)
  windowSize := rfl
  maxSpeech := VadIterator.maxSpeechSamples_new (by decide) (by decide) (by decide)

variable {run : OrtRun σ} {s : Session (SileroVadEngine σ) H} {packet : List UInt8 × ℕ}

/-- Any packet keeps the session regular. -/
theorem Regular.step (h : Regular s) (packet : List UInt8 × ℕ) :
    Regular (audioStep (engine run) s packet).2 := by
  have hengine := vadEngine_audioStep run s packet
  refine ⟨inSync_processAudio h.sync _ _, ?_, ?_, ?_⟩
  · rw [hengine]
    exact settled_consume run _
  · rw [hengine]
    exact h.windowSize
  · rw [hengine]
    exact (congrArg VadConfig.maxSpeechSamples
      (VadIterator.final_predictStep_cfg run _ _)).trans h.maxSpeech

theorem regular_run (run : OrtRun σ) (id : String) (hdl : H) (session : σ)
    (packets : List (List UInt8 × ℕ)) :
    (final (audioStep (engine run)) (silero id hdl session) packets).Regular :=
  final_inv Regular (fun _ p hs => hs.step p) (regular_silero id hdl session) packets

/-- A packet of at most one window completes at most one. -/
theorem Regular.packetProbs_le_one (run : OrtRun σ) (h : Regular s)
    (hone : packet.1.length / 2 ≤ 512) : (s.packetProbs run packet.1).length ≤ 1 := by
  have hsettled : s.vadEngine.buffer.length < s.vadEngine.windowSizeSamples := h.settled
  rw [h.windowSize] at hsettled
  rw [length_packetProbs, h.windowSize]
  omega

/-- The flags after the windows of the packet are those of the session after it, if there is
a window. -/
theorem Regular.packetFlags_eq (run : OrtRun σ) (h : Regular s)
    (hone : packet.1.length / 2 ≤ 512) :
    (s.packetFlags run packet.1 = [] ∧
        (audioStep (engine run) s packet).2.trigger = s.trigger) ∨
      ∃ p, s.packetFlags run packet.1 = [(audioStep (engine run) s packet).2.triggered] ∧
        (audioStep (engine run) s packet).2.trigger
          = (s.trigger.step WordArith.bits32 s.vadEngine.vadIterator.cfg p).2 := by
  have hlen := h.packetProbs_le_one run hone
  have htrig := @trigger_processAudio _ _ run s packet
  have hlast := @triggered_processAudio _ _ run s packet.1 packet.2
  rw [packetFlags] at hlast ⊢
  cases hps : s.packetProbs run packet.1 with
  | nil =>
      rw [hps] at htrig
      exact Or.inl ⟨rfl, htrig⟩
  | cons p ps =>
      have hnil : ps = [] := by
        rw [hps, List.length_cons] at hlen
        exact List.length_eq_zero_iff.mp (by omega)
      subst hnil
      rw [hps] at htrig hlast
      refine Or.inr ⟨p, ?_, htrig⟩
      exact congrArg (fun b => [b]) hlast.symm

/-- The answer to the packet, by the flag before and after it. -/
def edgeAnswer : Bool → Bool → VadState
  | false, false => .silence
  | false, true => .startSpeaking
  | true, true => .speaking
  | true, false => .endSpeaking

theorem Regular.answered_eq (h : Regular s) (hone : packet.1.length / 2 ≤ 512) :
    s.answered (engine run) packet.1
      = edgeAnswer s.triggered (audioStep (engine run) s packet).2.triggered := by
  rw [Session.answered_eq h.sync]
  rcases h.packetFlags_eq run hone with ⟨hflags, htrig⟩ | ⟨p, hflags, -⟩
  · -- without a window the flag stays
    have hsame : (audioStep (engine run) s packet).2.triggered = s.triggered :=
      congrArg Trigger.triggered htrig
    rw [hflags, hsame]
    cases s.triggered <;> rfl
  · rw [hflags]
    cases s.triggered <;> cases (audioStep (engine run) s packet).2.triggered <;> rfl

/-- A segment is recorded exactly when the flag falls. -/
theorem Regular.speeches (run : OrtRun σ) (h : Regular s)
    (hone : packet.1.length / 2 ≤ 512) :
    (s.triggered = true ∧ (audioStep (engine run) s packet).2.triggered = false ∧
        ∃ segment, (audioStep (engine run) s packet).2.trigger.speeches
          = s.trigger.speeches ++ [segment]) ∨
      ((s.triggered = true → (audioStep (engine run) s packet).2.triggered = true) ∧
        (audioStep (engine run) s packet).2.trigger.speeches = s.trigger.speeches) := by
  have hup : (audioStep (engine run) s packet).2.triggered
      = (audioStep (engine run) s packet).2.trigger.triggered := rfl
  rw [hup]
  rcases h.packetFlags_eq run hone with ⟨-, htrig⟩ | ⟨p, -, htrig⟩
  · rw [htrig]
    exact Or.inr ⟨fun hopen => hopen, rfl⟩
  · rw [htrig]
    exact Trigger.step_speeches h.maxSpeech WordArith.bits32 s.trigger p

/-- **One packet of a regular session is answered exactly.** -/
theorem Regular.exact (h : Regular s) (hone : packet.1.length / 2 ≤ 512) :
    Exact run s packet := by
  have hanswer := audioStep_vadState (engine run) s packet
  rw [h.answered_eq hone] at hanswer
  have hhanded : (s.vadEngine.handed run (toFloatAudio packet.1)).length ≤ 1 := by
    have hlen := h.packetProbs_le_one run hone
    rw [packetProbs, length_outputs] at hlen
    rw [handed_eq]
    exact hlen
  rcases h.speeches run hone with ⟨hwas, hnow, hrec⟩ | ⟨hstay, hkept⟩
  · -- the flag falls, and a segment is recorded
    rw [hwas, hnow] at hanswer
    have hend : (audioStep (engine run) s packet).1.vadState = "VAD_END" := hanswer
    refine ⟨hhanded, ?_, ?_, fun _ => hrec, fun hne => absurd hend hne, ?_, ?_⟩ <;>
      rw [hend] <;> simp [hwas, hnow]
  · -- the flag does not fall, and no segment is recorded
    have hne : (audioStep (engine run) s packet).1.vadState ≠ "VAD_END" := by
      rw [hanswer]
      cases hwas : s.triggered with
      | false => cases (audioStep (engine run) s packet).2.triggered <;> decide
      | true =>
          rw [hstay hwas]
          decide
    refine ⟨hhanded, ?_, ?_, fun hend => absurd hend hne, fun _ => hkept, ?_, ?_⟩ <;>
      cases hwas : s.triggered <;>
      cases hnow : (audioStep (engine run) s packet).2.triggered <;>
      simp [hwas, hnow] at hstay hanswer ⊢ <;>
      rw [hanswer] <;> decide

/-- **Small packets are answered exactly**, in every run of a session and for every
sequence of probabilities. -/
theorem packets_exact (run : OrtRun σ) (id : String) (hdl : H) (session : σ)
    (packets : List (List UInt8 × ℕ)) (packet : List UInt8 × ℕ)
    (hone : ∀ p ∈ packets ++ [packet], OneWindow p) :
    Exact run (final (audioStep (engine run)) (silero id hdl session) packets) packet :=
  (regular_run run id hdl session packets).exact (hone packet (by simp)).2

/-- The clients' packets of 320 samples, until the segment is over. -/
theorem packets_exact_client :
    Exact VadIterator.scripted
      (final (audioStep (engine VadIterator.scripted)) (silero "" () speechThenSilence)
        (List.replicate 20 (constPacket 1 640))) (constPacket 0 640) := by
  refine packets_exact VadIterator.scripted "" () speechThenSilence
    (List.replicate 20 (constPacket 1 640)) (constPacket 0 640) ?_
  intro p hp
  rcases List.mem_append.mp hp with hp | hp
  · rw [(List.mem_replicate.mp hp).2, OneWindow, length_constPacket]
    decide
  · rw [List.mem_singleton.mp hp, OneWindow, length_constPacket]
    decide

end Session

end VadService
