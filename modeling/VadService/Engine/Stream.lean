import VadService.Engine.Basic
import VadService.Iterator.Calls

set_option autoImplicit false

/-! # The engine cuts the stream into windows

However a stream is cut into packets, `process_frame` hands the windows of the whole stream
to its iterator and keeps the rest in `buffer_`. So the iterator of an engine is an iterator
that has run over the windows (`stream_eq`), and it finds the segments `process` finds in a
recording (`process_eq_stream`).
-/

namespace VadService

open Machine Window VadIterator

namespace SileroVadEngine

variable {σ : Type} (run : OrtRun σ)

/-! ## The loop -/

/-- The engine after its iterator has run over the windows in the buffer. -/
def consume (e : SileroVadEngine σ) : SileroVadEngine σ where
  vadIterator := final (predictStep run) e.vadIterator (windows e.windowSizeSamples e.buffer)
  buffer := leftover e.windowSizeSamples e.buffer
  windowSizeSamples := e.windowSizeSamples
  windowSize_eq := by rw [VadIterator.final_predictStep_cfg, e.windowSize_eq]
  windowSize_pos := e.windowSize_pos

/-- The variables of the loop agree with the iterator. -/
structure FrameLoop.InSync (s : FrameLoop σ) : Prop where
  wasTriggered : s.wasTriggered = s.engine.vadIterator.isTriggered
  isTriggered : s.isTriggered = s.engine.vadIterator.isTriggered
  probability : s.result.probability = s.engine.vadIterator.getLastProbability

theorem inSync_frameRound (s : FrameLoop σ) : (frameRound run s).InSync := ⟨rfl, rfl, rfl⟩

/-- The state reported after the trigger flags `bs`, one for each window. -/
def edgeStates : VadState → Bool → List Bool → VadState
  | state, _, [] => state
  | state, was, b :: bs => edgeStates (edgeState state was b) b bs

/-- The variables once no window is left in the buffer. -/
def FrameLoop.finish (s : FrameLoop σ) : FrameLoop σ where
  engine := s.engine.consume run
  result :=
    { s.result with
      probability := (s.engine.consume run).vadIterator.getLastProbability
      state := edgeStates s.result.state s.wasTriggered
        (outputs (triggerStep run) s.engine.vadIterator
          (windows s.engine.windowSizeSamples s.engine.buffer)) }
  wasTriggered := (s.engine.consume run).vadIterator.isTriggered
  isTriggered := (s.engine.consume run).vadIterator.isTriggered
  handed := s.handed ++ windows s.engine.windowSizeSamples s.engine.buffer

theorem consume_of_lt {e : SileroVadEngine σ} (h : e.buffer.length < e.windowSizeSamples) :
    e.consume run = e := by
  unfold consume
  simp only [windows_of_lt h, leftover_of_lt h, final_nil]

theorem consume_frameRound {s : FrameLoop σ}
    (h : s.engine.windowSizeSamples ≤ s.engine.buffer.length) :
    (frameRound run s).engine.consume run = s.engine.consume run := by
  have hW := s.engine.windowSize_pos
  unfold consume
  simp only [windows_cons hW h, leftover_cons hW h, final_cons]
  rfl

theorem FrameLoop.finish_of_lt {s : FrameLoop σ} (hs : s.InSync)
    (h : s.engine.buffer.length < s.engine.windowSizeSamples) : s.finish run = s := by
  -- no window is left, so the variables stay, and they agree with the iterator already
  obtain ⟨e, ⟨state, probability, timestamp⟩, wasTriggered, isTriggered, handed⟩ := s
  obtain ⟨h1, h2, h3⟩ := hs
  dsimp only at h h1 h2 h3
  subst h1 h2 h3
  unfold finish
  simp only [consume_of_lt run h, windows_of_lt h, outputs_nil, edgeStates, List.append_nil]

theorem FrameLoop.finish_frameRound {s : FrameLoop σ}
    (h : s.engine.windowSizeSamples ≤ s.engine.buffer.length) :
    (frameRound run s).finish run = s.finish run := by
  have hW := s.engine.windowSize_pos
  unfold finish
  simp only [consume_frameRound run h, windows_cons hW h, outputs_cons, edgeStates]
  simp [frameRound, triggerStep]

/-- **The loop runs over the windows in the buffer.** -/
theorem frameLoop_eq (fuel : ℕ) (s : FrameLoop σ) (hs : s.InSync)
    (hfuel : s.engine.buffer.length ≤ fuel) : frameLoop run fuel s = s.finish run := by
  have hW := s.engine.windowSize_pos
  induction fuel generalizing s with
  | zero => exact (FrameLoop.finish_of_lt run hs (by omega)).symm
  | succ fuel ih =>
      unfold frameLoop
      by_cases hfull : s.engine.windowSizeSamples ≤ s.engine.buffer.length
      · -- each round shortens the buffer by a window, which is not empty
        have hlen : (frameRound run s).engine.buffer.length ≤ fuel := by
          show (s.engine.buffer.drop s.engine.windowSizeSamples).length ≤ fuel
          rw [List.length_drop]
          omega
        rw [if_pos hfull, ih _ (inSync_frameRound run s) hlen hW,
          FrameLoop.finish_frameRound run hfull]
      · rw [if_neg hfull, FrameLoop.finish_of_lt run hs (by omega)]

/-! ## One packet -/

variable {run}

/-- The engine with a packet appended to its buffer. -/
def push (e : SileroVadEngine σ) (audioFrame : List F32) : SileroVadEngine σ :=
  { e with buffer := e.buffer ++ audioFrame, windowSize_eq := e.windowSize_eq }

/-- The windows that are complete once the packet has arrived. -/
def completed (e : SileroVadEngine σ) (audioFrame : List F32) : List (List F32) :=
  windows e.windowSizeSamples (e.buffer ++ audioFrame)

/-- The trigger flags after each window of the packet. -/
def flags (run : OrtRun σ) (e : SileroVadEngine σ) (audioFrame : List F32) : List Bool :=
  outputs (triggerStep run) e.vadIterator (e.completed audioFrame)

theorem runFrame_eq (e : SileroVadEngine σ) (audioFrame : List F32) :
    runFrame run e audioFrame =
      { engine := (e.push audioFrame).consume run
        result :=
          { state := edgeStates .silence e.vadIterator.isTriggered (flags run e audioFrame)
            probability := ((e.push audioFrame).consume run).vadIterator.getLastProbability
            timestamp := "" }
        wasTriggered := ((e.push audioFrame).consume run).vadIterator.isTriggered
        isTriggered := ((e.push audioFrame).consume run).vadIterator.isTriggered
        handed := e.completed audioFrame } :=
  frameLoop_eq run _ _ ⟨rfl, rfl, rfl⟩ le_rfl

/-- The windows `process_frame` hands to `predict`. -/
def handed (run : OrtRun σ) (e : SileroVadEngine σ) (audioFrame : List F32) : List (List F32) :=
  (runFrame run e audioFrame).handed

theorem handed_eq (e : SileroVadEngine σ) (audioFrame : List F32) :
    e.handed run audioFrame = e.completed audioFrame := by
  rw [handed, runFrame_eq]

theorem processFrame_engine (e : SileroVadEngine σ) (audioFrame : List F32) :
    (processFrame run e audioFrame).2 = (e.push audioFrame).consume run := by
  show (runFrame run e audioFrame).engine = _
  rw [runFrame_eq]

/-! ## A stream of packets -/

/-- The buffer holds less than a window, as it does between two calls. -/
def Settled (e : SileroVadEngine σ) : Prop := e.buffer.length < e.windowSizeSamples

theorem settled_new (session : σ) (sampleRate windowFrameMs : ℤ)
    (h : 0 < windowFrameMs * sampleRate.tdiv 1000) :
    (new session sampleRate windowFrameMs h).Settled :=
  (new session sampleRate windowFrameMs h).windowSize_pos

theorem settled_consume (run : OrtRun σ) (e : SileroVadEngine σ) : (e.consume run).Settled :=
  length_leftover_lt e.windowSize_pos e.buffer

theorem settled_processFrame (e : SileroVadEngine σ) (audioFrame : List F32) :
    (processFrame run e audioFrame).2.Settled := by
  rw [processFrame_engine]
  exact settled_consume run _

/-- What is left of the buffer is all that the next packets need of it. -/
theorem consume_push (e : SileroVadEngine σ) (x : List F32) :
    ((e.consume run).push x).consume run = (e.push x).consume run := by
  have hW := e.windowSize_pos
  have hit : final (predictStep run) (e.consume run).vadIterator
      (windows e.windowSizeSamples (leftover e.windowSizeSamples e.buffer ++ x))
      = final (predictStep run) e.vadIterator (windows e.windowSizeSamples (e.buffer ++ x)) := by
    rw [windows_append hW e.buffer x, final_append]
    rfl
  have hbuf : leftover e.windowSizeSamples (leftover e.windowSizeSamples e.buffer ++ x)
      = leftover e.windowSizeSamples (e.buffer ++ x) := (leftover_append hW e.buffer x).symm
  unfold consume at hit
  unfold consume push
  dsimp only at hit ⊢
  simp only [hit, hbuf]

/-- **Only the samples count**: the engine after a stream of packets is the engine after one
packet with all their samples. -/
theorem stream_eq (e : SileroVadEngine σ) (he : e.Settled) (frames : List (List F32)) :
    final (processFrame run) e frames = (e.push frames.flatten).consume run := by
  induction frames generalizing e with
  | nil =>
      have hpush : e.push [] = e := by
        unfold push
        simp only [List.append_nil]
      rw [final_nil, List.flatten_nil, hpush, consume_of_lt run he]
  | cons frame frames ih =>
      have happend : (e.push frame).push frames.flatten = e.push (frame :: frames).flatten := by
        unfold push
        simp only [List.flatten_cons, List.append_assoc]
      calc final (processFrame run) e (frame :: frames)
          = final (processFrame run) ((e.push frame).consume run) frames := by
            rw [final_cons, processFrame_engine]
        _ = (((e.push frame).consume run).push frames.flatten).consume run :=
            ih _ (settled_consume run _)
        _ = (e.push (frame :: frames).flatten).consume run := by
            rw [consume_push, happend]

/-- `processFrame`, answering with the windows it hands to `predict`. -/
def handedStep (run : OrtRun σ) (e : SileroVadEngine σ) (audioFrame : List F32) :
    List (List F32) × SileroVadEngine σ :=
  (e.handed run audioFrame, (processFrame run e audioFrame).2)

/-- **The windows handed over in a stream of packets are the windows of the stream.** -/
theorem handed_stream (e : SileroVadEngine σ) (he : e.Settled) (frames : List (List F32)) :
    (outputs (handedStep run) e frames).flatten
      = windows e.windowSizeSamples (e.buffer ++ frames.flatten) := by
  induction frames generalizing e with
  | nil =>
      rw [outputs_nil, List.flatten_nil, List.flatten_nil, List.append_nil, windows_of_lt he]
  | cons frame frames ih =>
      have hW := e.windowSize_pos
      have htail := ih (processFrame run e frame).2 (settled_processFrame e frame)
      rw [processFrame_engine] at htail
      calc (outputs (handedStep run) e (frame :: frames)).flatten
          = e.completed frame
              ++ (outputs (handedStep run) ((e.push frame).consume run) frames).flatten := by
            rw [outputs_cons, List.flatten_cons, handedStep, handed_eq, processFrame_engine]
        _ = e.completed frame ++ windows e.windowSizeSamples
              (leftover e.windowSizeSamples (e.buffer ++ frame) ++ frames.flatten) := by
            rw [htail]
            rfl
        _ = windows e.windowSizeSamples (e.buffer ++ (frame :: frames).flatten) := by
            rw [completed, ← windows_append hW, List.flatten_cons, List.append_assoc]

/-! ## Batch and streaming detection -/

/-- The windows of a stream of packets through a new engine. -/
theorem stream_new {run : OrtRun σ} (session : σ) {sampleRate windowFrameMs : ℤ}
    (h : 0 < windowFrameMs * sampleRate.tdiv 1000) (frames : List (List F32)) :
    (final (processFrame run) (new session sampleRate windowFrameMs h) frames).vadIterator
      = final (predictStep run)
          (VadIterator.new (VadConfig.new sampleRate windowFrameMs) session)
          (windows (windowFrameMs * sampleRate.tdiv 1000).toNat frames.flatten) := by
  rw [stream_eq _ (settled_new session sampleRate windowFrameMs h)]
  rfl

/-- **Batch and streaming detection agree.** Whatever an iterator has been used for before,
`process` finds the segments that an engine with the same parameters has recorded after any
packets with the same samples, and the one it has open up to the end of the recording. The
engine keeps the samples after the last full window. -/
theorem process_eq_stream (run : OrtRun Unit) (sampleRate windowFrameMs : ℤ)
    (h : 0 < windowFrameMs * sampleRate.tdiv 1000) (calls : List VadIterator.Call)
    (x : List F32) (hx : (x.length : ℤ) < 2 ^ 31) (frames : List (List F32))
    (hframes : frames.flatten = x) (it : VadIterator Unit)
    (hit : it = final (callStep run)
      (VadIterator.new (VadConfig.new sampleRate windowFrameMs) ()) calls)
    (e : SileroVadEngine Unit)
    (he : e = final (processFrame run) (new () sampleRate windowFrameMs h) frames) :
    (it.process run x).getSpeechTimestamps
        = e.vadIterator.getSpeechTimestamps ++
          (if e.vadIterator.isTriggered then [⟨e.vadIterator.currentSpeech.start, x.length⟩]
            else []) ∧
      e.buffer = x.drop (x.length - x.length % e.windowSizeSamples) := by
  have hshape : Shape (VadConfig.new sampleRate windowFrameMs) it :=
    hit ▸ calls_shape run () calls
  have hcfg := hshape.cfg_eq
  have hW : 0 < it.cfg.windowSizeSamples := by
    rw [hcfg]
    exact h
  -- both iterators run over the windows of `x` from the state of the constructor
  have htrig : (it.processRun run x).toTrigger = e.vadIterator.toTrigger := by
    calc (it.processRun run x).toTrigger
        = (final (predictStep run) (VadIterator.new (VadConfig.new sampleRate windowFrameMs) ())
            (windows (windowFrameMs * sampleRate.tdiv 1000).toNat x)).toTrigger := by
          rw [processRun, hshape.resetStates_eq_new, final_lastProb, hcfg]
          rfl
      _ = e.vadIterator.toTrigger := by rw [he, stream_new, hframes]
  have hbuf : e.buffer = x.drop (x.length / e.windowSizeSamples * e.windowSizeSamples) := by
    rw [he, stream_eq _ (settled_new () sampleRate windowFrameMs h), hframes]
    rfl
  constructor
  · rw [it.process_speeches run hW hx, htrig]
    rfl
  · have hdiv := Nat.div_add_mod' x.length e.windowSizeSamples
    rw [hbuf]
    congr 1
    omega

/-- A model that hears speech everywhere. -/
def speechEverywhere : OrtRun Unit := fun _ state _ session => ((F32.ofInt 1, state), session)

/-- A model that hears speech in the windows that do not end with a zero. -/
def speechAtEnd : OrtRun Unit := fun input state _ session =>
  ((if F32.zero.lt (input.getLastD F32.zero) then F32.ofInt 1 else F32.zero, state), session)

/-- Packets of 20 ms, fourteen of speech and ten of silence, and 40 ms of speech. -/
theorem process_eq_stream_packets :
    let frames := List.replicate 14 (List.replicate 320 (F32.ofInt 1))
      ++ List.replicate 10 (List.replicate 320 F32.zero)
      ++ [List.replicate 640 (F32.ofInt 1)]
    let x := frames.flatten
    let it := final (callStep speechAtEnd) (VadIterator.new (VadConfig.new 16000 32) ())
      [.reset]
    let e := final (processFrame speechAtEnd) (new () 16000 32 (by decide)) frames
    (it.process speechAtEnd x).getSpeechTimestamps = [⟨0, 4608⟩, ⟨7680, 8320⟩] ∧
      (it.process speechAtEnd x).getSpeechTimestamps
        = e.vadIterator.getSpeechTimestamps ++
          (if e.vadIterator.isTriggered then [⟨e.vadIterator.currentSpeech.start, x.length⟩]
            else []) ∧
      e.buffer = x.drop (x.length - x.length % e.windowSizeSamples) := by
  intro frames x it e
  have hx : (x.length : ℤ) < 2 ^ 31 := by
    decide +kernel
  refine ⟨?_, process_eq_stream speechAtEnd 16000 32 (by decide) [.reset] x hx frames rfl
    it rfl e rfl⟩
  rw [process_speeches speechAtEnd _ (by decide) hx]
  decide +kernel

end SileroVadEngine

end VadService
