import VadService.Engine.Stream

set_option autoImplicit false

/-! # The state an engine reports for a packet

A packet may complete any number of windows, but `process_frame` reports one state for it.
That state depends on the trigger flag before the packet and on the flags after each of its
windows only; `reported` is its closed form, and `processFrame_state` the proof that the
loop computes it.
-/

namespace VadService

open Machine

namespace SileroVadEngine

/-- The flag after the last window, or before the packet if there is none. -/
def lastFlag (was : Bool) (bs : List Bool) : Bool := bs.getLastD was

/-- The flag before the last window; a packet without windows counts as unchanged. -/
def beforeLast : Bool → List Bool → Bool
  | was, [] => was
  | was, [_] => was
  | _, b :: c :: bs => beforeLast b (c :: bs)

/-- The flag was up after some window. -/
def someFlag (bs : List Bool) : Bool := bs.any id

/-- The state reported for a packet, by the flag before it and the flags after its windows. -/
def reported (was : Bool) (bs : List Bool) : VadState :=
  if lastFlag was bs then if beforeLast was bs then .speaking else .startSpeaking
  else if was || someFlag bs then .endSpeaking
  else .silence

/-- The loop's last word on a silent packet. -/
def settle (state : VadState) (isTriggered : Bool) : VadState :=
  if state = .silence ∧ isTriggered = true then .speaking else state

@[simp] theorem lastFlag_cons (was b : Bool) (bs : List Bool) :
    lastFlag was (b :: bs) = lastFlag b bs := by
  cases bs <;> rfl

/-- The state kept while the loop runs: with the flag up it tells how the last window left
it, with the flag down whether a segment has ended. -/
theorem edgeStates_eq (state : VadState) (was : Bool) (bs : List Bool) :
    edgeStates state was bs =
      if bs = [] then state
      else if lastFlag was bs then if beforeLast was bs then .speaking else .startSpeaking
      else if was || someFlag bs then .endSpeaking
      else state := by
  induction bs generalizing state was with
  | nil => rfl
  | cons b bs ih =>
      rw [edgeStates, ih]
      cases bs with
      | nil => cases was <;> cases b <;> rfl
      | cons c bs =>
          have hany : someFlag (b :: c :: bs) = (b || someFlag (c :: bs)) := rfl
          have hbefore : beforeLast was (b :: c :: bs) = beforeLast b (c :: bs) := rfl
          rw [if_neg (List.cons_ne_nil c bs), if_neg (List.cons_ne_nil b (c :: bs)), hbefore,
            hany, lastFlag_cons was b (c :: bs)]
          -- only the window that drops the flag for good changes the state from here on
          cases lastFlag b (c :: bs) with
          | true => rfl
          | false => cases was <;> cases b <;> cases someFlag (c :: bs) <;> rfl

/-- **The state reported for a packet.** -/
theorem settle_edgeStates (was : Bool) (bs : List Bool) :
    settle (edgeStates .silence was bs) (lastFlag was bs) = reported was bs := by
  rw [edgeStates_eq]
  cases bs with
  | nil => cases was <;> rfl
  | cons b bs =>
      rw [if_neg (List.cons_ne_nil b bs), settle, reported]
      cases lastFlag was (b :: bs) with
      | true => cases beforeLast was (b :: bs) <;> rfl
      | false => cases (was || someFlag (b :: bs)) <;> rfl

variable {σ : Type} {run : OrtRun σ}

/-- The flag of an iterator after its last window. -/
theorem lastFlag_outputs (it : VadIterator σ) (ws : List (List F32)) :
    lastFlag it.isTriggered (outputs (VadIterator.triggerStep run) it ws)
      = (final (VadIterator.predictStep run) it ws).isTriggered := by
  induction ws generalizing it with
  | nil => rfl
  | cons w ws ih =>
      rw [outputs_cons, lastFlag_cons]
      exact ih (it.predict run w)

/-- The trigger flag after a packet. -/
theorem isTriggered_processFrame (e : SileroVadEngine σ) (audioFrame : List F32) :
    (processFrame run e audioFrame).2.vadIterator.isTriggered
      = lastFlag e.vadIterator.isTriggered (flags run e audioFrame) := by
  rw [processFrame_engine, flags, lastFlag_outputs]
  rfl

/-- **`process_frame` reports the state of its trigger flags.** -/
theorem processFrame_state (e : SileroVadEngine σ) (audioFrame : List F32) :
    (processFrame run e audioFrame).1.state
      = reported e.vadIterator.isTriggered (flags run e audioFrame) := by
  have hstate : (processFrame run e audioFrame).1.state
      = settle (runFrame run e audioFrame).result.state
          (runFrame run e audioFrame).isTriggered := by
    unfold processFrame settle
    dsimp only
    cases (runFrame run e audioFrame).engine.vadIterator.getSpeechTimestamps.getLast? with
    | none => split_ifs <;> rfl
    | some stamp => split_ifs <;> rfl
  have hlast : (runFrame run e audioFrame).isTriggered
      = lastFlag e.vadIterator.isTriggered (flags run e audioFrame) := by
    rw [← isTriggered_processFrame, processFrame_engine, runFrame_eq]
  rw [hstate, hlast, runFrame_eq]
  exact settle_edgeStates _ _

end SileroVadEngine

end VadService
