import VadService.Go.Events

set_option autoImplicit false

/-! # The timeouts of the Go detector

With every `VoiceBegin` the detector starts a timer of 30 seconds, and with every other end of an
utterance it cancels the timer. When a timer is not cancelled in time, its goroutine sends a
`VoiceEnd` of its own. The goroutine runs beside the calls: it reads the bytes that wait, the
client takes its event, it drops the bytes that wait then, and it cancels the timer that runs
then. A call is one step here, and the steps of the goroutines come between any two calls.

A timeout leaves the detection as it is: the detector goes on within the utterance
(`timeouts_leave_detection`). What becomes of the bytes depends on what comes between the steps
of a goroutine (`sentOnce_iff_undisturbed`).
-/

namespace VadService

open Machine

namespace Go

/-- An event that the client has taken, and if a timer sent it. -/
structure Received where
  byTimer : Bool
  event : Event

/-- A detector with its timers: if the timer of `timeoutCtx` is running, how many goroutines
have not read the bytes yet although their deadline has passed, what those have read that wait
for the client, what those have sent that have to drop the bytes next, and how many have to
cancel the timer next. -/
structure TimedDetector (τ β : Type) extends Detector τ β where
  running : Bool
  expired : ℕ
  sending : List (List UInt8)
  taken : List (List UInt8)
  releasing : ℕ
  received : List Received

/-- A call, the deadline of the running timer, and the steps of a goroutine: it reads the bytes,
the client takes its event, it drops the bytes, and it cancels the running timer. -/
inductive TimedAction where
  | call (c : Call)
  | expire
  | read
  | take (k : ℕ)
  | drop (k : ℕ)
  | release

/-- The timer after an event: `startContextTimeout` or `releaseContextTimeout`. -/
def timerAfter (running : Bool) (event : Event) : Bool :=
  match event.type with
  | .voiceBegin => true
  | .voiceOngoing => running
  | .voiceEnd => false
  | .voiceSilent => false

namespace TimedDetector

variable {τ β : Type} (S : Sherpa τ) (B : FixedSizeBuffer β)

/-- A detector that has started no timer yet. -/
def start (d : Detector τ β) : TimedDetector τ β where
  toDetector := d
  running := false
  expired := 0
  sending := []
  taken := []
  releasing := 0
  received := []

/-- An action, if it is possible. -/
def step (s : TimedDetector τ β) : TimedAction → Option (TimedDetector τ β)
  | .call c =>
      let (events, d) := s.toDetector.call S B c
      some { s with
        toDetector := d
        running := events.foldl timerAfter s.running
        received := s.received ++ events.map (Received.mk false) }
  | .expire =>
      if s.running then some { s with running := false, expired := s.expired + 1 } else none
  | .read =>
      if 0 < s.expired then
        some { s with expired := s.expired - 1, sending := s.sending ++ [s.waitBuff] }
      else none
  | .take k =>
      match s.sending[k]? with
      | none => none
      | some data =>
          some { s with
            sending := s.sending.eraseIdx k
            taken := s.taken ++ [data]
            received := s.received ++ [⟨true, { type := .voiceEnd, data := data }⟩] }
  | .drop k =>
      if k < s.taken.length then
        some { s with
          waitBuff := []
          taken := s.taken.eraseIdx k
          releasing := s.releasing + 1 }
      else none
  | .release =>
      if 0 < s.releasing then
        some { s with running := false, releasing := s.releasing - 1 }
      else none

end TimedDetector

/-- The calls among the actions. -/
def callsOf (actions : List TimedAction) : List Call :=
  actions.filterMap fun
    | .call c => some c
    | _ => none

/-- The types of the events that do not depend on the bytes that wait. -/
def marks (events : List Event) : List EventType :=
  (events.map Event.type).filter (· ≠ .voiceOngoing)

/-! ## Detection does not look at the bytes that wait -/

namespace Detector

variable {τ β : Type} (S : Sherpa τ) (B : FixedSizeBuffer β)

/-- The detector, with other bytes that wait. -/
def withWait (d : Detector τ β) (waitBuff : List UInt8) : Detector τ β :=
  { d with waitBuff := waitBuff }

/-- Two answers to a call with the same marks and, up to the bytes that wait, the same detector. -/
def SameMarks (x y : List Event × Detector τ β) : Prop :=
  marks x.1 = marks y.1 ∧ ∃ waitBuff, y.2 = x.2.withWait waitBuff

theorem segmentLoop_withWait (queue : List (List F32)) (d : Detector τ β) (waitBuff : List UInt8) :
    ((segmentLoop queue d).1 = none ∧ (segmentLoop queue (d.withWait waitBuff)).1 = none ∧
      (segmentLoop queue (d.withWait waitBuff)).2 = (segmentLoop queue d).2.withWait waitBuff) ∨
    ∃ o o', (segmentLoop queue d).1 = some o ∧
      (segmentLoop queue (d.withWait waitBuff)).1 = some o' ∧
      SameMarks (o.events, (segmentLoop queue d).2)
        (o'.events, (segmentLoop queue (d.withWait waitBuff)).2) := by
  induction queue generalizing d with
  | nil => exact .inl ⟨rfl, rfl, rfl⟩
  | cons samples queue ih =>
      have hrest := ih { d with queue := queue, recognitionDuration := segmentDuration samples }
      rw [segmentLoop, segmentLoop]
      by_cases hlong : Phase.voiceBeginDuration.le (segmentDuration samples) = true
      · cases hd : d.state with
        | inactivity =>
            refine .inr ⟨{ result := false, events := [] }, { result := false, events := [] }, ?_⟩
            simp [hlong, hd, withWait, SameMarks]
        | activity =>
            refine .inr ⟨{ result := true, events := [⟨.voiceEnd, d.waitBuff⟩] },
              { result := true, events := [⟨.voiceEnd, waitBuff⟩] }, ?_⟩
            simp [hlong, hd, withWait, SameMarks, emitVoiceEnd, send, marks]
        | inactivityTransition =>
            simpa [hlong, hd, withWait] using hrest
      · simpa [hlong, withWait] using hrest

theorem inState_withWait (frameActive : Bool) (sourceBuff waitBuff : List UInt8)
    (d : Detector τ β) :
    SameMarks
      ((inState B frameActive sourceBuff d).1.events, (inState B frameActive sourceBuff d).2)
      ((inState B frameActive sourceBuff (d.withWait waitBuff)).1.events,
        (inState B frameActive sourceBuff (d.withWait waitBuff)).2) := by
  have hstate : (d.withWait waitBuff).state = d.state := rfl
  rw [inState, inState, hstate]
  cases hd : d.state with
  | inactivity =>
      dsimp only [inInactivity, withWait]
      split_ifs <;> exact ⟨rfl, waitBuff, rfl⟩
  | inactivityTransition => exact ⟨rfl, [], rfl⟩
  | activity =>
      dsimp only [inActivity, withWait, emitVoiceEnd, emitVoiceOnGoing, send]
      split_ifs
      · exact ⟨rfl, [], rfl⟩
      -- a `VoiceOngoing` depends on the bytes, but it leaves no mark
      · exact ⟨rfl, [], rfl⟩
      · exact ⟨rfl, waitBuff ++ sourceBuff, rfl⟩
      · exact ⟨rfl, [], rfl⟩
      · exact ⟨rfl, waitBuff ++ sourceBuff, rfl⟩

/-- **Detection does not look at the bytes that wait.** -/
theorem call_withWait (d : Detector τ β) (waitBuff : List UInt8) (c : Call) :
    SameMarks (d.call S B c) ((d.withWait waitBuff).call S B c) := by
  cases c with
  | forceEnd =>
      rw [call, call, forceEnd, forceEnd]
      have hstate : (d.withWait waitBuff).state = d.state := rfl
      rw [hstate]
      split_ifs
      · exact ⟨rfl, waitBuff, rfl⟩
      · exact ⟨rfl, [], rfl⟩
  | processFrame buff sourceBuff =>
      rw [call, call, processFrame_eq, processFrame_eq]
      have haccepted : (d.withWait waitBuff).accepted S buff
          = (d.accepted S buff).withWait waitBuff := rfl
      have hqueue : ((d.accepted S buff).withWait waitBuff).queue = (d.accepted S buff).queue := rfl
      have hhears : (d.withWait waitBuff).hears S buff = d.hears S buff := rfl
      have hsource : (d.withWait waitBuff).source buff sourceBuff = d.source buff sourceBuff := rfl
      have hcases := segmentLoop_withWait (d.accepted S buff).queue (d.accepted S buff) waitBuff
      rw [haccepted, hqueue, hhears, hsource]
      generalize segmentLoop (d.accepted S buff).queue (d.accepted S buff) = loop at hcases ⊢
      generalize segmentLoop (d.accepted S buff).queue ((d.accepted S buff).withWait waitBuff)
        = loop' at hcases ⊢
      obtain ⟨answer, d'⟩ := loop
      obtain ⟨answer', e'⟩ := loop'
      rcases hcases with ⟨rfl, rfl, rfl⟩ | ⟨outcome, outcome', rfl, rfl, hsame⟩
      · exact inState_withWait B _ _ _ _
      · exact hsame

/-! ## The bytes of a call -/

/-- The bytes that a call adds to those that wait: the context when an utterance begins, and
then the frames. -/
def added (d : Detector τ β) (c : Call) : List UInt8 :=
  match d.state with
  | .inactivity => []
  | .inactivityTransition =>
      if c = .forceEnd then [] else B.getData (B.append d.fixed (d.heard S c))
  | .activity => d.heard S c

/-- A call sends the bytes that wait and those it adds, or keeps them. -/
theorem call_bytes (d : Detector τ β) (c : Call) :
    (d.call S B c).1.flatMap Event.data ++ (d.call S B c).2.waitBuff
      = d.waitBuff ++ d.added S B c := by
  have heffect := effect_call S B d c
  rw [added]
  generalize (d.call S B c).1 = sent at heffect ⊢
  generalize (d.call S B c).2 = d' at heffect ⊢
  cases heffect with
  | wait hd _ hwait => simp [hd, hwait]
  | silent hd _ hwait => simp [hd, hwait, emitVoiceSilent]
  | begin hforced hd _ hwait => simp [hd, hwait, of_decide_eq_false hforced]
  | gather hd _ hwait => simp [hd, hwait]
  | ongoing hd _ hwait => simp [hd, hwait]
  | stop hd _ hwait => simp [hd, hwait]
  | cut hforced hd _ hwait => simp [hd, hwait, of_decide_eq_true hforced]

/-- Nothing waits after bytes were sent. -/
theorem waitBuff_of_sent (d : Detector τ β) (c : Call)
    (h : (d.call S B c).1.flatMap Event.data ≠ []) : (d.call S B c).2.waitBuff = [] := by
  have heffect := effect_call S B d c
  generalize (d.call S B c).1 = sent at heffect h
  generalize (d.call S B c).2 = d' at heffect ⊢
  cases heffect with
  | wait hd _ hwait => exact absurd rfl h
  | silent hd _ hwait => exact absurd rfl h
  | begin hforced hd _ hwait => exact hwait
  | gather hd _ hwait => exact absurd rfl h
  | ongoing hd _ hwait => exact hwait
  | stop hd _ hwait => exact hwait
  | cut hforced hd _ hwait => exact hwait

theorem heard_withWait (d : Detector τ β) (waitBuff : List UInt8) (c : Call) :
    (d.withWait waitBuff).heard S c = d.heard S c := by
  cases c with
  | forceEnd => rfl
  | processFrame buff sourceBuff =>
      have haccepted : (d.withWait waitBuff).accepted S buff
          = (d.accepted S buff).withWait waitBuff := rfl
      have hqueue : ((d.accepted S buff).withWait waitBuff).queue = (d.accepted S buff).queue := rfl
      have hsource : (d.withWait waitBuff).source buff sourceBuff = d.source buff sourceBuff := rfl
      rw [heard, heard, haccepted, hqueue, hsource]
      rcases segmentLoop_withWait (d.accepted S buff).queue (d.accepted S buff) waitBuff with
        ⟨hloop, hloop', -⟩ | ⟨outcome, outcome', hloop, hloop', -⟩
      · rw [hloop, hloop']
      · rw [hloop, hloop']

theorem added_withWait (d : Detector τ β) (waitBuff : List UInt8) (c : Call) :
    (d.withWait waitBuff).added S B c = d.added S B c := by
  have hstate : (d.withWait waitBuff).state = d.state := rfl
  have hfixed : (d.withWait waitBuff).fixed = d.fixed := rfl
  rw [added, added, heard_withWait, hstate, hfixed]

/-- The bytes that a sequence of calls adds. -/
def addeds (d : Detector τ β) (calls : List Call) : List UInt8 :=
  (outputs (fun d c => (d.added S B c, (d.call S B c).2)) d calls).flatten

theorem addeds_append (d : Detector τ β) (calls : List Call) (c : Call) :
    d.addeds S B (calls ++ [c])
      = d.addeds S B calls ++ (final (call S B) d calls).added S B c := by
  rw [addeds, outputs_append, List.flatten_append, ← addeds,
    final_congr (fun d c => (d.added S B c, (d.call S B c).2)) (call S B) fun _ _ => rfl]
  simp

theorem events_append (d : Detector τ β) (calls : List Call) (c : Call) :
    d.events S B (calls ++ [c])
      = d.events S B calls ++ ((final (call S B) d calls).call S B c).1 := by
  rw [events, outputs_append, List.flatten_append, ← events]
  simp

end Detector

/-! ## Timeouts leave the detection as it is -/

theorem marks_append (first second : List Event) :
    marks (first ++ second) = marks first ++ marks second := by
  rw [marks, List.map_append, List.filter_append, ← marks, ← marks]

/-- Every timer was started by a `VoiceBegin`. -/
theorem timers_le (events : List Event) (running : Bool) :
    (events.foldl timerAfter running).toNat
      ≤ running.toNat + (marks events).count .voiceBegin := by
  induction events generalizing running with
  | nil => simp [marks]
  | cons event events ih =>
      have hrest := ih (timerAfter running event)
      have hmarks : marks (event :: events) = marks [event] ++ marks events :=
        marks_append [event] events
      rw [List.foldl_cons, hmarks, List.count_append]
      have hfirst : (timerAfter running event).toNat
          ≤ running.toNat + (marks [event]).count .voiceBegin := by
        obtain ⟨type, data⟩ := event
        cases type <;> simp [timerAfter, marks]
      omega

namespace TimedDetector

variable {τ β : Type} (S : Sherpa τ) (B : FixedSizeBuffer β)

/-- The events that the calls, or the timers, have sent. -/
def sentBy (s : TimedDetector τ β) (byTimer : Bool) : List Event :=
  (s.received.filter (·.byTimer == byTimer)).map Received.event

/-- A detector with timers follows one without: they are the same up to the bytes that wait,
and so are the marks of what their calls have sent. A timer sends nothing but a `VoiceEnd`, and
at most one for each `VoiceBegin`. -/
structure Follows (d : Detector τ β) (calls : List Call) (s : TimedDetector τ β) : Prop where
  detector : ∃ waitBuff,
    s.toDetector = (final (Detector.call S B) d calls).withWait waitBuff
  marks : marks (s.sentBy false) = marks (d.events S B calls)
  timers : ∀ event ∈ s.sentBy true, event.type = .voiceEnd
  count : (s.sentBy true).length + s.sending.length + s.expired + s.running.toNat
    ≤ (Go.marks (d.events S B calls)).count .voiceBegin

theorem follows_start (d : Detector τ β) : Follows S B d [] (start d) where
  detector := ⟨d.waitBuff, rfl⟩
  marks := rfl
  timers _ h := absurd h List.not_mem_nil
  count := le_rfl

/-- The events a sender has sent, after some more. -/
theorem filter_sent (received : List Received) (events : List Event) (sender byTimer : Bool) :
    ((received ++ events.map (Received.mk sender)).filter (·.byTimer == byTimer)).map
        Received.event
      = (received.filter (·.byTimer == byTimer)).map Received.event
        ++ if sender = byTimer then events else [] := by
  rw [List.filter_append, List.map_append, List.filter_map, List.map_map]
  congr 1
  split_ifs with hsender
  · simp [hsender, Function.comp_def]
  · simp [hsender, Function.comp_def]

variable {S B}

section Steps

variable {d : Detector τ β} {calls : List Call} {s s' : TimedDetector τ β}

theorem Follows.call (h : Follows S B d calls s) {c : Call}
    (hs : step S B s (.call c) = some s') : Follows S B d (calls ++ [c]) s' := by
  obtain ⟨waitBuff, hdetector⟩ := h.detector
  have hsame := (final (Detector.call S B) d calls).call_withWait S B waitBuff c
  rw [← hdetector] at hsame
  obtain ⟨hmarks, waitBuff', hnext⟩ := hsame
  have hevents : Go.marks (d.events S B (calls ++ [c]))
      = Go.marks (d.events S B calls) ++ Go.marks (s.toDetector.call S B c).1 := by
    rw [Detector.events_append, marks_append, hmarks]
  simp only [step, Option.some.injEq] at hs
  subst hs
  refine ⟨⟨waitBuff', ?_⟩, ?_, ?_, ?_⟩
  · rw [final_append]
    exact hnext
  · rw [sentBy, filter_sent, if_pos rfl, ← sentBy, marks_append, h.marks, hevents]
  · rw [sentBy, filter_sent, if_neg (by decide), List.append_nil, ← sentBy]
    exact h.timers
  · have hcount := h.count
    have htimers := timers_le (s.toDetector.call S B c).1 s.running
    rw [sentBy, filter_sent, if_neg (by decide), List.append_nil, ← sentBy, hevents,
      List.count_append]
    dsimp only
    omega

/-- The steps of the timers leave the calls' side as it is. -/
theorem Follows.timer (h : Follows S B d calls s) {a : TimedAction} (ha : ∀ c, a ≠ .call c)
    (hs : step S B s a = some s') : Follows S B d calls s' := by
  have hcount := h.count
  obtain ⟨waitBuff, hdetector⟩ := h.detector
  cases a with
  | call c => exact absurd rfl (ha c)
  | expire =>
      simp only [step, Option.ite_none_right_eq_some, Option.some.injEq] at hs
      obtain ⟨hrunning, rfl⟩ := hs
      rw [hrunning] at hcount
      refine ⟨⟨waitBuff, hdetector⟩, h.marks, h.timers, ?_⟩
      show (s.sentBy true).length + s.sending.length + (s.expired + 1) + 0 ≤ _
      rw [Bool.toNat_true] at hcount
      omega
  | read =>
      simp only [step, Option.ite_none_right_eq_some, Option.some.injEq] at hs
      obtain ⟨hexpired, rfl⟩ := hs
      refine ⟨⟨waitBuff, hdetector⟩, h.marks, h.timers, ?_⟩
      show (s.sentBy true).length + (s.sending ++ [s.waitBuff]).length + (s.expired - 1)
        + s.running.toNat ≤ _
      rw [List.length_append, List.length_singleton]
      omega
  | take k =>
      cases hdata : s.sending[k]? with
      | none => simp [step, hdata] at hs
      | some data =>
          simp only [step, hdata, Option.some.injEq] at hs
          subst hs
          have hlen : (s.sending.eraseIdx k).length + 1 = s.sending.length := by
            obtain ⟨hk, -⟩ := List.getElem?_eq_some_iff.mp hdata
            rw [List.length_eraseIdx_of_lt hk]
            omega
          have hsingle (sender : Bool) (event : Event) :
              [(⟨sender, event⟩ : Received)] = [event].map (Received.mk sender) := rfl
          refine ⟨⟨waitBuff, hdetector⟩, ?_, ?_, ?_⟩
          · rw [sentBy, hsingle, filter_sent, if_neg (by decide), List.append_nil, ← sentBy]
            exact h.marks
          · rw [sentBy, hsingle, filter_sent, if_pos rfl, ← sentBy]
            intro event hevent
            rcases List.mem_append.mp hevent with hevent | hevent
            · exact h.timers event hevent
            · rw [List.mem_singleton.mp hevent]
          · rw [sentBy, hsingle, filter_sent, if_pos rfl, ← sentBy, List.length_append,
              List.length_singleton]
            dsimp only
            omega
  | drop k =>
      simp only [step, Option.ite_none_right_eq_some, Option.some.injEq] at hs
      obtain ⟨-, rfl⟩ := hs
      refine ⟨⟨[], ?_⟩, h.marks, h.timers, hcount⟩
      show s.toDetector.withWait [] = _
      rw [hdetector]
      rfl
  | release =>
      simp only [step, Option.ite_none_right_eq_some, Option.some.injEq] at hs
      obtain ⟨-, rfl⟩ := hs
      refine ⟨⟨waitBuff, hdetector⟩, h.marks, h.timers, ?_⟩
      show (s.sentBy true).length + s.sending.length + s.expired + 0 ≤ _
      omega

/-- **One step** of the calls or of the timers. -/
theorem Follows.next (h : Follows S B d calls s) {a : TimedAction}
    (hs : step S B s a = some s') : Follows S B d (calls ++ callsOf [a]) s' := by
  cases a with
  | call c => exact h.call hs
  | expire => exact (List.append_nil calls).symm ▸ h.timer (by simp) hs
  | read => exact (List.append_nil calls).symm ▸ h.timer (by simp) hs
  | take k => exact (List.append_nil calls).symm ▸ h.timer (by simp) hs
  | drop k => exact (List.append_nil calls).symm ▸ h.timer (by simp) hs
  | release => exact (List.append_nil calls).symm ▸ h.timer (by simp) hs

theorem Follows.run (h : Follows S B d calls s) {actions : List TimedAction}
    (hs : exec (step S B) s actions = some s') :
    Follows S B d (calls ++ callsOf actions) s' := by
  induction actions generalizing s calls with
  | nil =>
      cases hs
      exact (List.append_nil calls).symm ▸ h
  | cons a actions ih =>
      have hcalls : callsOf (a :: actions) = callsOf [a] ++ callsOf actions :=
        List.filterMap_append (l := [a])
      rw [exec_cons] at hs
      cases hsa : step S B s a with
      | none => simp [hsa] at hs
      | some t =>
          rw [hsa, Option.bind_some] at hs
          rw [hcalls, ← List.append_assoc]
          exact ih (h.next hsa) hs

end Steps

variable (S B)

/-- **Timeouts leave the detection as it is.** In any run of calls and timers, in any order, the
detector with timers follows the one without: it recognises the same utterances, it begins and
ends them at the same calls, and it goes on within an utterance whose timer has sent its
`VoiceEnd`. There are at most as many such `VoiceEnd`s as `VoiceBegin`s. -/
theorem timeouts_leave_detection (d : Detector τ β) (actions : List TimedAction)
    {s : TimedDetector τ β} (hs : exec (step S B) (start d) actions = some s) :
    Follows S B d (callsOf actions) s :=
  (follows_start S B d).run hs

section Late

open SherpaVadDetector (goWithScript scriptedSherpa lastBytes)
open Detector (byteFrames)

/-- An initialised detector whose frames are all active. -/
def talking : Detector (List Bool) (ℕ × List UInt8) :=
  (goWithScript (List.replicate 18 true)).initializeDetector scriptedSherpa lastBytes 15000

/-- A timer that fires two frames into an utterance, which goes on for another two. -/
def lateTimer : List TimedAction :=
  (byteFrames 0 16).map .call ++ [.expire, .read, .take 0, .drop 0, .release]
    ++ (byteFrames 16 2).map .call ++ [.call .forceEnd]

theorem timeouts_leave_detection_late :
    ∃ s, exec (step scriptedSherpa lastBytes) (start talking) lateTimer = some s ∧
      Follows scriptedSherpa lastBytes talking (callsOf lateTimer) s := by
  have hsome : (exec (step scriptedSherpa lastBytes) (start talking) lateTimer).isSome = true := by
    decide +kernel
  obtain ⟨s, hs⟩ := Option.isSome_iff_exists.mp hsome
  exact ⟨s, hs, timeouts_leave_detection scriptedSherpa lastBytes talking lateTimer hs⟩

end Late

/-! ## The bytes -/

/-- What the goroutines have sent and have still to drop. -/
def ahead (s : TimedDetector τ β) : List UInt8 := s.taken.flatten

/-- Every byte that the calls have added was sent once, in order, or waits. The bytes that a
goroutine has still to drop wait as well: they are in front, and count as sent. -/
structure SentOnce (d : Detector τ β) (calls : List Call) (s : TimedDetector τ β) : Prop where
  front : s.ahead <+: s.waitBuff
  bytes : (s.received.flatMap fun r => r.event.data) ++ s.waitBuff.drop s.ahead.length
    = d.waitBuff ++ d.addeds S B calls

/-- Nothing goes wrong with the bytes: the client takes the event of a goroutine that has read
the bytes to be sent next, no call sends bytes before those that were sent are dropped, and a
goroutine drops the bytes that it has sent and no others. -/
def Undisturbed (s : TimedDetector τ β) : TimedAction → Prop
  | .call c => s.ahead = [] ∨ (s.toDetector.call S B c).1.flatMap Event.data = []
  | .take k => s.sending.getD k [] <+: s.waitBuff.drop s.ahead.length
  | .drop k => s.waitBuff = s.taken.getD k []
  | _ => True

instance decidableUndisturbed (s : TimedDetector τ β) :
    ∀ a : TimedAction, Decidable (Undisturbed S B s a)
  | .call _ => inferInstanceAs (Decidable (_ ∨ _))
  | .expire => .isTrue trivial
  | .read => .isTrue trivial
  | .take _ => inferInstanceAs (Decidable (_ <+: _))
  | .drop _ => inferInstanceAs (Decidable (_ = _))
  | .release => .isTrue trivial

section Bytes

variable {S B} {d : Detector τ β} {calls : List Call} {s s' : TimedDetector τ β}

/-- A call keeps the bytes unless it sends some that a goroutine has sent. -/
theorem SentOnce.call (ho : SentOnce S B d calls s) (hf : Follows S B d calls s) {c : Call}
    (hs : step S B s (.call c) = some s') :
    SentOnce S B d (calls ++ [c]) s' ↔ Undisturbed S B s (.call c) := by
  obtain ⟨waitBuff, hdetector⟩ := hf.detector
  obtain ⟨rest, hrest⟩ := ho.front
  have hbytes := s.toDetector.call_bytes S B c
  have hadded : d.addeds S B (calls ++ [c])
      = d.addeds S B calls ++ s.toDetector.added S B c := by
    rw [Detector.addeds_append, hdetector, Detector.added_withWait]
  have htotal := ho.bytes
  rw [← hrest, List.drop_left] at htotal
  simp only [step, Option.some.injEq] at hs
  subst hs
  have hsent : (s.received ++ (s.toDetector.call S B c).1.map (Received.mk false)).flatMap
      (fun r => r.event.data)
        = (s.received.flatMap fun r => r.event.data)
          ++ (s.toDetector.call S B c).1.flatMap Event.data := by
    rw [List.flatMap_append, List.flatMap_map]
  by_cases hnone : (s.toDetector.call S B c).1.flatMap Event.data = []
  · refine iff_of_true ?_ (.inr hnone)
    have hwait : (s.toDetector.call S B c).2.waitBuff
        = s.ahead ++ (rest ++ s.toDetector.added S B c) := by
      rw [hnone, List.nil_append, ← hrest] at hbytes
      rw [hbytes, List.append_assoc]
    refine ⟨⟨rest ++ s.toDetector.added S B c, hwait.symm⟩, ?_⟩
    show ((s.received ++ _).flatMap _) ++ (s.toDetector.call S B c).2.waitBuff.drop s.ahead.length
      = _
    rw [hsent, hnone, List.append_nil, hwait, List.drop_left, hadded, ← List.append_assoc, htotal,
      List.append_assoc]
  · have hempty := s.toDetector.waitBuff_of_sent S B c hnone
    rw [hempty, List.append_nil] at hbytes
    constructor
    · intro hnext
      -- nothing waits any more, so nothing is left to drop
      have hfront : s.ahead <+: (s.toDetector.call S B c).2.waitBuff := hnext.front
      rw [hempty, List.prefix_nil] at hfront
      exact .inl hfront
    · rintro (hahead | hsends)
      · rw [hahead, List.nil_append] at hrest
        refine ⟨?_, ?_⟩
        · show s.ahead <+: _
          rw [hahead]
          exact List.nil_prefix
        · show ((s.received ++ _).flatMap _)
            ++ (s.toDetector.call S B c).2.waitBuff.drop s.ahead.length = _
          rw [hsent, hempty, List.drop_nil, List.append_nil, hbytes, hadded, ← hrest,
            ← List.append_assoc, htotal, List.append_assoc]
      · exact absurd hsends hnone

/-- The client takes the event of a goroutine. -/
theorem SentOnce.take (ho : SentOnce S B d calls s) {k : ℕ}
    (hs : step S B s (.take k) = some s') :
    SentOnce S B d calls s' ↔ Undisturbed S B s (.take k) := by
  obtain ⟨rest, hrest⟩ := ho.front
  have htotal := ho.bytes
  cases hdata : s.sending[k]? with
  | none => simp [step, hdata] at hs
  | some data =>
      simp only [step, hdata, Option.some.injEq] at hs
      subst hs
      have hahead : (s.taken ++ [data]).flatten = s.ahead ++ data := by simp [ahead]
      have hundisturbed : Undisturbed S B s (.take k) ↔ data <+: rest := by
        rw [Undisturbed, List.getD_eq_getElem?_getD, hdata, Option.getD_some, ← hrest,
          List.drop_left]
      rw [hundisturbed]
      rw [← hrest, List.drop_left] at htotal
      constructor
      · intro hnext
        have hfront : (s.taken ++ [data]).flatten <+: s.waitBuff := hnext.front
        rw [hahead, ← hrest] at hfront
        exact (List.prefix_append_right_inj s.ahead).mp hfront
      · rintro ⟨rest', rfl⟩
        refine ⟨?_, ?_⟩
        · show (s.taken ++ [data]).flatten <+: s.waitBuff
          rw [hahead, ← hrest, ← List.append_assoc]
          exact List.prefix_append _ _
        · show ((s.received ++ _).flatMap _)
            ++ s.waitBuff.drop (s.taken ++ [data]).flatten.length = _
          rw [hahead, ← hrest, ← List.append_assoc, List.drop_left, ← htotal, List.flatMap_append,
            List.flatMap_singleton, List.append_assoc]

/-- The bytes in the lists but one, and those of that one. -/
theorem flatten_eraseIdx {taken : List (List UInt8)} {k : ℕ} (hk : k < taken.length) :
    ∃ before after, taken.flatten = before ++ (taken.getD k [] ++ after) ∧
      (taken.eraseIdx k).flatten = before ++ after := by
  refine ⟨(taken.take k).flatten, (taken.drop (k + 1)).flatten, ?_, ?_⟩
  · have hsplit : taken = taken.take k ++ taken[k] :: taken.drop (k + 1) := by
      rw [← List.drop_eq_getElem_cons hk, List.take_append_drop]
    rw [List.getD_eq_getElem?_getD, List.getElem?_eq_getElem hk, Option.getD_some]
    conv_lhs => rw [hsplit]
    rw [List.flatten_append, List.flatten_cons]
  · rw [List.eraseIdx_eq_take_drop_succ, List.flatten_append]

/-- A goroutine drops the bytes that wait. -/
theorem SentOnce.drop (ho : SentOnce S B d calls s) {k : ℕ}
    (hs : step S B s (.drop k) = some s') :
    SentOnce S B d calls s' ↔ Undisturbed S B s (.drop k) := by
  obtain ⟨rest, hrest⟩ := ho.front
  have htotal := ho.bytes
  simp only [step, Option.ite_none_right_eq_some, Option.some.injEq] at hs
  obtain ⟨hk, rfl⟩ := hs
  obtain ⟨before, after, hall, herase⟩ := flatten_eraseIdx hk
  rw [← hrest, List.drop_left] at htotal
  have hwait : s.waitBuff = before ++ (s.taken.getD k [] ++ after) ++ rest := by
    rw [← hrest, ahead, hall]
  -- both sides say that nothing else waits
  have hundisturbed : Undisturbed S B s (.drop k) ↔ before = [] ∧ after = [] ∧ rest = [] := by
    rw [Undisturbed, hwait]
    constructor
    · intro heq
      have hlen := congrArg List.length heq
      simp only [List.length_append] at hlen
      exact ⟨List.eq_nil_of_length_eq_zero (by omega), List.eq_nil_of_length_eq_zero (by omega),
        List.eq_nil_of_length_eq_zero (by omega)⟩
    · rintro ⟨rfl, rfl, rfl⟩
      simp
  rw [hundisturbed]
  constructor
  · intro hnext
    have hfront : (s.taken.eraseIdx k).flatten <+: [] := hnext.front
    rw [herase, List.prefix_nil, List.append_eq_nil_iff] at hfront
    have hbytes : (s.received.flatMap fun r => r.event.data)
        ++ List.drop (s.taken.eraseIdx k).flatten.length [] = _ := hnext.bytes
    rw [List.drop_nil, ← htotal, List.append_nil, List.self_eq_append_right] at hbytes
    exact ⟨hfront.1, hfront.2, hbytes⟩
  · rintro ⟨rfl, rfl, rfl⟩
    refine ⟨?_, ?_⟩
    · show (s.taken.eraseIdx k).flatten <+: []
      rw [herase]
      exact List.prefix_rfl
    · show (s.received.flatMap _) ++ List.drop _ [] = _
      rw [List.drop_nil, ← htotal]

/-- **One step** keeps the bytes exactly if nothing goes wrong with them. -/
theorem SentOnce.next (ho : SentOnce S B d calls s) (hf : Follows S B d calls s)
    {a : TimedAction} (hs : step S B s a = some s') :
    SentOnce S B d (calls ++ callsOf [a]) s' ↔ Undisturbed S B s a := by
  have hnone : calls ++ [] = calls := List.append_nil calls
  cases a with
  | call c => exact ho.call hf hs
  | expire =>
      simp only [step, Option.ite_none_right_eq_some, Option.some.injEq] at hs
      obtain ⟨-, rfl⟩ := hs
      exact iff_of_true (hnone.symm ▸ ⟨ho.front, ho.bytes⟩) trivial
  | read =>
      simp only [step, Option.ite_none_right_eq_some, Option.some.injEq] at hs
      obtain ⟨-, rfl⟩ := hs
      exact iff_of_true (hnone.symm ▸ ⟨ho.front, ho.bytes⟩) trivial
  | take k => exact hnone.symm ▸ ho.take hs
  | drop k => exact hnone.symm ▸ ho.drop hs
  | release =>
      simp only [step, Option.ite_none_right_eq_some, Option.some.injEq] at hs
      obtain ⟨-, rfl⟩ := hs
      exact iff_of_true (hnone.symm ▸ ⟨ho.front, ho.bytes⟩) trivial

end Bytes

/-- **When every byte is sent once.** In any run of calls and timers, every byte that the calls
have added has been sent once and in order, or waits, at every point of the run, exactly if
nothing goes wrong with the bytes at any of its steps. -/
theorem sentOnce_iff_undisturbed (d : Detector τ β) (actions : List TimedAction)
    {s : TimedDetector τ β} (hs : exec (step S B) (start d) actions = some s) :
    (∀ before after, actions = before ++ after → ∀ t,
        exec (step S B) (start d) before = some t → SentOnce S B d (callsOf before) t) ↔
      ExecAlong (Undisturbed S B) (step S B) (start d) actions := by
  have hcalls (past : List TimedAction) (a : TimedAction) :
      callsOf (past ++ [a]) = callsOf past ++ callsOf [a] := List.filterMap_append
  have hstart : Follows S B d (callsOf []) (start d) ∧ SentOnce S B d (callsOf []) (start d) :=
    ⟨follows_start S B d, List.nil_prefix, (List.append_nil d.waitBuff).symm⟩
  have hrun := forall_inv_iff_execAlong
    (fun past s => Follows S B d (callsOf past) s ∧ SentOnce S B d (callsOf past) s)
    (fun past s a s' hinv hsa => by
      rw [hcalls, and_iff_right (hinv.1.next hsa)]
      exact hinv.2.next hinv.1 hsa)
    hstart hs
  rw [← hrun]
  refine forall_congr' fun before => forall_congr' fun after => forall_congr' fun heq =>
    forall_congr' fun t => forall_congr' fun ht => ?_
  exact (and_iff_right ((follows_start S B d).run ht)).symm

section Late

open SherpaVadDetector (scriptedSherpa lastBytes)

theorem sentOnce_iff_undisturbed_late :
    ∃ s, exec (step scriptedSherpa lastBytes) (start talking) lateTimer = some s ∧
      SentOnce scriptedSherpa lastBytes talking (callsOf lateTimer) s := by
  have hsome : (exec (step scriptedSherpa lastBytes) (start talking) lateTimer).isSome = true := by
    decide +kernel
  obtain ⟨s, hs⟩ := Option.isSome_iff_exists.mp hsome
  have hundisturbed : ExecAlong (Undisturbed scriptedSherpa lastBytes)
      (step scriptedSherpa lastBytes) (start talking) lateTimer := by decide +kernel
  exact ⟨s, hs, (sentOnce_iff_undisturbed scriptedSherpa lastBytes talking lateTimer hs).mpr
    hundisturbed lateTimer [] (List.append_nil _).symm s hs⟩

end Late

end TimedDetector

end Go

end VadService
