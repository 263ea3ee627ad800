import VadService.Sherpa.Refines
import VadService.Lib.Segments

set_option autoImplicit false

/-! # The events of the Go detector

The events that the calls of the Go detector send, as long as none of its timers of 30 seconds
fires. They form utterances, each a `VoiceBegin`, any number of `VoiceOngoing`s and a `VoiceEnd`,
as long as `ForceEnd` does not come between the frame that recognises an utterance and the one
that begins it (`events_form_utterances`). The data of the events of an utterance is the context
at its start and the frames since then (`utterance_data`), whether or not the library cuts
segments out of the stream.
-/

namespace VadService

open Machine

namespace Go

deriving instance DecidableEq for Event

/-- The words of the events. -/
def utterances : Segments EventType where
  idle := .voiceSilent
  opens := .voiceBegin
  inside := .voiceOngoing
  closes := .voiceEnd
  distinct := by decide

/-- What a client calls. -/
inductive Call where
  | processFrame (buff sourceBuff : List UInt8)
  | forceEnd
  deriving DecidableEq

namespace Detector

variable {τ β : Type} (S : Sherpa τ) (B : FixedSizeBuffer β)

/-- A call, with the events it sends. -/
def call (d : Detector τ β) : Call → List Event × Detector τ β
  | .processFrame buff sourceBuff =>
      let (outcome, d) := d.processFrame S B buff sourceBuff
      (outcome.events, d)
  | .forceEnd => d.forceEnd

/-- The detector after the waveform of a frame, with the segments it completes. -/
def accepted (d : Detector τ β) (buff : List UInt8) : Detector τ β :=
  { d with
    vad := (S.acceptWaveform d.vad (byteToFloat32 buff)).1
    queue := d.queue ++ (S.acceptWaveform d.vad (byteToFloat32 buff)).2
    frameIndex := d.frameIndex + 1 }

/-- The bytes a call adds to an utterance: those of a frame that the queue does not end. -/
def heard (d : Detector τ β) : Call → List UInt8
  | .processFrame buff sourceBuff =>
      match (segmentLoop (d.accepted S buff).queue (d.accepted S buff)).1 with
      | some _ => []
      | none => d.source buff sourceBuff
  | .forceEnd => []

/-! ## What a call does -/

/-- **The loop over the queue** takes segments out of it. It goes on to the frame, or the
detector recognises an utterance, or it ends one. -/
theorem segmentLoop_cases (queue : List (List F32)) (d : Detector τ β) :
    (∃ rest duration, segmentLoop queue d
      = (none, { d with queue := rest, recognitionDuration := duration })) ∨
    (d.state = .inactivity ∧ ∃ rest, segmentLoop queue d
      = (some { result := false, events := [] },
          { d with queue := rest, toPhase := Phase.setState .inactivityTransition })) ∨
    (d.state = .activity ∧ ∃ rest, segmentLoop queue d
      = (some { result := true, events := [{ type := .voiceEnd, data := d.waitBuff }] },
          { d with queue := rest, toPhase := Phase.setState .inactivity, waitBuff := [] })) := by
  induction queue generalizing d with
  | nil => exact .inl ⟨d.queue, d.recognitionDuration, rfl⟩
  | cons samples queue ih =>
      have hrest := ih { d with queue := queue, recognitionDuration := segmentDuration samples }
      rw [segmentLoop]
      by_cases hlong : Phase.voiceBeginDuration.le (segmentDuration samples) = true
      · cases hd : d.state with
        | inactivity => exact .inr (.inl ⟨rfl, queue, by simp [hlong]⟩)
        | activity => exact .inr (.inr ⟨rfl, queue, by simp [hlong, emitVoiceEnd, send]⟩)
        | inactivityTransition =>
            simp only [hlong, hd, if_true] at hrest ⊢
            simpa using hrest
      · simpa [hlong] using hrest

/-- What a call does to the state, to the bytes that wait to be sent and to the events. The
bytes `heard` are those the call adds, and `forced` tells if the call is a `ForceEnd`. -/
inductive Effect (d : Detector τ β) (forced : Bool) (heard : List UInt8) :
    List Event → Detector τ β → Prop
  | wait {d' : Detector τ β} : d.state = .inactivity → d'.state ≠ .activity →
      d'.waitBuff = d.waitBuff → Effect d forced heard [] d'
  | silent {d' : Detector τ β} : d.state = .inactivity → d'.state = .inactivity →
      d'.waitBuff = d.waitBuff → Effect d forced heard [emitVoiceSilent] d'
  | begin {d' : Detector τ β} : forced = false → d.state = .inactivityTransition →
      d'.state = .activity → d'.waitBuff = [] →
      Effect d forced heard
        [{ type := .voiceBegin, data := d.waitBuff ++ B.getData (B.append d.fixed heard) }] d'
  | gather {d' : Detector τ β} : d.state = .activity → d'.state = .activity →
      d'.waitBuff = d.waitBuff ++ heard → d'.waitBuff.length < frameDuration100SizeInBytes →
      Effect d forced heard [] d'
  | ongoing {d' : Detector τ β} : d.state = .activity → d'.state = .activity →
      d'.waitBuff = [] → frameDuration100SizeInBytes ≤ (d.waitBuff ++ heard).length →
      Effect d forced heard [{ type := .voiceOngoing, data := d.waitBuff ++ heard }] d'
  | stop {d' : Detector τ β} : d.state = .activity → d'.state = .inactivity →
      d'.waitBuff = [] →
      Effect d forced heard [{ type := .voiceEnd, data := d.waitBuff ++ heard }] d'
  | cut {d' : Detector τ β} : forced = true → d.state = .inactivityTransition →
      d'.state = .inactivity → d'.waitBuff = [] →
      Effect d forced heard [{ type := .voiceEnd, data := d.waitBuff }] d'

section Cases

variable {d : Detector τ β} (frameActive : Bool) (sourceBuff : List UInt8)

theorem effect_inInactivity (hd : d.state = .inactivity) :
    Effect B d false sourceBuff (inInactivity B frameActive sourceBuff d).1.events
      (inInactivity B frameActive sourceBuff d).2 := by
  dsimp only [inInactivity]
  split_ifs
  · exact .wait hd (by simp [Phase.setState]) rfl
  · exact .silent hd (by simp [hd]) rfl
  · exact .wait hd (by simp [hd]) rfl

theorem effect_inTransition (hd : d.state = .inactivityTransition) :
    Effect B d false sourceBuff (inTransition B frameActive sourceBuff d).1.events
      (inTransition B frameActive sourceBuff d).2 := by
  refine .begin rfl hd ?_ rfl
  cases frameActive <;> rfl

theorem effect_inActivity (hd : d.state = .activity) :
    Effect B d false sourceBuff (inActivity frameActive sourceBuff d).1.events
      (inActivity frameActive sourceBuff d).2 := by
  dsimp only [inActivity, emitVoiceEnd, emitVoiceOnGoing, send]
  split_ifs with hstop hlong
  · exact .stop hd rfl rfl
  · exact .ongoing hd (by simp [hd]) rfl hlong
  · exact .gather hd (by simp [hd]) rfl (not_le.mp hlong)

/-- The case of the state, after the loop over the queue. -/
def inState (d : Detector τ β) : Outcome × Detector τ β :=
  match d.state with
  | .inactivity => inInactivity B frameActive sourceBuff d
  | .inactivityTransition => inTransition B frameActive sourceBuff d
  | .activity => inActivity frameActive sourceBuff d

theorem effect_inState (d : Detector τ β) :
    Effect B d false sourceBuff (inState B frameActive sourceBuff d).1.events
      (inState B frameActive sourceBuff d).2 := by
  rw [inState]
  cases hd : d.state with
  | inactivity => exact effect_inInactivity B frameActive sourceBuff hd
  | inactivityTransition => exact effect_inTransition B frameActive sourceBuff hd
  | activity => exact effect_inActivity B frameActive sourceBuff hd

end Cases

/-- A frame is the loop over the queue, and then the case of its state. -/
theorem processFrame_eq (d : Detector τ β) (buff sourceBuff : List UInt8) :
    d.processFrame S B buff sourceBuff =
      match segmentLoop (d.accepted S buff).queue (d.accepted S buff) with
      | (some outcome, d') => (outcome, d')
      | (none, d') => inState B (d.hears S buff) (d.source buff sourceBuff) d' := rfl

/-- An effect depends on the state, the waiting bytes and the context only. -/
theorem Effect.congr {d e d' : Detector τ β} {forced : Bool} {heard : List UInt8}
    {events : List Event} (h : Effect B d forced heard events d') (hstate : d.state = e.state)
    (hwait : d.waitBuff = e.waitBuff) (hfixed : d.fixed = e.fixed) :
    Effect B e forced heard events d' := by
  cases h with
  | wait h1 h2 h3 => exact .wait (hstate ▸ h1) h2 (hwait ▸ h3)
  | silent h1 h2 h3 => exact .silent (hstate ▸ h1) h2 (hwait ▸ h3)
  | begin h1 h2 h3 h4 =>
      rw [hwait, hfixed]
      exact .begin h1 (hstate ▸ h2) h3 h4
  | gather h1 h2 h3 h4 => exact .gather (hstate ▸ h1) h2 (hwait ▸ h3) h4
  | ongoing h1 h2 h3 h4 =>
      rw [hwait] at h4 ⊢
      exact .ongoing (hstate ▸ h1) h2 h3 h4
  | stop h1 h2 h3 =>
      rw [hwait]
      exact .stop (hstate ▸ h1) h2 h3
  | cut h1 h2 h3 h4 =>
      rw [hwait]
      exact .cut h1 (hstate ▸ h2) h3 h4

theorem effect_processFrame (d : Detector τ β) (buff sourceBuff : List UInt8) :
    Effect B d false (d.heard S (.processFrame buff sourceBuff))
      (d.processFrame S B buff sourceBuff).1.events (d.processFrame S B buff sourceBuff).2 := by
  rw [processFrame_eq, heard]
  rcases segmentLoop_cases (d.accepted S buff).queue (d.accepted S buff) with
    ⟨rest, duration, hloop⟩ | ⟨hd, rest, hloop⟩ | ⟨hd, rest, hloop⟩
  · rw [hloop]
    exact (effect_inState B _ _ _).congr B rfl rfl rfl
  · rw [hloop]
    exact .wait hd (by simp [Phase.setState]) rfl
  · have hstop : Effect B d false [] [{ type := .voiceEnd, data := d.waitBuff ++ [] }]
        { d.accepted S buff with
          queue := rest, toPhase := Phase.setState .inactivity, waitBuff := [] } :=
      .stop hd rfl rfl
    rw [List.append_nil] at hstop
    rw [hloop]
    exact hstop

theorem effect_forceEnd (d : Detector τ β) :
    Effect B d true [] d.forceEnd.1 d.forceEnd.2 := by
  unfold forceEnd
  cases hd : d.state with
  | inactivity => exact .wait hd (by simp [hd]) rfl
  | inactivityTransition => exact .cut rfl hd rfl rfl
  | activity =>
      have hstop : Effect B d true [] [{ type := .voiceEnd, data := d.waitBuff ++ [] }]
          { d with toPhase := Phase.setState .inactivity, waitBuff := [] } :=
        .stop hd rfl rfl
      rw [List.append_nil] at hstop
      exact hstop

/-- **Every call has one of the effects.** -/
theorem effect_call (d : Detector τ β) (c : Call) :
    Effect B d (c = .forceEnd) (d.heard S c) (d.call S B c).1 (d.call S B c).2 := by
  cases c with
  | processFrame buff sourceBuff => exact effect_processFrame S B d buff sourceBuff
  | forceEnd => exact effect_forceEnd B d

/-! ## The events form utterances -/

/-- The detector is within an utterance. -/
def inUtterance (d : Detector τ β) : Bool := decide (d.state = .activity)

/-- The call is a `ForceEnd` between the frame that recognises an utterance and the one that
begins it. -/
def CutsBegin (d : Detector τ β) (c : Call) : Prop :=
  c = .forceEnd ∧ d.state = .inactivityTransition

/-- The events of a sequence of calls. -/
def events (d : Detector τ β) (calls : List Call) : List Event :=
  (outputs (call S B) d calls).flatten

/-- The bytes that a sequence of calls adds to an utterance. -/
def heards (d : Detector τ β) (calls : List Call) : List UInt8 :=
  (outputs (fun d c => (d.heard S c, (d.call S B c).2)) d calls).flatten

/-- The types of the events of a call are read one by one, unless it cuts a begin. -/
theorem exec_call (d : Detector τ β) (c : Call) :
    (d.CutsBegin c → exec utterances.next d.inUtterance ((d.call S B c).1.map Event.type) = none) ∧
      (¬ d.CutsBegin c → exec utterances.next d.inUtterance ((d.call S B c).1.map Event.type)
        = some (d.call S B c).2.inUtterance) := by
  have heffect := effect_call S B d c
  generalize (d.call S B c).1 = sent at heffect ⊢
  generalize (d.call S B c).2 = d' at heffect ⊢
  unfold CutsBegin inUtterance
  cases heffect with
  | wait hd hd' => simp [hd, hd']
  | silent hd hd' => simp [hd, hd', emitVoiceSilent, exec_cons, utterances, Segments.next]
  | begin hforced hd hd' =>
      simp [hd, hd', of_decide_eq_false hforced, exec_cons, utterances, Segments.next]
  | gather hd hd' => simp [hd, hd']
  | ongoing hd hd' => simp [hd, hd', exec_cons, utterances, Segments.next]
  | stop hd hd' => simp [hd, hd', exec_cons, utterances, Segments.next]
  | cut hforced hd hd' =>
      simp [hd, of_decide_eq_true hforced, exec_cons, utterances, Segments.next]

/-- The types of the events are read until the first call that cuts a begin. -/
theorem exec_events (d : Detector τ β) (calls : List Call) :
    (∃ o, exec utterances.next d.inUtterance ((d.events S B calls).map Event.type) = some o) ↔
      Along (call S B) (fun d c => ¬ d.CutsBegin c) d calls := by
  induction calls generalizing d with
  | nil => simp [events]
  | cons c calls ih =>
      have hsplit : (d.events S B (c :: calls)).map Event.type
          = (d.call S B c).1.map Event.type
            ++ ((d.call S B c).2.events S B calls).map Event.type := by
        rw [events, outputs_cons, List.flatten_cons, List.map_append, ← events]
      rw [hsplit, exec_append, along_cons]
      by_cases hcut : d.CutsBegin c
      · rw [(exec_call S B d c).1 hcut]
        simp [hcut]
      · rw [(exec_call S B d c).2 hcut, Option.bind_some, ih]
        simp [hcut]

/-- **The events form utterances** as long as `ForceEnd` cuts no begin: from an initialised
detector on, and as long as no timer fires, their types are a prefix of a word of
`(VoiceSilent* VoiceBegin VoiceOngoing* VoiceEnd)*` exactly if no `ForceEnd` comes between the
frame that recognises an utterance and the one that begins it. -/
theorem events_form_utterances (d : Detector τ β) (maxSilenceDuration : ℤ) (calls : List Call) :
    utterances.IsPrefix
        (((d.initializeDetector S B maxSilenceDuration).events S B calls).map Event.type) ↔
      Along (call S B) (fun d c => ¬ d.CutsBegin c)
        (d.initializeDetector S B maxSilenceDuration) calls := by
  rw [utterances.isPrefix_iff, ← exec_events]
  rfl

/-! ## The data of an utterance -/

/-- What waits to be sent: less than 100 ms, and nothing outside of an utterance. -/
structure Waiting (d : Detector τ β) : Prop where
  outside : d.state ≠ .activity → d.waitBuff = []
  length_lt : d.waitBuff.length < frameDuration100SizeInBytes

theorem waiting_initializeDetector (d : Detector τ β) (maxSilenceDuration : ℤ) :
    (d.initializeDetector S B maxSilenceDuration).Waiting := by
  refine ⟨fun _ => rfl, ?_⟩
  show 0 < frameDuration100SizeInBytes
  decide

theorem Waiting.call {d : Detector τ β} (h : d.Waiting) (c : Call) : (d.call S B c).2.Waiting := by
  have heffect := effect_call S B d c
  generalize (d.call S B c).1 = sent at heffect
  generalize (d.call S B c).2 = d' at heffect ⊢
  have hempty (hwait : d'.waitBuff = []) : d'.Waiting := by
    refine ⟨fun _ => hwait, ?_⟩
    rw [hwait]
    decide
  have houtside (hd : d.state = .inactivity) : d.waitBuff = [] := h.outside (by simp [hd])
  cases heffect with
  | wait hd _ hwait => exact hempty (hwait.trans (houtside hd))
  | silent hd _ hwait => exact hempty (hwait.trans (houtside hd))
  | begin _ _ _ hwait => exact hempty hwait
  | gather _ hd' _ hlen => exact ⟨fun hne => absurd hd' hne, hlen⟩
  | ongoing _ _ hwait => exact hempty hwait
  | stop _ _ hwait => exact hempty hwait
  | cut _ _ _ hwait => exact hempty hwait

/-- **Within an utterance no byte is lost.** As long as no `VoiceEnd` is sent, the events are
`VoiceOngoing`s of 100 ms or more, and what they hold and what waits are the bytes that waited
and those of the calls. -/
theorem ongoing_data {d : Detector τ β} (hd : d.state = .activity) (calls : List Call)
    (hcalls : ∀ event ∈ d.events S B calls, event.type ≠ .voiceEnd) :
    (final (call S B) d calls).state = .activity ∧
      (∀ event ∈ d.events S B calls,
        event.type = .voiceOngoing ∧ frameDuration100SizeInBytes ≤ event.data.length) ∧
      (d.events S B calls).flatMap Event.data ++ (final (call S B) d calls).waitBuff
        = d.waitBuff ++ d.heards S B calls := by
  induction calls generalizing d with
  | nil => simp [events, heards, hd]
  | cons c calls ih =>
      have hevents : d.events S B (c :: calls)
          = (d.call S B c).1 ++ (d.call S B c).2.events S B calls := rfl
      have hheards : d.heards S B (c :: calls)
          = d.heard S c ++ (d.call S B c).2.heards S B calls := rfl
      rw [hevents] at hcalls ⊢
      rw [hheards, final_cons]
      have heffect := effect_call S B d c
      generalize (d.call S B c).1 = sent at heffect hcalls ⊢
      generalize (d.call S B c).2 = d' at heffect hcalls ⊢
      have hrest : ∀ event ∈ d'.events S B calls, event.type ≠ .voiceEnd :=
        fun event hevent => hcalls event (List.mem_append_right _ hevent)
      cases heffect with
      | wait hne => simp [hd] at hne
      | silent hne => simp [hd] at hne
      | begin _ hne => simp [hd] at hne
      | cut _ hne => simp [hd] at hne
      | stop => exact absurd rfl (hcalls _ (List.mem_append_left _ (List.mem_singleton_self _)))
      | gather _ hd' hwait =>
          obtain ⟨hstate, hongoing, hdata⟩ := ih hd' hrest
          refine ⟨hstate, hongoing, ?_⟩
          rw [List.nil_append, hdata, hwait, List.append_assoc]
      | ongoing _ hd' hwait hlen =>
          obtain ⟨hstate, hongoing, hdata⟩ := ih hd' hrest
          refine ⟨hstate, ?_, ?_⟩
          · intro event hevent
            rcases List.mem_append.mp hevent with hevent | hevent
            · rw [List.mem_singleton.mp hevent]
              exact ⟨rfl, hlen⟩
            · exact hongoing event hevent
          · rw [List.flatMap_append, List.append_assoc, hdata, hwait]
            simp

/-- **The data of an utterance.** Take any run of an initialised detector and an utterance in
it, from the call that sends its `VoiceBegin` to the one that sends its `VoiceEnd`, in which no
timer fires. The `VoiceBegin` holds the context with the frame that begins the utterance, and
the events since then hold the frames since then, every byte once and in order; each
`VoiceOngoing` has 100 ms or more. A frame that ends the utterance with a segment of the library
is not heard. -/
theorem utterance_data (d : Detector τ β) (maxSilenceDuration : ℤ) (before during : List Call)
    (first last : Call) {d₁ d₂ : Detector τ β} {context tail : List UInt8}
    (hd₁ : d₁ = final (call S B) (d.initializeDetector S B maxSilenceDuration) before)
    (hfirst : (d₁.call S B first).1 = [{ type := .voiceBegin, data := context }])
    (hduring : ∀ event ∈ (d₁.call S B first).2.events S B during, event.type ≠ .voiceEnd)
    (hd₂ : d₂ = final (call S B) d₁ (first :: during))
    (hlast : (d₂.call S B last).1 = [{ type := .voiceEnd, data := tail }]) :
    context = B.getData (B.append d₁.fixed (d₁.heard S first)) ∧
      (∀ event ∈ (d₁.call S B first).2.events S B during,
        event.type = .voiceOngoing ∧ frameDuration100SizeInBytes ≤ event.data.length) ∧
      ((d₁.call S B first).2.events S B during).flatMap Event.data ++ tail
        = (d₁.call S B first).2.heards S B during ++ d₂.heard S last := by
  have hwaiting : d₁.Waiting := by
    rw [hd₁]
    exact final_inv Waiting (fun _ c h => h.call S B c)
      (waiting_initializeDetector S B d maxSilenceDuration) before
  -- the call that begins the utterance
  have hbegin : context = B.getData (B.append d₁.fixed (d₁.heard S first)) ∧
      (d₁.call S B first).2.state = .activity ∧ (d₁.call S B first).2.waitBuff = [] := by
    have heffect := effect_call S B d₁ first
    rw [hfirst] at heffect
    generalize (d₁.call S B first).2 = d' at heffect ⊢
    cases heffect with
    | begin _ hne hd' hwait =>
        have hempty : d₁.waitBuff = [] := hwaiting.outside (by simp [hne])
        exact ⟨by rw [hempty, List.nil_append], hd', hwait⟩
  obtain ⟨hcontext, hstate, hempty⟩ := hbegin
  obtain ⟨hactive, hongoing, hdata⟩ := ongoing_data S B hstate during hduring
  refine ⟨hcontext, hongoing, ?_⟩
  rw [final_cons] at hd₂
  rw [← hd₂, hempty, List.nil_append] at hdata
  rw [← hd₂] at hactive
  -- the call that ends it
  have hend : tail = d₂.waitBuff ++ d₂.heard S last := by
    have heffect := effect_call S B d₂ last
    rw [hlast] at heffect
    generalize (d₂.call S B last).2 = d' at heffect
    cases heffect with
    | stop => rfl
    | cut _ hne => simp [hactive] at hne
  rw [hend, ← List.append_assoc, hdata]

section Frames

open SherpaVadDetector (goWithScript scriptedSherpa lastBytes)

/-- Frames of one byte, from a first one on. -/
def byteFrames (first count : ℕ) : List Call :=
  (List.range count).map fun i => .processFrame [UInt8.ofNat (first + i)] []

/-- Thirteen active frames recognise an utterance, the next one begins it, and three more are
heard, of which the second fills the first `VoiceOngoing`. -/
theorem utterance_data_frames :
    let d₀ := (goWithScript (List.replicate 17 true)).initializeDetector
      scriptedSherpa lastBytes 15000
    let d₁ := final (call scriptedSherpa lastBytes) d₀ (byteFrames 0 13)
    let d' := (d₁.call scriptedSherpa lastBytes (.processFrame [13] [])).2
    let during := [.processFrame [14] [], .processFrame (List.replicate 3199 15) [],
      .processFrame [16] []]
    (d'.events scriptedSherpa lastBytes during).map Event.type = [.voiceOngoing] ∧
      (d'.events scriptedSherpa lastBytes during).flatMap Event.data ++ [16]
        = d'.heards scriptedSherpa lastBytes during ++ [] := by
  intro d₀ d₁ d' during
  have hfirst : (d₁.call scriptedSherpa lastBytes (.processFrame [13] [])).1
      = [{ type := .voiceBegin, data := (List.range 14).map UInt8.ofNat }] := by decide +kernel
  have hlast : ((final (call scriptedSherpa lastBytes) d₁
      (.processFrame [13] [] :: during)).call scriptedSherpa lastBytes .forceEnd).1
      = [{ type := .voiceEnd, data := [16] }] := by decide +kernel
  exact ⟨by decide +kernel, (utterance_data scriptedSherpa lastBytes
    (goWithScript (List.replicate 17 true)) 15000 (byteFrames 0 13) during (.processFrame [13] [])
    .forceEnd rfl hfirst (by decide +kernel) rfl hlast).2.2⟩

end Frames

end Detector

end Go

end VadService
