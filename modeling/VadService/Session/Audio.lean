import VadService.Session.Basic
import VadService.Base64.Codec
import VadService.Lib.Machine

set_option autoImplicit false

/-! # The audio of a segment

What a session has sent determines what it has buffered: `openSegment` collects the audio of
the messages since the last `VAD_BEGIN`, and `AudioInv` says that `audio_buffer_` holds just
that. So the audio of a `VAD_END` is the audio of the messages it closes and of its own
packet, for every engine (`process_audio_exact`).
-/

namespace VadService

open Machine

/-- The audio of the segment that a sequence of messages leaves open, if it does: the audio
of the last `VAD_BEGIN` and of every `SPEAKING` since then. -/
def segmentAudio (messages : List (String × List UInt8)) : Option (List UInt8) :=
  messages.foldl (fun acc m =>
    if m.1 = "VAD_BEGIN" then some m.2
    else if m.1 = "SPEAKING" then acc.map (· ++ m.2)
    else none) none

section Messages

variable (messages : List (String × List UInt8)) {m : String × List UInt8}

theorem segmentAudio_begin (h : m.1 = "VAD_BEGIN") :
    segmentAudio (messages ++ [m]) = some m.2 := by
  simp [segmentAudio, h]

theorem segmentAudio_speaking (h : m.1 = "SPEAKING") :
    segmentAudio (messages ++ [m]) = (segmentAudio messages).map (· ++ m.2) := by
  simp [segmentAudio, h]

theorem segmentAudio_closed (h : m.1 = "SILENCE" ∨ m.1 = "VAD_END") :
    segmentAudio (messages ++ [m]) = none := by
  rcases h with h | h <;> simp [segmentAudio, h]

end Messages

namespace Session

variable {E H : Type}

/-- The decoded audio of the segment the responses leave open. -/
def openSegment (responses : List VadResponse) : Option (List UInt8) :=
  segmentAudio (responses.map fun r => (r.vadState, Base64.read r.vadAudio))

/-- The packets of the segment the responses leave open. -/
def openPackets (responses : List VadResponse) (packets : List (List UInt8 × ℕ)) :
    Option (List UInt8) :=
  segmentAudio ((responses.map VadResponse.vadState).zip (packets.map Prod.fst))

/-- The segment stays below `2^32` bytes with the packet. -/
def FitsBuffer (s : Session E H) (packet : List UInt8 × ℕ) : Prop :=
  s.audioBuffer.length + packet.1.length < 2 ^ 32

theorem read_encodeAll {v : List UInt8} (h : v.length < 2 ^ 32) :
    Base64.read (encodeAll v) = v := by
  rw [encodeAll, Base64.read_encode, Nat.mod_eq_of_lt h, List.take_length]

/-- The buffer holds the open segment, by the messages and by the packets. -/
inductive AudioInv (responses : List VadResponse) (packets : List (List UInt8 × ℕ))
    (s : Session E H) : Prop
  | idle : s.lastState = .silence → s.audioBuffer = [] → openSegment responses = none →
      openPackets responses packets = none → AudioInv responses packets s
  | open_ : s.lastState = .speaking → openSegment responses = some s.audioBuffer →
      openPackets responses packets = some s.audioBuffer → AudioInv responses packets s

theorem audioInv_new (id : String) (hdl : H) (e : E) : AudioInv [] [] (new id hdl e) :=
  .idle rfl rfl rfl rfl

section Step

variable {responses : List VadResponse} {packets : List (List UInt8 × ℕ)}
  {packet : List UInt8 × ℕ} {r : VadResponse}

theorem openSegment_append : openSegment (responses ++ [r])
    = segmentAudio ((responses.map fun r => (r.vadState, Base64.read r.vadAudio)) ++
        [(r.vadState, Base64.read r.vadAudio)]) := by
  rw [openSegment, List.map_append, List.map_singleton]

theorem openPackets_append (hlen : responses.length = packets.length) :
    openPackets (responses ++ [r]) (packets ++ [packet])
      = segmentAudio ((responses.map VadResponse.vadState).zip (packets.map Prod.fst) ++
          [(r.vadState, packet.1)]) := by
  rw [openPackets, List.map_append, List.map_append, List.zip_append (by simpa using hlen)]
  rfl

theorem AudioInv.openSegment_getD {s : Session E H} (h : AudioInv responses packets s) :
    (openSegment responses).getD [] = s.audioBuffer := by
  cases h with
  | idle _ hbuf hseg _ => rw [hseg, hbuf, Option.getD_none]
  | open_ _ hseg _ => rw [hseg, Option.getD_some]

/-- Answering a packet keeps the invariant. A session that remembers silence answers with
no `SPEAKING`. -/
theorem AudioInv.respond {s : Session E H} (h : AudioInv responses packets s)
    (hlen : responses.length = packets.length) (hfits : FitsBuffer s packet) {state : VadState}
    (hstate : state = .speaking → s.lastState ≠ .silence) :
    AudioInv (responses ++ [(s.respond packet.1 packet.2 state).1]) (packets ++ [packet])
      (s.respond packet.1 packet.2 state).2 := by
  have hraw : packet.1.length < 2 ^ 32 := lt_of_le_of_lt (Nat.le_add_left _ _) hfits
  cases state with
  | startSpeaking =>
      refine .open_ rfl ?_ ?_
      · rw [openSegment_append, segmentAudio_begin _ rfl]
        exact congrArg some (read_encodeAll hraw)
      · rw [openPackets_append hlen, segmentAudio_begin _ rfl]
        rfl
  | speaking =>
      cases h with
      -- `process_audio` has rewritten this `SPEAKING`
      | idle hsil => exact absurd hsil (hstate rfl)
      | open_ _ hseg hpkt =>
          refine .open_ rfl ?_ ?_
          · rw [openSegment_append, segmentAudio_speaking _ rfl, ← openSegment, hseg,
              Option.map_some]
            exact congrArg (fun v => some (s.audioBuffer ++ v)) (read_encodeAll hraw)
          · rw [openPackets_append hlen, segmentAudio_speaking _ rfl, ← openPackets, hpkt,
              Option.map_some]
            rfl
  | endSpeaking =>
      refine .idle rfl rfl ?_ ?_
      · rw [openSegment_append, segmentAudio_closed _ (Or.inr rfl)]
      · rw [openPackets_append hlen, segmentAudio_closed _ (Or.inr rfl)]
  | silence =>
      refine .idle rfl rfl ?_ ?_
      · rw [openSegment_append, segmentAudio_closed _ (Or.inl rfl)]
      · rw [openPackets_append hlen, segmentAudio_closed _ (Or.inl rfl)]

end Step

theorem currentState_ne_silence (s : Session E H) (state : VadState)
    (h : s.currentState state = .speaking) : s.lastState ≠ .silence := by
  intro hsil
  rw [currentState] at h
  split_ifs at h with hc
  exact hc ⟨h, hsil⟩

variable {V : IVadEngine E}

/-- **The buffer holds the open segment**, after every run. -/
theorem audioInv_run (id : String) (hdl : H) (e : E) (packets : List (List UInt8 × ℕ))
    (hfits : Along (audioStep V) FitsBuffer (new id hdl e) packets) :
    AudioInv (outputs (audioStep V) (new id hdl e) packets) packets
      (final (audioStep V) (new id hdl e) packets) := by
  induction packets using List.reverseRecOn with
  | nil => exact audioInv_new id hdl e
  | append_singleton packets packet ih =>
      rw [along_append] at hfits
      obtain ⟨hfits, hlast, -⟩ := hfits
      rw [outputs_append, final_append]
      generalize hs : final (audioStep V) (new id hdl e) packets = s at ih hlast ⊢
      -- the engine moves on, and the answer does not depend on it
      have hinv : AudioInv (outputs (audioStep V) (new id hdl e) packets) packets
          { s with vadEngine := (V.processFrame s.vadEngine (toFloatAudio packet.1)).2 } := by
        cases ih hfits with
        | idle h1 h2 h3 h4 => exact .idle h1 h2 h3 h4
        | open_ h1 h2 h3 => exact .open_ h1 h2 h3
      exact hinv.respond (length_outputs (audioStep V) _ _) hlast
        (currentState_ne_silence _ _)

/-- The audio of a `VAD_END`. -/
theorem vadAudio_of_end {s : Session E H} {rawData : List UInt8} {now : ℕ}
    (h : (s.processAudio V rawData now).1.vadState = "VAD_END") :
    (s.processAudio V rawData now).1.vadAudio = encodeAll (s.audioBuffer ++ rawData) := by
  rw [processAudio_vadState] at h
  have hend : s.answered V rawData = .endSpeaking := VadState.label_injective h
  rw [processAudio_eq, hend]
  rfl

/-- The buffer is empty after a message that leaves no segment open. -/
theorem audioBuffer_of_closed {s : Session E H} {rawData : List UInt8} {now : ℕ}
    (h : (s.processAudio V rawData now).1.vadState = "SILENCE" ∨
      (s.processAudio V rawData now).1.vadState = "VAD_END") :
    (s.processAudio V rawData now).2.audioBuffer = [] := by
  rw [processAudio_vadState] at h
  rcases h with h | h
  · have hsil : s.answered V rawData = .silence := VadState.label_injective h
    rw [processAudio_eq, hsil]
    rfl
  · have hend : s.answered V rawData = .endSpeaking := VadState.label_injective h
    rw [processAudio_eq, hend]
    rfl

/-- The session remembers silence only after such a message. -/
theorem closed_of_lastState {s : Session E H} {rawData : List UInt8} {now : ℕ}
    (h : (s.processAudio V rawData now).2.lastState = .silence) :
    (s.processAudio V rawData now).1.vadState = "SILENCE" ∨
      (s.processAudio V rawData now).1.vadState = "VAD_END" := by
  rw [processAudio_lastState] at h
  rw [processAudio_vadState]
  cases hst : s.answered V rawData with
  | silence => exact Or.inl rfl
  | endSpeaking => exact Or.inr rfl
  | startSpeaking => simp [hst, VadState.remembered] at h
  | speaking => simp [hst, VadState.remembered] at h

/-- **Segment audio is byte-exact for any engine.** Take any run whose segments stay below
`2^32` bytes and look at its last packet. If it is answered with a `VAD_END`, the audio of
this message stands for the audio of the `VAD_BEGIN` and `SPEAKING` messages of the segment
and the packet; the decoder of the service reads it so too, if its length fits an `int`. The
buffer is empty after a `SILENCE` or a `VAD_END`, and otherwise holds the packets since the
`VAD_BEGIN`. -/
theorem process_audio_exact (V : IVadEngine E) (id : String) (hdl : H) (e : E)
    (before : List (List UInt8 × ℕ)) (packet : List UInt8 × ℕ)
    (hfits : Along (audioStep V) FitsBuffer (new id hdl e) (before ++ [packet]))
    {s : Session E H} (hs : s = final (audioStep V) (new id hdl e) before)
    {responses : List VadResponse}
    (hr : responses = outputs (audioStep V) (new id hdl e) before)
    {r : VadResponse} {s' : Session E H} (hstep : audioStep V s packet = (r, s')) :
    (r.vadState = "VAD_END" →
      Base64.read r.vadAudio = (openSegment responses).getD [] ++ packet.1 ∧
        (r.vadAudio.length < 2 ^ 31 →
          Base64.decode r.vadAudio = (openSegment responses).getD [] ++ packet.1)) ∧
    (r.vadState = "SILENCE" ∨ r.vadState = "VAD_END" → s'.audioBuffer = []) ∧
    (¬ (r.vadState = "SILENCE" ∨ r.vadState = "VAD_END") →
      openPackets (responses ++ [r]) (before ++ [packet]) = some s'.audioBuffer) := by
  have hlast := (along_append _ _ _ _ _).mp hfits
  have hinv := audioInv_run id hdl e before hlast.1
  have hall := audioInv_run id hdl e (before ++ [packet]) hfits
  rw [outputs_append, final_append] at hall
  rw [← hr, ← hs] at hinv hall
  have hfit : FitsBuffer s packet := hs ▸ hlast.2.1
  have hr1 : (s.processAudio V packet.1 packet.2).1 = r := congrArg Prod.fst hstep
  have hs1 : (s.processAudio V packet.1 packet.2).2 = s' := congrArg Prod.snd hstep
  refine ⟨?_, ?_, ?_⟩
  · intro hend
    have haudio : r.vadAudio = encodeAll ((openSegment responses).getD [] ++ packet.1) := by
      rw [hinv.openSegment_getD, ← hr1]
      exact vadAudio_of_end (hr1 ▸ hend)
    have hread : Base64.read r.vadAudio = (openSegment responses).getD [] ++ packet.1 := by
      rw [haudio, read_encodeAll]
      rw [hinv.openSegment_getD, List.length_append]
      exact hfit
    exact ⟨hread, fun hlen => (Base64.decode_eq_read _ hlen).trans hread⟩
  · intro hclosed
    rw [← hs1]
    exact audioBuffer_of_closed (hr1 ▸ hclosed)
  · intro hopen
    have hstate : AudioInv (responses ++ [r]) (before ++ [packet]) s' := by
      rw [← hr1, ← hs1]
      exact hall
    cases hstate with
    | open_ _ _ hpkt => exact hpkt
    | idle hsil => exact absurd (hr1 ▸ closed_of_lastState (hs1.symm ▸ hsil)) hopen

/-- An engine that reports the states of a script. -/
def scriptedStates : IVadEngine (List VadState) where
  processFrame script _ := (⟨script.headD .silence, F32.zero, ""⟩, script.tail)
  reset script := script

theorem process_audio_exact_segment :
    let s := final (audioStep scriptedStates)
      (new "" () [.startSpeaking, .speaking, .endSpeaking]) [([1], 0), ([2], 0)]
    Base64.read (audioStep scriptedStates s ([3], 0)).1.vadAudio = [1, 2, 3] := by
  have hfits : Along (audioStep scriptedStates) FitsBuffer
      (new "" () [.startSpeaking, .speaking, .endSpeaking])
      ([([1], 0), ([2], 0)] ++ [([3], 0)]) := by
    simp only [List.cons_append, List.nil_append, along_cons, along_nil, and_true, FitsBuffer]
    decide
  have h := process_audio_exact scriptedStates "" () [.startSpeaking, .speaking, .endSpeaking]
    [([1], 0), ([2], 0)] ([3], 0) hfits rfl rfl rfl
  exact (h.1 (by decide)).1.trans (by decide +kernel)

end Session

end VadService
