import VadService.Session.Packets
import VadService.Lib.Lockstep

set_option autoImplicit false

/-! # Engines that tell of every edge

An engine is inside of an utterance or not, before a call and after it. If the answers of a
session always tell which (`TellsEdge`), then it keeps the protocol (`protocol_of_edges`), and
the audio of a `VAD_END` is that of the packets since the `VAD_BEGIN` (`end_audio_of_edges`).
Both engines tell of every edge as long as the packets are small.
-/

namespace VadService

open Machine

/-! ## The packets of a segment -/

/-- The audio of an open segment is that of its messages: a `VAD_BEGIN` and `SPEAKING`s. -/
theorem segmentAudio_eq_some {messages : List (String × List UInt8)} {audio : List UInt8}
    (h : segmentAudio messages = some audio) :
    ∃ earlier first rest, messages = earlier ++ first :: rest ∧ first.1 = "VAD_BEGIN" ∧
      (∀ m ∈ rest, m.1 = "SPEAKING") ∧ audio = ((first :: rest).map Prod.snd).flatten := by
  induction messages using List.reverseRecOn generalizing audio with
  | nil => cases h
  | append_singleton messages m ih =>
      by_cases hbegin : m.1 = "VAD_BEGIN"
      · rw [segmentAudio_begin _ hbegin] at h
        cases h
        exact ⟨messages, m, [], rfl, hbegin, by simp, by simp⟩
      · by_cases hspeaking : m.1 = "SPEAKING"
        · rw [segmentAudio_speaking _ hspeaking] at h
          obtain ⟨old, hold, rfl⟩ := Option.map_eq_some_iff.mp h
          obtain ⟨earlier, first, rest, rfl, hfirst, hrest, rfl⟩ := ih hold
          refine ⟨earlier, first, rest ++ [m], by simp, hfirst, ?_, by simp⟩
          intro x hx
          rcases List.mem_append.mp hx with hx | hx
          · exact hrest x hx
          · rw [List.mem_singleton.mp hx]
            exact hspeaking
        · -- any other message leaves no segment open
          have hnone : segmentAudio (messages ++ [m]) = none := by
            simp [segmentAudio, hbegin, hspeaking]
          rw [hnone] at h
          cases h

namespace Session

variable {E H : Type} {V : IVadEngine E}

/-! ## What the buffer holds -/

/-- The buffer is the end of the stream, whatever the engine reports. -/
theorem audioBuffer_suffix (id : String) (hdl : H) (e : E) (packets : List (List UInt8 × ℕ)) :
    (final (audioStep V) (new id hdl e) packets).audioBuffer <:+ streamBytes packets := by
  induction packets using List.reverseRecOn with
  | nil => exact List.suffix_rfl
  | append_singleton packets packet ih =>
      rw [final_append, final_cons, final_nil, audioStep_audioBuffer, streamBytes_append]
      cases answered V (final (audioStep V) (new id hdl e) packets) packet.1 with
      | startSpeaking => exact List.suffix_append _ _
      | speaking => exact suffix_append ih packet.1
      | endSpeaking => exact List.nil_suffix
      | silence => exact List.nil_suffix

/-- The segments of a short stream fit the buffer. -/
theorem fitsBuffer_of_stream (id : String) (hdl : H) (e : E) {packets : List (List UInt8 × ℕ)}
    (hB : (streamBytes packets).length < 2 ^ 32) :
    Along (audioStep V) FitsBuffer (new id hdl e) packets := by
  rw [along_iff_forall]
  intro k hk
  have hsplit : streamBytes packets = streamBytes (packets.take k)
      ++ (packets[k].1 ++ streamBytes (packets.drop (k + 1))) := by
    calc streamBytes packets
        = streamBytes (packets.take k ++ packets[k] :: packets.drop (k + 1)) := by
          rw [← List.drop_eq_getElem_cons hk, List.take_append_drop]
      _ = _ := by
          simp only [streamBytes, List.map_append, List.map_cons, List.flatten_append,
            List.flatten_cons]
  have hlen := congrArg List.length hsplit
  rw [List.length_append, List.length_append] at hlen
  have hle := (audioBuffer_suffix (V := V) id hdl e (packets.take k)).length_le
  rw [FitsBuffer]
  omega

/-! ## The protocol -/

/-- The answer to the packet tells whether the engine was inside of an utterance, and whether
it is now. -/
def TellsEdge (V : IVadEngine E) (inside : E → Bool) (s : Session E H)
    (packet : List UInt8 × ℕ) : Prop :=
  s.answered V packet.1
    = edgeAnswer (inside s.vadEngine) (inside (audioStep V s packet).2.vadEngine)

/-- `last_state_` is `SPEAKING` inside of an utterance, and `SILENCE` otherwise. -/
def Synced (inside : E → Bool) (s : Session E H) : Prop :=
  s.lastState = if inside s.vadEngine then .speaking else .silence

variable {inside : E → Bool} {s : Session E H} {packet : List UInt8 × ℕ}

theorem TellsEdge.synced (h : TellsEdge V inside s packet) :
    Synced inside (audioStep V s packet).2 := by
  have hlast : (audioStep V s packet).2.lastState = (s.answered V packet.1).remembered :=
    processAudio_lastState V s packet.1 packet.2
  rw [Synced, hlast, h]
  cases inside s.vadEngine <;> cases inside (audioStep V s packet).2.vadEngine <;> rfl

/-- An engine that reports the edges of its calls tells of them through the session. -/
theorem Synced.tellsEdge (h : Synced inside s)
    (hreport : (V.processFrame s.vadEngine (toFloatAudio packet.1)).1.state
      = edgeAnswer (inside s.vadEngine)
          (inside (V.processFrame s.vadEngine (toFloatAudio packet.1)).2)) :
    TellsEdge V inside s packet := by
  rw [TellsEdge, audioStep_vadEngine, answered, currentState, hreport, h]
  cases inside s.vadEngine <;>
    cases inside (V.processFrame s.vadEngine (toFloatAudio packet.1)).2 <;> rfl

/-- The states of the answers are read one by one. -/
theorem exec_of_edges {packets : List (List UInt8 × ℕ)}
    (h : Along (audioStep V) (TellsEdge V inside) s packets) :
    exec protocol.next (inside s.vadEngine) (s.emitted V packets)
      = some (inside (final (audioStep V) s packets).vadEngine) := by
  induction packets generalizing s with
  | nil => rfl
  | cons packet packets ih =>
      obtain ⟨hedge, hrest⟩ := h
      have hnext : protocol.next (inside s.vadEngine) (audioStep V s packet).1.vadState
          = some (inside (audioStep V s packet).2.vadEngine) := by
        rw [audioStep_vadState, hedge]
        cases inside s.vadEngine <;> cases inside (audioStep V s packet).2.vadEngine <;> rfl
      rw [emitted, outputs_cons, List.map_cons, exec_cons, hnext, Option.bind_some, final_cons]
      exact ih hrest

/-- **A session that tells of every edge keeps the protocol.** -/
theorem protocol_of_edges {packets : List (List UInt8 × ℕ)}
    (hstart : inside s.vadEngine = false)
    (h : Along (audioStep V) (TellsEdge V inside) s packets) :
    protocol.IsPrefix (s.emitted V packets) := by
  rw [protocol.isPrefix_iff, ← hstart]
  exact ⟨_, exec_of_edges h⟩

/-! ## The audio -/

/-- The states of a session with the packets they answer. -/
def transcript (V : IVadEngine E) (s : Session E H) (packets : List (List UInt8 × ℕ)) :
    List (String × List UInt8) :=
  (s.emitted V packets).zip (packets.map Prod.fst)

/-- **The audio of a `VAD_END`** is that of the packets since the `VAD_BEGIN`. -/
theorem end_audio_of_edges (id : String) (hdl : H) {e : E} (hstart : inside e = false)
    {before : List (List UInt8 × ℕ)}
    (h : Along (audioStep V) (TellsEdge V inside) (new id hdl e) (before ++ [packet]))
    (hB : (streamBytes (before ++ [packet])).length < 2 ^ 32)
    (hs : s = final (audioStep V) (new id hdl e) before)
    (hend : (audioStep V s packet).1.vadState = "VAD_END") :
    ∃ earlier first rest,
      (new id hdl e).transcript V before = earlier ++ first :: rest ∧
      first.1 = "VAD_BEGIN" ∧ (∀ m ∈ rest, m.1 = "SPEAKING") ∧
      Base64.read (audioStep V s packet).1.vadAudio
        = ((first :: rest).map Prod.snd).flatten ++ packet.1 := by
  obtain ⟨hbefore, hlast, -⟩ := (along_append _ _ _ _ _).mp h
  rw [← hs] at hlast
  rw [streamBytes_append, List.length_append] at hB
  have hsync : Synced inside s := by
    subst hs
    cases before using List.reverseRecOn with
    | nil => simp [Synced, new, hstart]
    | append_singleton before last =>
        rw [final_append, final_cons, final_nil]
        exact (((along_append _ _ _ _ _).mp hbefore).2.1).synced
  have hanswer : s.answered V packet.1 = .endSpeaking := by
    rw [audioStep_vadState] at hend
    exact VadState.label_injective hend
  have hopen : s.lastState = .speaking := by
    rw [hlast] at hanswer
    have hinside : inside s.vadEngine = true := by
      revert hanswer
      cases inside s.vadEngine <;> cases inside (audioStep V s packet).2.vadEngine <;>
        simp [edgeAnswer]
    rw [hsync, hinside, if_pos rfl]
  have hsuffix : s.audioBuffer <:+ streamBytes before := hs ▸ audioBuffer_suffix id hdl e before
  have hlen := hsuffix.length_le
  have haudio : Base64.read (audioStep V s packet).1.vadAudio = s.audioBuffer ++ packet.1 := by
    have hraw : (audioStep V s packet).1.vadAudio = encodeAll (s.audioBuffer ++ packet.1) :=
      vadAudio_of_end hend
    rw [hraw]
    apply read_encodeAll
    rw [List.length_append]
    omega
  have hinv : AudioInv _ before s :=
    hs ▸ audioInv_run id hdl e before (fitsBuffer_of_stream id hdl e (by omega))
  cases hinv with
  | idle hidle => cases hopen.symm.trans hidle
  | open_ _ _ hpackets =>
      obtain ⟨earlier, first, rest, hmessages, hfirst, hrest, hbuffer⟩ :=
        segmentAudio_eq_some hpackets
      exact ⟨earlier, first, rest, hmessages, hfirst, hrest, by rw [haudio, hbuffer]⟩

end Session

end VadService
