import VadService.Session.Small
import VadService.Server.Names

set_option autoImplicit false

/-! # What a client is told

A client that sends whole samples, at most a window of them in a message, is answered with
segments, whatever the other clients and the threads do: the states of its responses are
`SILENCE`s and segments from a `VAD_BEGIN` over `SPEAKING`s to a `VAD_END`, and the audio of a
`VAD_END` is that of the messages of its segment, byte for byte (`conversation`). The names in
the messages have no part in it (`outputs_serve`).
-/

namespace VadService

open Machine SileroVadEngine

namespace Session

variable {E H : Type} {V : IVadEngine E}

/-- What a response says of the audio. -/
def voice (r : VadResponse) : String × String := (r.vadState, r.vadAudio)

theorem voice_of_anonymous {r r' : VadResponse} (h : r.anonymous = r'.anonymous) :
    voice r = voice r' := by
  have hvoice : voice r.anonymous = voice r'.anonymous := congrArg voice h
  exact hvoice

/-- A session that is served tasks says of the audio what it says when it is given their
audio alone. -/
theorem outputs_serve (s t : Session E H) (h : s.anonymous = t.anonymous)
    (inputs : List (AudioTask H × ℕ)) :
    (outputs (serve V) s inputs).map voice
      = (outputs (audioStep V) t (inputs.map fun input => (input.1.data, input.2))).map voice := by
  induction inputs generalizing s t with
  | nil => rfl
  | cons input inputs ih =>
      obtain ⟨hresp, hnext⟩ := serve_anonymous (V := V) s input.1 input.2
      obtain ⟨hresp', hnext'⟩ := processAudio_anonymous (V := V) t input.1.data input.2
      rw [h] at hresp hnext
      rw [outputs_cons, List.map_cons, List.map_cons, outputs_cons, List.map_cons]
      refine congrArg₂ List.cons (voice_of_anonymous (hresp.trans hresp'.symm)) ?_
      exact ih _ _ (hnext.trans hnext'.symm)

end Session

/-- The server as `main` runs it: its sessions have Silero engines with the default
parameters. -/
def sileroEnv {σ : Type} (parse : List UInt8 → Except JsonException Json) (run : OrtRun σ)
    (session : σ) : Env (SileroVadEngine σ) where
  parse := parse
  engine := SileroVadEngine.engine run
  vadEngine := SileroVadEngine.new session 16000 32 SileroVadEngine.windowSize_default

/-- The packet of an answer. -/
def Answer.packet {H : Type} (answer : Answer H) : List UInt8 × ℕ :=
  (answer.task.data, answer.now)

/-- What a client has sent and was told. -/
def Answer.turn {H : Type} (answer : Answer H) : String × List UInt8 :=
  (answer.response.vadState, answer.task.data)

namespace System

variable {H σ : Type} [DecidableEq H] {parse : List UInt8 → Except JsonException Json}
  {run : OrtRun σ} {session : σ} {st : System (SileroVadEngine σ) H}

/-- The responses of a client are those of one session that is given its packets. -/
theorem voices_eq (h : Reaches (step (sileroEnv parse run session)) init st) (hdl : H) :
    (st.answersOf hdl).map (fun answer => Session.voice answer.response)
      = (outputs (Session.audioStep (engine run)) (Session.silero "" hdl session)
          ((st.answersOf hdl).map Answer.packet)).map Session.voice := by
  obtain ⟨skipped, uid, hl, hf⟩ := (simulates_of_reaches h).client hdl
  have hrun := Session.outputs_serve (V := engine run) (Session.silero uid hdl session)
    (Session.silero "" hdl session) rfl (st.inputsOf hdl)
  rw [inputsOf, List.map_map] at hrun
  calc (st.answersOf hdl).map (fun answer => Session.voice answer.response)
      = ((st.answersOf hdl).map Answer.response).map Session.voice := by rw [List.map_map]; rfl
    _ = _ := by
        rw [hf.responses]
        exact hrun

/-- The packets of the answers are small, and short of `2^32` bytes together. -/
theorem packets_small (h : Reaches (step (sileroEnv parse run session)) init st) {hdl : H}
    (hone : ∀ task ∈ st.tasksOf hdl, Even task.data.length ∧ task.data.length / 2 ≤ 512)
    (hB : (((st.tasksOf hdl).map AudioTask.data).flatten.length : ℤ) < 2 ^ 32) :
    (∀ p ∈ (st.answersOf hdl).map Answer.packet, Session.OneWindow p) ∧
      ((Session.streamBytes ((st.answersOf hdl).map Answer.packet)).length : ℤ) < 2 ^ 32 := by
  obtain ⟨skipped, uid, hl, -⟩ := (simulates_of_reaches h).client hdl
  obtain ⟨rest, hrest⟩ := hl.map_task_isPrefix
  constructor
  · intro p hp
    obtain ⟨answer, hanswer, rfl⟩ := List.mem_map.mp hp
    refine hone answer.task ?_
    rw [← hrest]
    exact List.mem_append_left _ (List.mem_map_of_mem hanswer)
  · have hstream : Session.streamBytes ((st.answersOf hdl).map Answer.packet)
        = (((st.answersOf hdl).map Answer.task).map AudioTask.data).flatten := by
      rw [Session.streamBytes, List.map_map, List.map_map]
      rfl
    rw [← hrest, List.map_append, List.flatten_append, List.length_append] at hB
    push_cast at hB
    rw [hstream]
    omega

/-- **Every client that sends small messages hears segments**, over all interleavings: the
states of its responses form a prefix of a word of the protocol, and the audio of a `VAD_END`
is that of the messages from the last `VAD_BEGIN` to this one. -/
theorem conversation (h : Reaches (step (sileroEnv parse run session)) init st) (hdl : H)
    (hone : ∀ task ∈ st.tasksOf hdl, Even task.data.length ∧ task.data.length / 2 ≤ 512)
    (hB : (((st.tasksOf hdl).map AudioTask.data).flatten.length : ℤ) < 2 ^ 32) :
    protocol.IsPrefix ((st.answersOf hdl).map fun answer => answer.response.vadState) ∧
    ∀ before answer after, st.answersOf hdl = before ++ answer :: after →
      answer.response.vadState = "VAD_END" →
      ∃ earlier first rest, before = earlier ++ first :: rest ∧
        first.response.vadState = "VAD_BEGIN" ∧
        (∀ m ∈ rest, m.response.vadState = "SPEAKING") ∧
        Base64.read answer.response.vadAudio
          = ((first :: rest ++ [answer]).map fun a => a.task.data).flatten := by
  have hvoices := voices_eq h hdl
  obtain ⟨hsmall, htotal⟩ := packets_small h hone hB
  constructor
  · have hstates := congrArg (List.map Prod.fst) hvoices
    rw [List.map_map, List.map_map] at hstates
    rw [show (st.answersOf hdl).map (fun answer => answer.response.vadState)
      = (Session.silero "" hdl session).emitted (engine run)
        ((st.answersOf hdl).map Answer.packet) from hstates]
    exact Session.protocol_of_small run "" hdl session hsmall
  · intro before answer after hsplit hend
    rw [hsplit, List.map_append, List.map_append, List.map_cons, List.map_cons, outputs_append,
      List.map_append] at hvoices
    rw [hsplit, List.map_append, List.map_cons] at hsmall htotal
    have hlen : (before.map fun a => Session.voice a.response).length
        = ((outputs (Session.audioStep (engine run)) (Session.silero "" hdl session)
          (before.map Answer.packet)).map Session.voice).length := by simp
    obtain ⟨hbefore, hlast⟩ := List.append_inj hvoices hlen
    rw [outputs_cons, List.map_cons] at hlast
    have hvoice := (List.cons.inj hlast).1
    have hstate := congrArg Prod.fst hvoice
    have haudio : answer.response.vadAudio = _ := congrArg Prod.snd hvoice
    have htranscript : (Session.silero "" hdl session).transcript (engine run)
        (before.map Answer.packet) = before.map Answer.turn := by
      have hstates := congrArg (List.map Prod.fst) hbefore
      rw [List.map_map, List.map_map] at hstates
      rw [Session.transcript, show (Session.silero "" hdl session).emitted (engine run)
          (before.map Answer.packet) = before.map (fun a => a.response.vadState)
        from hstates.symm, List.map_map, List.zip_map']
      rfl
    have hprefix : ∀ p ∈ before.map Answer.packet ++ [answer.packet], Session.OneWindow p := by
      intro p hp
      refine hsmall p ?_
      rcases List.mem_append.mp hp with hp | hp
      · exact List.mem_append_left _ hp
      · exact List.mem_append_right _ (List.mem_singleton.mp hp ▸ List.mem_cons_self)
    have hpart : ((Session.streamBytes (before.map Answer.packet ++ [answer.packet])).length : ℤ)
        < 2 ^ 32 := by
      rw [Session.streamBytes, List.map_append, List.map_cons, List.flatten_append,
        List.flatten_cons, List.length_append, List.length_append] at htotal
      rw [Session.streamBytes_append, Session.streamBytes, List.length_append]
      push_cast at htotal ⊢
      omega
    obtain ⟨earlier, first, rest, hmessages, hfirst, hrest, hread⟩ :=
      Session.end_audio_of_small run "" hdl session hprefix hpart rfl (hstate.symm.trans hend)
    rw [htranscript] at hmessages
    obtain ⟨earlier', tail, rfl, rfl, htail⟩ := List.map_eq_append_iff.mp hmessages
    obtain ⟨first', rest', rfl, rfl, rfl⟩ := List.map_eq_cons_iff.mp htail
    refine ⟨earlier', first', rest', rfl, hfirst, ?_, ?_⟩
    · intro m hm
      exact hrest m.turn (List.mem_map_of_mem hm)
    · rw [haudio]
      refine hread.trans ?_
      have hdata : (first'.turn :: rest'.map Answer.turn).map Prod.snd
          = (first' :: rest').map fun a => a.task.data := by
        rw [← List.map_cons, List.map_map]
        rfl
      rw [hdata, List.map_append, List.flatten_append, List.map_singleton,
        List.flatten_singleton]
      rfl

/-- A message that is served before the next one comes. -/
def turn (hdl : Bool) (data : List UInt8) (now : ℕ) : List (Action Bool) :=
  [.receive hdl ⟨.binary, data⟩, .handle, .pop, .lookup, .process now, .send true, .test]

/-- One client sends thirteen windows, another a sample in front of each of them. -/
def smallMessages : List (Action Bool) :=
  [.setRunning, .spawn, .test, .listen, .openConn false, .openConn true]
    ++ (List.range 13).flatMap fun i => turn false [2, 0] i ++ turn true (List.replicate 1024 1) i

theorem conversation_smallMessages : ∃ st : System (SileroVadEngine (List F32)) Bool,
    exec (step (sileroEnv (fun _ => .error .parseError) VadIterator.scripted
        Session.speechThenSilence)) init smallMessages = some st ∧
      ((st.answersOf true).map fun answer => answer.response.vadState)
        = "VAD_BEGIN" :: List.replicate 11 "SPEAKING" ++ ["VAD_END"] ∧
      ∃ earlier first rest answer, st.answersOf true = earlier ++ first :: rest ++ [answer] ∧
        first.response.vadState = "VAD_BEGIN" ∧
        Base64.read answer.response.vadAudio
          = ((first :: rest ++ [answer]).map fun a => a.task.data).flatten := by
  have hrun : (exec (step (sileroEnv (fun _ => .error .parseError) VadIterator.scripted
      Session.speechThenSilence)) (init : System (SileroVadEngine (List F32)) Bool)
      smallMessages).map (fun st => ((st.tasksOf true).map AudioTask.data,
        (st.answersOf true).map fun answer => answer.response.vadState))
      = some (List.replicate 13 (List.replicate 1024 1),
        "VAD_BEGIN" :: List.replicate 11 "SPEAKING" ++ ["VAD_END"]) := by
    decide +kernel
  obtain ⟨st, hexec, hpair⟩ := Option.map_eq_some_iff.mp hrun
  obtain ⟨htasks, hstates⟩ := Prod.mk.inj hpair
  refine ⟨st, hexec, hstates, ?_⟩
  obtain ⟨before, last, hsplit, -, hlast⟩ := List.map_eq_append_iff.mp hstates
  obtain ⟨answer, rfl, hend⟩ := List.map_eq_singleton_iff.mp hlast
  have hdata : ∀ task ∈ st.tasksOf true, task.data.length = 1024 := by
    intro task htask
    have hmem := List.mem_map_of_mem (f := AudioTask.data) htask
    rw [htasks] at hmem
    rw [List.eq_of_mem_replicate hmem, List.length_replicate]
  obtain ⟨earlier, first, rest, hbefore, hfirst, -, haudio⟩ := (conversation ⟨smallMessages, hexec⟩
    true (fun task htask => by
      rw [hdata task htask]
      decide) (by
      rw [htasks, List.flatten_replicate_replicate, List.length_replicate]
      decide)).2 before answer [] hsplit hend
  exact ⟨earlier, first, rest, answer, by rw [hsplit, hbefore], hfirst, haudio⟩

end System

end VadService
