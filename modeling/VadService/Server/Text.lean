import VadService.Server.Basic
import VadService.Base64.RoundTrip

set_option autoImplicit false

/-! # Text messages

Which text messages `on_message` turns into a task, and what audio the task carries. A
message is an `AudioRequest` when its JSON is an object with the audio as a string, and the
names are strings where they are given; any other leaves the server as it is. The audio is
decoded up to the first character outside the Base64 alphabet, which is all of it when it
is well formed.
-/

namespace VadService

variable {E H : Type}

/-! ## Requests -/

/-- What `on_message` takes from a JSON value. -/
structure AudioRequest where
  audio : String
  uid : String
  connectSession : String
  currentSession : String

/-- The member `key` is the string `name`, or it is missing and `name` is empty. -/
def Names (members : List (String × Json)) (key name : String) : Prop :=
  members.lookup key = some (.string name) ∨ (members.lookup key = none ∧ name = "")

/-- The JSON value `j` is the request `r`. -/
def Json.Requests (j : Json) (r : AudioRequest) : Prop :=
  ∃ members inner, j = .object members ∧ members.lookup "data" = some (.object inner) ∧
    inner.lookup "audio" = some (.string r.audio) ∧ Names members "uid" r.uid ∧
    Names members "connect_session" r.connectSession ∧
    Names members "current_session" r.currentSession

/-- The task of a request. -/
def AudioRequest.task (r : AudioRequest) (hdl : H) : AudioTask H where
  hdl := hdl
  data := Base64.decode r.audio
  uid := r.uid
  connectSession := r.connectSession
  currentSession := r.currentSession

namespace Json

/-- `contains` and `operator[]` together find a member of an object. -/
theorem get_of_contains {j v : Json} {key : String} :
    j.contains key = true ∧ j.get key = .ok v ↔
      ∃ members, j = .object members ∧ members.lookup key = some v := by
  constructor
  · rintro ⟨hcontains, hget⟩
    cases j with
    | object members =>
        refine ⟨members, rfl, ?_⟩
        have hsome : (members.lookup key).isSome = true := hcontains
        obtain ⟨w, hw⟩ := Option.isSome_iff_exists.mp hsome
        have hget' : Except.ok ((members.lookup key).getD null)
            = (.ok v : Except JsonException Json) := hget
        rw [hw, Option.getD_some, Except.ok.injEq] at hget'
        rw [hw, hget']
    | _ => exact absurd hcontains Bool.false_ne_true
  · rintro ⟨members, rfl, hv⟩
    refine ⟨?_, ?_⟩
    · show (members.lookup key).isSome = true
      rw [hv]
      rfl
    · show Except.ok ((members.lookup key).getD null) = _
      rw [hv]
      rfl

theorem toStdString_eq_ok {j : Json} {v : String} : j.toStdString = .ok v ↔ j = .string v := by
  cases j <;> simp [toStdString]

/-- A field of an object is read exactly when it is a string or missing. -/
theorem field_eq_ok {members : List (String × Json)} {key name : String} :
    (object members).field key = .ok name ↔ Names members key name := by
  unfold field Names
  cases hv : members.lookup key with
  | none =>
      have hcontains : (object members).contains key = false := by
        show (members.lookup key).isSome = false
        rw [hv]
        rfl
      rw [hcontains]
      simp [pure, Except.pure, eq_comm]
  | some v =>
      obtain ⟨hcontains, hget⟩ := get_of_contains.mpr ⟨members, rfl, hv⟩
      rw [hcontains, hget]
      simp [bind, Except.bind, toStdString_eq_ok]

end Json

/-- **The text messages that give a task are the requests.** -/
theorem textTask_iff {parse : List UInt8 → Except JsonException Json} {hdl : H}
    {payload : List UInt8} {task : AudioTask H} :
    textTask parse hdl payload = .ok (some task) ↔
      ∃ j r, parse payload = .ok j ∧ j.Requests r ∧ task = r.task hdl := by
  rw [textTask_eq_some]
  constructor
  · rintro ⟨j, data, audio, audioB64, hj, hdata, hget, haudio, hgetAudio, hstring, huid, hconnect,
      hcurrent, hhdl, hbytes⟩
    obtain ⟨members, rfl, hmember⟩ := Json.get_of_contains.mp ⟨hdata, hget⟩
    obtain ⟨inner, rfl, hinner⟩ := Json.get_of_contains.mp ⟨haudio, hgetAudio⟩
    rw [Json.toStdString_eq_ok.mp hstring] at hinner
    refine ⟨_, ⟨audioB64, task.uid, task.connectSession, task.currentSession⟩, hj,
      ⟨members, inner, rfl, hmember, hinner, Json.field_eq_ok.mp huid,
        Json.field_eq_ok.mp hconnect, Json.field_eq_ok.mp hcurrent⟩, ?_⟩
    cases task
    simp only [AudioRequest.task] at hhdl hbytes ⊢
    rw [hhdl, hbytes]
  · rintro ⟨j, r, hj, ⟨members, inner, rfl, hmember, hinner, huid, hconnect, hcurrent⟩, rfl⟩
    obtain ⟨hdata, hget⟩ := Json.get_of_contains.mpr ⟨members, rfl, hmember⟩
    obtain ⟨haudio, hgetAudio⟩ := Json.get_of_contains.mpr ⟨inner, rfl, hinner⟩
    exact ⟨_, _, _, r.audio, hj, hdata, hget, haudio, hgetAudio, rfl, Json.field_eq_ok.mpr huid,
      Json.field_eq_ok.mpr hconnect, Json.field_eq_ok.mpr hcurrent, rfl, rfl⟩

/-! ## A smallest message -/

/-- The text of a message with nothing but audio, in bytes. -/
def audioText (audio : String) : List UInt8 :=
  ("\x7b\"data\":\x7b\"audio\":\"" ++ audio ++ "\"\x7d\x7d").toList.map
    fun c => UInt8.ofNat c.toNat

/-- What the text says. -/
def audioJson (audio : String) : Json := .object [("data", .object [("audio", .string audio)])]

/-- A parser that knows this text. -/
def audioParse (audio : String) (payload : List UInt8) : Except JsonException Json :=
  if payload = audioText audio then .ok (audioJson audio) else .error .parseError

theorem audioParse_audioText (audio : String) :
    audioParse audio (audioText audio) = .ok (audioJson audio) := if_pos rfl

theorem requests_audioJson (audio : String) : (audioJson audio).Requests ⟨audio, "", "", ""⟩ :=
  ⟨_, _, rfl, rfl, rfl, Or.inr ⟨rfl, rfl⟩, Or.inr ⟨rfl, rfl⟩, Or.inr ⟨rfl, rfl⟩⟩

/-- The audio of the request is determined by the message. -/
theorem eq_audio_of_requests {audio : String} {r : AudioRequest}
    (h : (audioJson audio).Requests r) : r.audio = audio := by
  obtain ⟨members, inner, hj, hdata, haudio, -⟩ := h
  cases hj
  cases hdata
  cases haudio
  rfl

namespace AudioServer

variable {parse : List UInt8 → Except JsonException Json} {hdl : H} {payload : List UInt8}

/-- A request is pushed. -/
theorem onMessage_request (server : AudioServer E H) {j : Json} {r : AudioRequest}
    (hj : parse payload = .ok j) (hr : j.Requests r) :
    server.onMessage parse hdl ⟨.text, payload⟩
      = { server with taskQueue := server.taskQueue.push (r.task hdl) } := by
  have htask : taskOf parse hdl ⟨.text, payload⟩ = some (r.task hdl) := by
    rw [taskOf]
    dsimp only
    rw [textTask_iff.mpr ⟨j, r, hj, hr, rfl⟩]
  rw [onMessage, htask]

/-- Any other text message leaves the server as it is. -/
theorem onMessage_other (server : AudioServer E H)
    (h : ∀ j r, parse payload = .ok j → ¬ j.Requests r) :
    server.onMessage parse hdl ⟨.text, payload⟩ = server := by
  have htask : taskOf parse hdl ⟨.text, payload⟩ = none := by
    rw [taskOf]
    dsimp only
    cases htext : textTask parse hdl payload with
    | error e => rfl
    | ok task =>
        cases task with
        | none => rfl
        | some task =>
            obtain ⟨j, r, hj, hr, -⟩ := textTask_iff.mp htext
            exact absurd hr (h j r hj)
  rw [onMessage, htask]

/-! ## The audio of a task -/

/-- **What becomes of a text message.** A request is pushed with the decoding of its audio; up to
`2^31` characters these are the bytes of the alphabet characters the audio starts with, which
are all of them when it is well formed. Any other text changes nothing. -/
theorem onMessage_text (parse : List UInt8 → Except JsonException Json)
    (server : AudioServer E H) (hdl : H) (payload : List UInt8) :
    (∀ j r, parse payload = .ok j → j.Requests r →
      server.onMessage parse hdl ⟨.text, payload⟩ = { server with
        taskQueue := server.taskQueue.push
          { hdl := hdl, data := Base64.decode r.audio, uid := r.uid,
            connectSession := r.connectSession, currentSession := r.currentSession } } ∧
      (r.audio.length < 2 ^ 31 →
        Base64.decode r.audio = Base64.bytesOf (Base64.digits r.audio.toList) ∧
        ∀ chars, Base64.WellFormedAs chars r.audio →
          Base64.decode r.audio = Base64.bytesOf chars)) ∧
    ((∀ j r, parse payload = .ok j → ¬ j.Requests r) →
      server.onMessage parse hdl ⟨.text, payload⟩ = server) := by
  refine ⟨?_, onMessage_other server⟩
  intro j r hj hr
  refine ⟨onMessage_request server hj hr, fun hlen => ?_⟩
  have hread : Base64.decode r.audio = Base64.bytesOf (Base64.digits r.audio.toList) :=
    Base64.decode_eq_read r.audio hlen
  refine ⟨hread, ?_⟩
  intro chars hchars
  rw [hread, hchars.digits_eq]

/-- A server that has not been started. -/
def idle : AudioServer Unit Unit := AudioServer.new

theorem onMessage_text_abc :
    idle.onMessage (audioParse "QUJD") () ⟨.text, audioText "QUJD"⟩ =
        { idle with
          taskQueue := idle.taskQueue.push
            { hdl := (), data := Base64.decode "QUJD", uid := "", connectSession := "",
              currentSession := "" } } ∧
      Base64.decode "QUJD" = Base64.bytesOf (Base64.digits "QUJD".toList) := by
  obtain ⟨hpush, hdata⟩ := (onMessage_text (audioParse "QUJD") idle () (audioText "QUJD")).1 _ _
    (audioParse_audioText _) (requests_audioJson _)
  exact ⟨hpush, (hdata (by decide)).1⟩

/-- A space in the audio is not noticed: the message is accepted with the bytes in front
of it. -/
theorem malformed_audio_accepted :
    ¬ ∀ (parse : List UInt8 → Except JsonException Json) (server : AudioServer Unit Unit)
      (payload : List UInt8),
      (server.onMessage parse () ⟨.text, payload⟩).taskQueue ≠ server.taskQueue →
      ∃ j r chars, parse payload = .ok j ∧ j.Requests r ∧ Base64.WellFormedAs chars r.audio := by
  intro h
  have hpushed := @onMessage_request Unit Unit _ () _ idle _ _
    (audioParse_audioText "QUJD REVG") (requests_audioJson "QUJD REVG")
  obtain ⟨j, r, chars, hj, hr, hwell⟩ := h (audioParse "QUJD REVG") idle
    (audioText "QUJD REVG") (by
      rw [hpushed]
      intro heq
      exact List.cons_ne_nil _ _ (congrArg SafeQueue.queue heq))
  rw [audioParse_audioText, Except.ok.injEq] at hj
  subst hj
  obtain ⟨pad, htext, -⟩ := hwell.text
  rw [eq_audio_of_requests hr] at htext
  -- the space is neither a character of the alphabet nor padding
  have hmem : ' ' ∈ chars ++ List.replicate pad '=' := htext ▸ (by decide)
  rcases List.mem_append.mp hmem with hchar | hpad
  · exact absurd (hwell.alphabet _ hchar) (by decide)
  · exact absurd (List.eq_of_mem_replicate hpad) (by decide)

/-! ## Both paths of a payload -/

theorem decode_encodeAll {b : List UInt8} (h : b.length < 2 ^ 30) :
    Base64.decode (Session.encodeAll b) = b := by
  rw [Session.encodeAll, Nat.mod_eq_of_lt (by omega)]
  exact Base64.decode_encode (Base64.length_encode_lt h)

theorem encodeAll_decode {s : String} (hs : Base64.Canonical s) (h : s.length < 2 ^ 31) :
    Session.encodeAll (Base64.decode s) = s := by
  have hlen : (Base64.decode s).length < 2 ^ 32 := by
    have hread := Base64.length_read_le s
    rw [Base64.decode_eq_read s h]
    omega
  rw [Session.encodeAll, Nat.mod_eq_of_lt hlen]
  exact Base64.encode_decode hs h

/-- **Base64 is lossless.** Encoding and decoding are inverse to each other, on fewer than
`2^30` bytes and on canonical texts of fewer than `2^31` characters. So a request whose audio
is the text of a payload, also of fewer than `2^31` characters, is pushed with the same bytes
as the binary message of the payload. -/
theorem base64_round_trip (E H : Type) :
    (∀ b : List UInt8, b.length < 2 ^ 30 → Base64.decode (Session.encodeAll b) = b) ∧
    (∀ s : String, Base64.Canonical s → s.length < 2 ^ 31 →
      Session.encodeAll (Base64.decode s) = s) ∧
    ∀ (parse : List UInt8 → Except JsonException Json) (server : AudioServer E H) (hdl : H)
      (b payload : List UInt8) (j : Json) (r : AudioRequest),
      parse payload = .ok j → j.Requests r → r.audio = Base64.encode b b.length →
      r.audio.length < 2 ^ 31 →
      ∃ text binary : AudioTask H,
        (server.onMessage parse hdl ⟨.text, payload⟩).taskQueue.queue
          = server.taskQueue.queue ++ [text] ∧
        (server.onMessage parse hdl ⟨.binary, b⟩).taskQueue.queue
          = server.taskQueue.queue ++ [binary] ∧
        text.data = binary.data := by
  refine ⟨fun b => decode_encodeAll, fun s => encodeAll_decode, ?_⟩
  intro parse server hdl b payload j r hj hr haudio hlen
  refine ⟨r.task hdl, binaryTask hdl b, ?_, rfl, ?_⟩
  · rw [onMessage_request server hj hr]
    rfl
  · show Base64.decode r.audio = b
    rw [haudio] at hlen ⊢
    exact Base64.decode_encode hlen

theorem canonical_aqid : Base64.Canonical "AQID" := by
  have hwhole : Window.leftover 8 (Base64.charBits ['A', 'Q', 'I', 'D']) = [] := by
    decide +kernel
  have halphabet : ['A', 'Q', 'I', 'D'].all Base64.isBase64 = true := by decide
  refine ⟨['A', 'Q', 'I', 'D'], 0, rfl, List.all_eq_true.mp halphabet, by decide, by decide, ?_⟩
  intro b hb
  rw [hwhole] at hb
  cases hb

theorem base64_round_trip_bytes :
    Base64.decode (Session.encodeAll [1, 2, 3]) = [1, 2, 3] ∧
      Session.encodeAll (Base64.decode "AQID") = "AQID" ∧
      ∃ text binary : AudioTask Unit,
        (idle.onMessage (audioParse "AQID") () ⟨.text, audioText "AQID"⟩).taskQueue.queue
          = idle.taskQueue.queue ++ [text] ∧
        (idle.onMessage (audioParse "AQID") () ⟨.binary, [1, 2, 3]⟩).taskQueue.queue
          = idle.taskQueue.queue ++ [binary] ∧
        text.data = binary.data := by
  obtain ⟨hbytes, htexts, hpaths⟩ := base64_round_trip Unit Unit
  refine ⟨hbytes [1, 2, 3] (by decide), htexts "AQID" canonical_aqid (by decide), ?_⟩
  exact hpaths (audioParse "AQID") idle () [1, 2, 3] (audioText "AQID") _ _
    (audioParse_audioText _) (requests_audioJson _) (by decide +kernel) (by decide)

/-- A text of `2^32` characters has the length zero as an `int`, and is decoded to nothing. -/
theorem long_text_decodes_to_nothing :
    ¬ ∀ s : String, Base64.Canonical s → Session.encodeAll (Base64.decode s) = s := by
  intro h
  have hlen : (List.replicate (2 ^ 32) 'A').length = 2 ^ 32 := List.length_replicate
  generalize hchars : List.replicate (2 ^ 32) 'A' = chars at hlen
  have hall : ∀ c ∈ chars, c = 'A' := by
    intro c hc
    rw [← hchars] at hc
    exact List.eq_of_mem_replicate hc
  have hcanonical : Base64.Canonical (String.ofList chars) := by
    refine ⟨chars, 0, by simp, ?_, by decide, by rw [hlen]; decide, ?_⟩
    · intro c hc
      rw [hall c hc]
      decide
    · -- every bit of the text is zero
      intro b hb
      have hb' : b ∈ Base64.charBits chars := List.mem_of_mem_drop hb
      rw [Base64.charBits, Bits.digitBits, List.mem_flatMap] at hb'
      obtain ⟨n, hn, hbn⟩ := hb'
      obtain ⟨c, hc, rfl⟩ := List.mem_map.mp hn
      rw [hall c hc] at hbn
      have hzeros : ∀ b ∈ Bits.toBits 6 (Base64.base64Chars.idxOf 'A'), b = false := by
        decide +kernel
      exact hzeros b hbn
  have hslen : (String.ofList chars).length = 2 ^ 32 := by
    rw [String.length_ofList, hlen]
  have hround := h _ hcanonical
  rw [Base64.decode_of_length_wraps (by rw [hslen]; decide)] at hround
  have hempty := congrArg String.length hround
  rw [hslen] at hempty
  exact absurd hempty (by decide +kernel)

end AudioServer

end VadService
