import VadService.Base64.Basic

set_option autoImplicit false

/-! # Messages

What `on_message` of `server.cpp` makes of a message: a text message is a JSON object with
the audio in Base64, a binary one is the audio itself. Either way the audio becomes an
`AudioTask`. Everything the JSON library throws on the way is caught, and then there is no
task.
-/

namespace VadService

/-! ## JSON values -/

/-- A value of the JSON library. The strings of a `std::string` are `String`s. -/
inductive Json where
  | null
  | boolean (value : Bool)
  | number (value : ℚ)
  | string (value : String)
  | array (elements : List Json)
  | object (members : List (String × Json))

/-- What the JSON library throws. -/
inductive JsonException where
  | parseError
  | typeError
  deriving DecidableEq

namespace Json

/-- `contains(key)`, which is false for everything but objects. -/
def contains (key : String) : Json → Bool
  | object members => (members.lookup key).isSome
  | _ => false

/-- `operator[](key)`. A missing member, also of `null`, is created as `null`. -/
def get (key : String) : Json → Except JsonException Json
  | object members => .ok ((members.lookup key).getD null)
  | null => .ok null
  | _ => .error .typeError

/-- The conversion to `std::string` -/
def toStdString : Json → Except JsonException String
  | string value => .ok value
  | _ => .error .typeError

/-- `if (j.contains(key)) field = j[key];`, for a field that is empty before. -/
def field (key : String) (j : Json) : Except JsonException String := do
  if j.contains key then
    let value ← j.get key
    value.toStdString
  else
    return ""

end Json

/-! ## Tasks -/

/-- The opcodes of a frame. -/
inductive Opcode where
  | continuation
  | text
  | binary
  | close
  | ping
  | pong
  deriving DecidableEq

/-- A message of the WebSocket library. -/
structure Message where
  opcode : Opcode
  payload : List UInt8

/-- `AudioTask` -/
structure AudioTask (H : Type) where
  hdl : H
  data : List UInt8
  uid : String
  connectSession : String
  currentSession : String
  deriving DecidableEq

variable {H : Type}

/-- The body of the `try` block of `on_message`, up to the push. -/
def textTask (parse : List UInt8 → Except JsonException Json) (hdl : H) (payload : List UInt8) :
    Except JsonException (Option (AudioTask H)) := do
  let j ← parse payload
  if j.contains "data" then
    let data ← j.get "data"
    if data.contains "audio" then
      let audio ← data.get "audio"
      let audioB64 ← audio.toStdString
      let audioData := Base64.decode audioB64
      let uid ← j.field "uid"
      let connectSession ← j.field "connect_session"
      let currentSession ← j.field "current_session"
      return some
        { hdl := hdl, data := audioData, uid := uid, connectSession := connectSession,
          currentSession := currentSession }
    else
      return none
  else
    return none

/-- The task of a binary message. -/
def binaryTask (hdl : H) (payload : List UInt8) : AudioTask H where
  hdl := hdl
  data := payload
  uid := ""
  connectSession := ""
  currentSession := ""

/-- The task `on_message` pushes, if any. -/
def taskOf (parse : List UInt8 → Except JsonException Json) (hdl : H) (msg : Message) :
    Option (AudioTask H) :=
  match msg.opcode with
  | .text =>
      match textTask parse hdl msg.payload with
      | .ok task => task
      -- the exception is logged
      | .error _ => none
  | .binary => some (binaryTask hdl msg.payload)
  | _ => none

theorem bind_eq_ok {ε α β : Type} {x : Except ε α} {f : α → Except ε β} {b : β} :
    (x >>= f) = .ok b ↔ ∃ a, x = .ok a ∧ f a = .ok b := by
  cases x with
  | error e => simp [bind, Except.bind]
  | ok a => simp [bind, Except.bind]

/-- **When a text message gives a task**: it is a JSON object whose `data` is an object with
the audio, and the names are strings where they are given. -/
theorem textTask_eq_some {parse : List UInt8 → Except JsonException Json} {hdl : H}
    {payload : List UInt8} {task : AudioTask H} :
    textTask parse hdl payload = .ok (some task) ↔
      ∃ j data audio audioB64, parse payload = .ok j ∧
        j.contains "data" = true ∧ j.get "data" = .ok data ∧
        data.contains "audio" = true ∧ data.get "audio" = .ok audio ∧
        audio.toStdString = .ok audioB64 ∧ j.field "uid" = .ok task.uid ∧
        j.field "connect_session" = .ok task.connectSession ∧
        j.field "current_session" = .ok task.currentSession ∧
        task.hdl = hdl ∧ task.data = Base64.decode audioB64 := by
  rw [textTask]
  constructor
  · intro h
    obtain ⟨j, hj, h⟩ := bind_eq_ok.mp h
    split at h
    · rename_i hdata
      obtain ⟨data, hget, h⟩ := bind_eq_ok.mp h
      -- the conversions to `std::string` may throw, each in its turn
      split at h
      · rename_i haudio
        obtain ⟨audio, hgetAudio, h⟩ := bind_eq_ok.mp h
        obtain ⟨audioB64, hstring, h⟩ := bind_eq_ok.mp h
        obtain ⟨uid, huid, h⟩ := bind_eq_ok.mp h
        obtain ⟨connectSession, hconnect, h⟩ := bind_eq_ok.mp h
        obtain ⟨currentSession, hcurrent, h⟩ := bind_eq_ok.mp h
        cases h
        exact ⟨j, data, audio, audioB64, hj, hdata, hget, haudio, hgetAudio, hstring, huid,
          hconnect, hcurrent, rfl, rfl⟩
      · cases h
    · cases h
  · rintro ⟨j, data, audio, audioB64, hj, hdata, hget, haudio, hgetAudio, hstring, huid, hconnect,
      hcurrent, rfl, htask⟩
    simp only [hj, hdata, hget, haudio, hgetAudio, hstring, huid, hconnect, hcurrent, bind,
      Except.bind, if_true, ← htask]
    rfl

/-- Every task is addressed to the connection of its message. -/
theorem taskOf_hdl {parse : List UInt8 → Except JsonException Json} {hdl : H} {msg : Message}
    {task : AudioTask H} (h : taskOf parse hdl msg = some task) : task.hdl = hdl := by
  cases hop : msg.opcode with
  | text =>
      rw [taskOf, hop] at h
      cases htext : textTask parse hdl msg.payload with
      | error e => simp [htext] at h
      | ok task' =>
          simp only [htext] at h
          subst h
          obtain ⟨-, -, -, -, -, -, -, -, -, -, -, -, -, hhdl, -⟩ := textTask_eq_some.mp htext
          exact hhdl
  | binary =>
      rw [taskOf, hop] at h
      cases h
      rfl
  | _ => simp [taskOf, hop] at h

end VadService
