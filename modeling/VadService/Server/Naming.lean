import VadService.Server.Isolation

set_option autoImplicit false

/-! # The names of the clients

`on_open` numbers the connections in the order they are opened, and a session keeps its number as
its name until a message brings another one. Whatever the threads do, the responses of a
connection carry the name made of its number until the client gives itself another (`numbered`).
So clients that stay anonymous are not taken for each other, as long as the counter, which is an
`int`, does not overflow.
-/

namespace VadService

open Machine

/-- The name of the `n`th connection. -/
def defaultUid (n : ℕ) : String := "user_" ++ toString n

theorem defaultUid_injective {m n : ℕ} (h : defaultUid m = defaultUid n) : m = n := by
  have hrepr : m.repr = n.repr := (String.append_right_inj "user_").mp h
  have hdigits : Nat.toDigits 10 m = Nat.toDigits 10 n := by
    rw [← Nat.toList_repr, ← Nat.toList_repr, hrepr]
  rw [← @Nat.ofDigitChars_ten_toDigits m, hdigits, Nat.ofDigitChars_ten_toDigits]

/-- Empty names bring nothing. -/
theorem lastNonEmpty_of_empty {v : String} {vs : List String} (h : ∀ x ∈ vs, x = "") :
    lastNonEmpty v vs = v := by
  have hnil : vs.filter (fun x => x ≠ "") = [] := by
    rw [List.filter_eq_nil_iff]
    intro x hx
    simp [h x hx]
  rw [lastNonEmpty, hnil]
  rfl

namespace System

variable {E H : Type} [DecidableEq H] {env : Env E} {st st' : System E H} {a : Action H}

/-- The sessions are numbered in the order of their objects, and each of them was created
under the name of its number. -/
structure Numbered (env : Env E) (st : System E H) : Prop where
  counter : st.server.idCounter = st.owners.length
  follows : ∀ ptr hdl, st.owners[ptr]? = some hdl → st.Follows env hdl (defaultUid (ptr + 1))

theorem numbered_init : Numbered env (init : System E H) := by
  refine ⟨rfl, ?_⟩
  intro ptr hdl hptr
  exact absurd hptr (by simp [owners, init, AudioServer.new])

/-- A new session, and the old ones as they were. -/
theorem numbered_openConn (howned : st.Owned) (hl : ∀ hdl, ∃ skipped, st.Ledger hdl skipped)
    (hn : st.Numbered env) {hdl' : H} (hconn : st.conns hdl' = .fresh) :
    Numbered env
      { st.setConn hdl' .opened with server := st.server.onOpen env.vadEngine hdl' } := by
  have howners := owners_onOpen st env.vadEngine hdl'
  have hnew : hdl' ∉ st.owners := fun hmem => (howned.fresh hdl').mp hmem hconn
  constructor
  · show st.server.idCounter + 1 = ((st.server.onOpen env.vadEngine hdl').objects.map _).length
    rw [howners, List.length_append, List.length_singleton, hn.counter]
  · intro ptr hdl hptr
    have hptr : (st.owners ++ [hdl'])[ptr]? = some hdl := by
      rw [← howners]
      exact hptr
    have hobjects : ∀ (i : ℕ) (session : Session E H),
        (st.server.onOpen env.vadEngine hdl').objects[i]? = some session →
          st.server.objects[i]? = some session ∨
            session = Session.new (defaultUid (st.server.idCounter + 1)) hdl' env.vadEngine := by
      intro i session hobject
      rcases List.getElem?_eq_some_iff.mp hobject with ⟨hi, rfl⟩
      simp only [AudioServer.onOpen, List.getElem_append]
      split
      · exact .inl (List.getElem?_eq_getElem _)
      · exact .inr (List.getElem_singleton _)
    by_cases heq : hdl = hdl'
    · -- the new session is the last one, and has not been served yet
      subst heq
      have hlast : ptr = st.owners.length := by
        by_contra hne
        have hlt : ptr < st.owners.length := by
          have hlen := (List.getElem?_eq_some_iff.mp hptr).1
          rw [List.length_append, List.length_singleton] at hlen
          omega
        rw [List.getElem?_append_left hlt] at hptr
        exact hnew (List.mem_of_getElem? hptr)
      obtain ⟨skipped, hledger⟩ := hl hdl
      have hanswers : st.answersOf hdl = [] := answersOf_eq_nil howned hledger hconn
      have hinputs : st.inputsOf hdl = [] := by rw [inputsOf, hanswers, List.map_nil]
      constructor
      · intro i session hobject hhdl
        show session = final _ _ (st.inputsOf hdl)
        rw [hinputs, final_nil, hlast, ← hn.counter]
        rcases hobjects i session hobject with hold | hsession
        · exact absurd (List.mem_map.mpr ⟨session, List.mem_of_getElem? hold, hhdl⟩) hnew
        · exact hsession
      · show (st.answersOf hdl).map _ = outputs _ _ (st.inputsOf hdl)
        rw [hinputs, hanswers]
        rfl
    · have hold : st.owners[ptr]? = some hdl := by
        rcases List.mem_append.mp (List.mem_of_getElem? hptr) with hmem | hmem
        · rw [List.getElem?_append] at hptr
          split at hptr
          · exact hptr
          · exact absurd (List.mem_singleton.mp (List.mem_of_getElem? hptr)) heq
        · exact absurd (List.mem_singleton.mp hmem) heq
      have hf := hn.follows ptr hdl hold
      refine ⟨?_, hf.responses⟩
      intro i session hobject hhdl
      rcases hobjects i session hobject with hobject | rfl
      · exact hf.session i session hobject hhdl
      · exact absurd hhdl.symm heq

/-- **Every step keeps the numbers.** -/
theorem numbered_step (h : st.step env a = some st') (howned : st.Owned)
    (hl : ∀ hdl, ∃ skipped, st.Ledger hdl skipped) (hn : st.Numbered env) :
    st'.Numbered env := by
  cases step_cases h with
  | openConn hdl' hmain hstop hconn => exact numbered_openConn howned hl hn hconn
  | handle hdl' msg hmain =>
      obtain ⟨hobjects, -⟩ := onMessage_objects env.parse st.server hdl' msg
      have hcounter : (st.server.onMessage env.parse hdl' msg).idCounter
          = st.server.idCounter := by
        rw [AudioServer.onMessage]
        cases taskOf env.parse hdl' msg <;> rfl
      have howners : (st.server.onMessage env.parse hdl' msg).objects.map Session.hdl
          = st.owners := congrArg (List.map Session.hdl) hobjects
      constructor
      · show (st.server.onMessage env.parse hdl' msg).idCounter = List.length (List.map _ _)
        rw [hcounter, howners, hn.counter]
      · intro ptr hdl hptr
        have hf := hn.follows ptr hdl (howners ▸ hptr)
        refine ⟨?_, hf.responses⟩
        intro i session hobject
        exact hf.session i session (hobjects ▸ hobject)
  | process now task ptr session hworker hobject =>
      have howners : (st.server.objects.set ptr (session.serve env.engine (task, now)).2).map
          Session.hdl = st.owners := owners_set st hobject (task, now)
      constructor
      · show st.server.idCounter = List.length (List.map _ _)
        rw [howners, hn.counter]
      · intro i hdl hi
        have hi : st.owners[i]? = some hdl := by
          rw [← howners]
          exact hi
        exact follows_process howned (hn.follows i hdl hi) hworker hobject
  | _ => exact ⟨hn.counter, fun ptr hdl hptr =>
      ⟨(hn.follows ptr hdl hptr).session, (hn.follows ptr hdl hptr).responses⟩⟩

theorem numbered_of_reaches (h : Reaches (step env) init st) : st.Numbered env := by
  have hinv := h.inv (fun st => st.Simulates env ∧ st.Numbered env)
    (fun s b s' hstep hs => ⟨simulates_step hstep hs.1, numbered_step hstep hs.1.owned
      (fun hdl => by
        obtain ⟨skipped, -, hl, -⟩ := hs.1.client hdl
        exact ⟨skipped, hl⟩) hs.2⟩) ⟨simulates_init, numbered_init⟩
  exact hinv.2

/-! ## The order of the openings -/

/-- The connections in the order they are opened. -/
def opened (actions : List (Action H)) : List H :=
  actions.filterMap fun
    | .openConn hdl => some hdl
    | _ => none

omit [DecidableEq H] in
theorem opened_append (actions more : List (Action H)) :
    opened (actions ++ more) = opened actions ++ opened more := List.filterMap_append

/-- One more object for a connection that is opened, and none for any other step. -/
theorem owners_step (h : st.step env a = some st') : st'.owners = st.owners ++ opened [a] := by
  cases step_cases h with
  | openConn hdl hmain hstop hconn => exact owners_onOpen st env.vadEngine hdl
  | handle hdl msg hmain =>
      obtain ⟨hobjects, -⟩ := onMessage_objects env.parse st.server hdl msg
      exact (congrArg (List.map Session.hdl) hobjects).trans (List.append_nil _).symm
  | process now task ptr session hworker hobject =>
      exact (owners_set st hobject (task, now)).trans (List.append_nil _).symm
  | _ => exact (List.append_nil _).symm

/-- **The objects are in the order of the openings.** -/
theorem owners_exec {actions : List (Action H)} (h : exec (step env) st actions = some st') :
    st'.owners = st.owners ++ opened actions := by
  induction actions generalizing st with
  | nil =>
      cases h
      exact (List.append_nil _).symm
  | cons a actions ih =>
      rw [exec_cons] at h
      obtain ⟨s, hstep, hrest⟩ := Option.bind_eq_some_iff.mp h
      have hopened : opened (a :: actions) = opened [a] ++ opened actions :=
        opened_append [a] actions
      rw [ih hrest, owners_step hstep, hopened, List.append_assoc]

theorem owners_init_exec {actions : List (Action H)}
    (h : exec (step env) init actions = some st) : st.owners = opened actions :=
  owners_exec h

/-- **An opening** creates the object of the connection, under its number. -/
theorem created {before : List (Action H)} (h : exec (step env) init before = some st) {hdl : H}
    (hopen : st.step env (.openConn hdl) = some st') :
    st'.server.objects = st.server.objects
        ++ [Session.new (defaultUid ((opened before).length + 1)) hdl env.vadEngine] ∧
      st'.server.sessions hdl = some (opened before).length ∧
      st.server.objects.length = (opened before).length := by
  have hcounter : st.server.idCounter = (opened before).length := by
    rw [(numbered_of_reaches ⟨before, h⟩).counter, owners_init_exec h]
  have hlength : st.server.objects.length = (opened before).length := by
    rw [← owners_init_exec h, owners, List.length_map]
  cases step_cases hopen with
  | openConn _ hmain hstop hconn =>
      refine ⟨?_, ?_, hlength⟩
      · show st.server.objects ++ [Session.new (defaultUid (st.server.idCounter + 1)) hdl _] = _
        rw [hcounter]
      · show Function.update st.server.sessions hdl (some st.server.objects.length) hdl = _
        rw [Function.update_self, hlength]

/-- The responses carry the name of the number until there is another one. -/
theorem metadata_of_exec {actions : List (Action H)}
    (h : exec (step env) init actions = some st) {n : ℕ} {hdl : H}
    (hn : (opened actions)[n]? = some hdl) (i : ℕ) (hi : i < (st.answersOf hdl).length) :
    (st.answersOf hdl)[i].response.metadata
      = Metadata.last ⟨defaultUid (n + 1), "", ""⟩
          (((st.tasksOf hdl).take (i + 1)).map AudioTask.metadata) := by
  have hreach : Reaches (step env) init st := ⟨actions, h⟩
  obtain ⟨skipped, -, hl, -⟩ := (simulates_of_reaches hreach).client hdl
  rw [← owners_init_exec h] at hn
  exact ((numbered_of_reaches hreach).follows n hdl hn).metadata hl i hi

/-- A client that gives itself no name is answered under the name of its number. -/
theorem uid_of_anonymous {actions : List (Action H)}
    (h : exec (step env) init actions = some st) {n : ℕ} {hdl : H}
    (hn : (opened actions)[n]? = some hdl) (hanonymous : ∀ task ∈ st.tasksOf hdl, task.uid = "")
    {answer : Answer H} (hanswer : answer ∈ st.answersOf hdl) :
    answer.response.uid = defaultUid (n + 1) := by
  obtain ⟨i, hi, rfl⟩ := List.mem_iff_getElem.mp hanswer
  have hnames := congrArg Metadata.uid (metadata_of_exec h hn i hi)
  refine hnames.trans (lastNonEmpty_of_empty ?_)
  intro x hx
  simp only [List.mem_map, exists_exists_and_eq_and] at hx
  obtain ⟨task, htask, rfl⟩ := hx
  exact hanonymous task (List.mem_of_mem_take htask)

/-- **Every client has a number of its own.** Take any run that opens less than `2^31`
connections, so that their number is an `int`. No connection is opened twice. The `n`th opening
creates the object `n - 1` under the name of the number `n`, for a connection that points to
it. The names in a response are those its client gave last, and for what it gave none the name of
its number. Two clients that give themselves no name never get responses under the same one. -/
theorem numbered {actions : List (Action H)} (h : exec (step env) init actions = some st)
    (hint : (opened actions).length < 2 ^ 31) :
    (st.server.idCounter = (opened actions).length ∧ st.server.idCounter < 2 ^ 31) ∧
    st.server.objects.map Session.hdl = opened actions ∧ (opened actions).Nodup ∧
    (∀ before hdl after, actions = before ++ .openConn hdl :: after →
      ∃ s s', exec (step env) init before = some s ∧ s.step env (.openConn hdl) = some s' ∧
        s'.server.objects = s.server.objects
          ++ [Session.new (defaultUid ((opened before).length + 1)) hdl env.vadEngine] ∧
        s.server.objects.length = (opened before).length ∧
        s'.server.sessions hdl = some (opened before).length) ∧
    (∀ (n : ℕ) (hdl : H), (opened actions)[n]? = some hdl →
      ∀ (i : ℕ) (hi : i < (st.answersOf hdl).length),
        (st.answersOf hdl)[i].response.metadata
          = Metadata.last ⟨defaultUid (n + 1), "", ""⟩
              (((st.tasksOf hdl).take (i + 1)).map AudioTask.metadata)) ∧
    ∀ hdl hdl', hdl ≠ hdl' → (∀ task ∈ st.tasksOf hdl, task.uid = "") →
      (∀ task ∈ st.tasksOf hdl', task.uid = "") →
      ∀ answer ∈ st.answersOf hdl, ∀ answer' ∈ st.answersOf hdl',
        answer.response.uid ≠ answer'.response.uid := by
  have hreach : Reaches (step env) init st := ⟨actions, h⟩
  have hsim := simulates_of_reaches hreach
  have howners := owners_init_exec h
  have hcounter : st.server.idCounter = (opened actions).length := by
    rw [(numbered_of_reaches hreach).counter, howners]
  refine ⟨⟨hcounter, hcounter ▸ hint⟩, howners, howners ▸ hsim.owned.nodup, ?_,
    fun n hdl hn i hi => metadata_of_exec h hn i hi, ?_⟩
  · rintro before hdl after rfl
    rw [exec_append] at h
    obtain ⟨s, hs, hrest⟩ := Option.bind_eq_some_iff.mp h
    rw [exec_cons] at hrest
    obtain ⟨s', hs', -⟩ := Option.bind_eq_some_iff.mp hrest
    obtain ⟨hobjects, hsessions, hlength⟩ := created hs hs'
    exact ⟨s, s', hs, hs', hobjects, hlength, hsessions⟩
  · intro hdl hdl' hne hanonymous hanonymous' answer hanswer answer' hanswer' heq
    -- only connections that were opened are answered
    have hnumber : ∀ {hdl : H} {answer : Answer H}, answer ∈ st.answersOf hdl →
        ∃ n : ℕ, (opened actions)[n]? = some hdl := by
      intro hdl answer hmem
      have hconn : st.conns hdl ≠ .fresh := by
        intro hfresh
        obtain ⟨skipped, -, hl, -⟩ := hsim.client hdl
        rw [answersOf_eq_nil hsim.owned hl hfresh] at hmem
        exact absurd hmem List.not_mem_nil
      have howner := (hsim.owned.fresh hdl).mpr hconn
      rw [howners] at howner
      exact List.mem_iff_getElem?.mp howner
    obtain ⟨n, hn⟩ := hnumber hanswer
    obtain ⟨n', hn'⟩ := hnumber hanswer'
    rw [uid_of_anonymous h hn hanonymous hanswer,
      uid_of_anonymous h hn' hanonymous' hanswer'] at heq
    have hsame := Nat.succ_injective (defaultUid_injective heq)
    rw [hsame, hn'] at hn
    exact hne (Option.some.inj hn).symm

/-- Two anonymous clients, served one after the other. -/
def anonymousClients : List (Action Bool) :=
  [.setRunning, .spawn, .test, .listen, .openConn true, .openConn false,
    .receive false ⟨.binary, []⟩, .handle, .pop, .lookup, .process 5, .send true, .test,
    .receive true ⟨.binary, [1]⟩, .handle, .pop, .lookup, .process 6]

theorem numbered_anonymousClients : ∃ st : System (SileroVadEngine (List F32)) Bool,
    exec (step (scriptedEnv [])) init anonymousClients = some st ∧
      ∀ answer ∈ st.answersOf true, ∀ answer' ∈ st.answersOf false,
        answer.response.uid ≠ answer'.response.uid := by
  have hsome : (exec (step (scriptedEnv [])) init anonymousClients).isSome = true := rfl
  refine ⟨_, (Option.some_get hsome).symm, ?_⟩
  refine (numbered (Option.some_get hsome).symm (by decide)).2.2.2.2.2 true false (by decide) ?_ ?_
  · intro task htask
    have htasks : task ∈ [binaryTask true [1]] := htask
    rw [List.mem_singleton.mp htasks]
    rfl
  · intro task htask
    have htasks : task ∈ [binaryTask false []] := htask
    rw [List.mem_singleton.mp htasks]
    rfl

end System

end VadService
