import VadService.Server.Shutdown

set_option autoImplicit false

/-! # The end of `main`

`main` builds the server, calls `run` and destroys the server; nothing else calls `stop`. When
the destructor's `stop` has returned, the worker has left its loop and was joined, so that
neither the `std::thread` nor the members are destroyed under a running worker, and nothing is
served or sent any more (`destructor_exits`). That is not so when another thread calls `stop`
meanwhile: the destructor finds `running_` false and returns at once (`stop_returns_early`).
-/

namespace VadService

open Machine

/-- A thread of the program calls `stop`. -/
def Action.byThread {H : Type} : Action H → Bool
  | .enter (.thread _) => true
  | _ => false

/-- The worker thread has been created. -/
def Main.hasSpawned {H : Type} : Main H → Bool
  | .start => false
  | .running => false
  | _ => true

namespace System

variable {E H : Type} {env : Env E} {st st' : System E H} {a : Action H}

/-- Nothing but the destructor calls `stop`. -/
structure Alone (st : System E H) : Prop where
  threads : ∀ n, st.stops (.thread n) = .idle
  unborn : st.main.hasSpawned = false → st.worker = .unborn
  /-- until the destructor clears it, the flag is what `run` has set it to -/
  running : st.main ≠ .start → st.stops .destructor = .idle ∨ st.stops .destructor = .entered →
    st.server.running = true
  joinable : st.main.hasSpawned = true → st.stops .destructor ≠ .returned → st.joinable = true
  finished : st.stops .destructor ≠ .idle → st.main = .finished
  cleared : (st.stops .destructor).behindClear → st.server.running = false
  returned : st.stops .destructor = .returned →
    st.worker = .exited ∧ st.joinable = false ∧ st.server.running = false

theorem alone_init : (init : System E H).Alone := by
  refine ⟨fun _ => rfl, fun _ => rfl, fun h => absurd rfl h, nofun, fun h => absurd rfl h,
    fun h => h.elim, nofun⟩

/-- A step that is neither of `main` nor of `stop`. -/
theorem Alone.of_worker (hst : st.Alone) (hmain : st'.main = st.main)
    (hstops : st'.stops = st.stops) (hjoinable : st'.joinable = st.joinable)
    (hrunning : st'.server.running = st.server.running)
    (hworker : st.worker = .unborn ∨ st.worker = .exited → st'.worker = st.worker) :
    st'.Alone := by
  constructor
  · rw [hstops]
    exact hst.threads
  · rw [hmain]
    intro hspawned
    have hunborn := hst.unborn hspawned
    rw [hworker (.inl hunborn), hunborn]
  · rw [hmain, hstops, hrunning]
    exact hst.running
  · rw [hmain, hstops, hjoinable]
    exact hst.joinable
  · rw [hmain, hstops]
    exact hst.finished
  · rw [hstops, hrunning]
    exact hst.cleared
  · rw [hstops, hjoinable, hrunning]
    intro hreturned
    obtain ⟨hexited, hrest⟩ := hst.returned hreturned
    exact ⟨by rw [hworker (.inr hexited), hexited], hrest⟩

/-- A step of `main`, before the destructor. -/
theorem Alone.of_main (hst : st.Alone) (hidle : st.stops .destructor = .idle)
    (hstops : st'.stops = st.stops)
    (hunborn : st'.main.hasSpawned = false → st'.worker = .unborn)
    (hrunning : st'.main ≠ .start → st'.server.running = true)
    (hjoinable : st'.main.hasSpawned = true → st'.joinable = true) : st'.Alone := by
  refine ⟨hstops ▸ hst.threads, hunborn, fun hmain _ => hrunning hmain,
    fun hmain _ => hjoinable hmain, ?_, ?_, ?_⟩
  · rw [hstops]
    exact fun hne => absurd hidle hne
  · rw [hstops, hidle]
    exact fun h => h.elim
  · rw [hstops, hidle]
    exact nofun

/-- A step of the destructor's `stop`. -/
theorem Alone.of_stop (hst : st.Alone) {pc : Stop}
    (hmain : st.main = .finished) (hmain' : st'.main = st.main)
    (hstops : st'.stops = Function.update st.stops .destructor pc) (hidle : pc ≠ .idle)
    (hrunning : pc = .entered → st'.server.running = true)
    (hjoinable : pc ≠ .returned → st'.joinable = true)
    (hcleared : pc.behindClear → st'.server.running = false)
    (hreturned : pc = .returned →
      st'.worker = .exited ∧ st'.joinable = false ∧ st'.server.running = false) :
    st'.Alone := by
  have hpc : st'.stops .destructor = pc := by
    rw [hstops]
    exact Function.update_self _ _ _
  constructor
  · intro n
    rw [hstops, Function.update_of_ne (by simp)]
    exact hst.threads n
  · rw [hmain', hmain]
    exact nofun
  · rw [hpc]
    rintro - (h | h)
    · exact absurd h hidle
    · exact hrunning h
  · rw [hpc]
    exact fun _ => hjoinable
  · rw [hmain', hmain]
    exact fun _ => rfl
  · rw [hpc]
    exact hcleared
  · rw [hpc]
    exact hreturned

/-- Only the destructor is in `stop`. -/
theorem Alone.caller (hst : st.Alone) {c : Caller} (h : st.stops c ≠ .idle) :
    c = .destructor := by
  cases c with
  | destructor => rfl
  | thread n => exact absurd (hst.threads n) h

variable [DecidableEq H]

theorem alone_step (h : st.step env a = some st') (ha : a.byThread = false) (hst : st.Alone) :
    st'.Alone := by
  -- `main` moves before the destructor only
  have hidle : st.main ≠ .finished → st.stops .destructor = .idle := by
    intro hmain
    by_contra hne
    exact hmain (hst.finished hne)
  cases step_cases h with
  | setRunning hmain =>
      exact hst.of_main (hidle (by simp [hmain])) rfl
        (fun _ => hst.unborn (by rw [hmain]; rfl)) (fun _ => rfl)
        (by simp [Main.hasSpawned])
  | spawn hmain hworker =>
      have hnot := hidle (by simp [hmain])
      exact hst.of_main hnot rfl (by simp [Main.hasSpawned])
        (fun _ => hst.running (by simp [hmain]) (.inl hnot)) (fun _ => rfl)
  | listen hmain =>
      have hnot := hidle (by simp [hmain])
      exact hst.of_main hnot rfl (by simp [Main.hasSpawned])
        (fun _ => hst.running (by simp [hmain]) (.inl hnot))
        (fun _ => hst.joinable (by rw [hmain]; rfl) (by simp [hnot]))
  | runEnds hmain =>
      have hnot := hidle (by rcases hmain with hmain | hmain <;> simp [hmain])
      exact hst.of_main hnot rfl (by simp [Main.hasSpawned])
        (fun _ => hst.running (by rcases hmain with hmain | hmain <;> simp [hmain]) (.inl hnot))
        (fun _ => hst.joinable (by rcases hmain with hmain | hmain <;> rw [hmain] <;> rfl)
          (by simp [hnot]))
  | receive hdl msg hmain =>
      have hnot := hidle (by simp [hmain])
      exact hst.of_main hnot rfl (by simp [Main.hasSpawned])
        (fun _ => hst.running (by simp [hmain]) (.inl hnot))
        (fun _ => hst.joinable (by rw [hmain]; rfl) (by simp [hnot]))
  | handle hdl msg hmain =>
      have hnot := hidle (by simp [hmain])
      have hrunning : (st.server.onMessage env.parse hdl msg).running = st.server.running := by
        rw [AudioServer.onMessage]
        cases taskOf env.parse hdl msg <;> rfl
      exact hst.of_main hnot rfl (by simp [Main.hasSpawned])
        (fun _ => hrunning.trans (hst.running (by simp [hmain]) (.inl hnot)))
        (fun _ => hst.joinable (by rw [hmain]; rfl) (by simp [hnot]))
  | openConn hdl hmain | closeConn hdl hmain =>
      exact hst.of_worker rfl rfl rfl rfl fun _ => rfl
  | test hworker | pop task taskQueue hworker | found task ptr hworker | skip task hworker
  | process now task ptr session hworker | send delivered hdl resp hworker =>
      refine hst.of_worker rfl rfl rfl rfl ?_
      rintro (h | h) <;> cases hworker.symm.trans h
  | enter c hstop hmay =>
      cases c with
      | thread n => cases ha
      | destructor =>
          have hmain : st.main = .finished := by
            simp only [mayCall] at hmay
            split at hmay
            · assumption
            · cases hmay
          have hrunning := hst.running (by simp [hmain]) (.inl hstop)
          have hjoinable := hst.joinable (by rw [hmain]; rfl) (by simp [hstop])
          rw [hrunning, if_pos rfl]
          exact hst.of_stop hmain rfl rfl (by simp) (fun _ => hrunning) (fun _ => hjoinable)
            (fun h => h.elim) (by simp)
  | clear c hstop =>
      cases hst.caller (c := c) (by simp [hstop])
      have hmain := hst.finished (by simp [hstop])
      have hjoinable := hst.joinable (by rw [hmain]; rfl) (by simp [hstop])
      exact hst.of_stop hmain rfl rfl (by simp) (by simp) (fun _ => hjoinable) (fun _ => rfl)
        (by simp)
  | stopServer c hstop =>
      cases hst.caller (c := c) (by simp [hstop])
      have hmain := hst.finished (by simp [hstop])
      have hjoinable := hst.joinable (by rw [hmain]; rfl) (by simp [hstop])
      have hcleared := hst.cleared (by simp [hstop, Stop.behindClear])
      exact hst.of_stop hmain rfl rfl (by simp) (by simp) (fun _ => hjoinable) (fun _ => hcleared)
        (by simp)
  | askJoinable c hstop =>
      cases hst.caller (c := c) (by simp [hstop])
      have hmain := hst.finished (by simp [hstop])
      have hjoinable := hst.joinable (by rw [hmain]; rfl) (by simp [hstop])
      have hcleared := hst.cleared (by simp [hstop, Stop.behindClear])
      rw [hjoinable, if_pos rfl]
      exact hst.of_stop hmain rfl rfl (by simp) (by simp) (fun _ => hjoinable) (fun _ => hcleared)
        (by simp)
  | join c hstop hworker =>
      cases hst.caller (c := c) (by simp [hstop])
      have hmain := hst.finished (by simp [hstop])
      have hcleared := hst.cleared (by simp [hstop, Stop.behindClear])
      exact hst.of_stop hmain rfl rfl (by simp) (by simp) (fun h => absurd rfl h) (fun h => h.elim)
        (fun _ => ⟨hworker, rfl, hcleared⟩)

/-- Once the worker has left its loop and `run` is over, nothing happens any more but calls of
`stop`. -/
theorem quiet_of_exited (h : Reaches (step env) st st') (hmain : st.main = .finished)
    (hworker : st.worker = .exited) :
    st'.worker = .exited ∧ st'.received = st.received ∧ st'.answered = st.answered ∧
      st'.sent = st.sent ∧ st'.server.objects = st.server.objects := by
  have hinv : st'.main = .finished ∧ st'.worker = .exited ∧ st'.received = st.received ∧
      st'.answered = st.answered ∧ st'.sent = st.sent ∧
      st'.server.objects = st.server.objects := by
    refine h.inv (fun s => s.main = .finished ∧ s.worker = .exited ∧ s.received = st.received ∧
      s.answered = st.answered ∧ s.sent = st.sent ∧ s.server.objects = st.server.objects) ?_
      ⟨hmain, hworker, rfl, rfl, rfl, rfl⟩
    rintro s a s' hstep ⟨hs, hexited, hrest⟩
    cases step_cases hstep with
    | setRunning hmain' | spawn hmain' | listen hmain' | handle _ _ hmain' | openConn _ hmain'
    | closeConn _ hmain' | receive _ _ hmain' => cases hs.symm.trans hmain'
    | runEnds hmain' =>
        rcases hmain' with hmain' | hmain'
        · cases hs.symm.trans hmain'
        · cases hs.symm.trans hmain'
    | test hworker' | pop _ _ hworker' | found _ _ hworker' | skip _ hworker'
    | process _ _ _ _ hworker' | send _ _ _ hworker' => cases hexited.symm.trans hworker'
    | enter | clear | stopServer | askJoinable | join => exact ⟨hs, hexited, hrest⟩
  exact hinv.2

/-- **The destructor leaves no worker behind.** In a program that calls `stop` from the
destructor only, the worker has left its loop and has been joined when the destructor's `stop`
has returned, and from then on no session is touched and nothing is served or sent. -/
theorem destructor_exits {as : List (Action H)} (h : exec (step env) init as = some st)
    (ha : ExecAlong (fun _ a => a.byThread = false) (step env) init as)
    (hreturned : st.stops .destructor = .returned) :
    st.worker = .exited ∧ st.joinable = false ∧
      ∀ st', Reaches (step env) st st' → st'.worker = .exited ∧ st'.received = st.received ∧
        st'.answered = st.answered ∧ st'.sent = st.sent ∧
        st'.server.objects = st.server.objects := by
  have hst : st.Alone :=
    ha.inv Alone (fun _ _ _ hstep hb hs => alone_step hstep hb hs) h alone_init
  obtain ⟨hworker, hjoinable, -⟩ := hst.returned hreturned
  refine ⟨hworker, hjoinable, fun st' hreach => ?_⟩
  exact quiet_of_exited hreach (hst.finished (by simp [hreturned])) hworker

/-- A client is served, `srv_.run` returns, and `main` destroys the server. -/
def mainRuns : List (Action ℕ) :=
  [.setRunning, .spawn, .listen, .openConn 0, .receive 0 ⟨.binary, []⟩, .handle, .test, .pop,
    .runEnds, .lookup, .enter .destructor, .clear .destructor, .process 0,
    .stopServer .destructor, .askJoinable .destructor, .send true, .test, .join .destructor]

theorem destructor_exits_mainRuns : ∃ st : System (SileroVadEngine (List F32)) ℕ,
    exec (step (scriptedEnv [])) init mainRuns = some st ∧ st.worker = .exited ∧
      st.joinable = false ∧ ∀ st', Reaches (step (scriptedEnv [])) st st' →
        st'.sent = st.sent := by
  have halong : ExecAlong (fun _ a => a.byThread = false) (step (scriptedEnv [])) init
      mainRuns := by decide
  have hexec : exec (step (scriptedEnv [])) init mainRuns = some _ := rfl
  obtain ⟨hworker, hjoinable, hquiet⟩ := destructor_exits hexec halong rfl
  exact ⟨_, rfl, hworker, hjoinable, fun st' hreach => (hquiet st' hreach).2.2.2.1⟩

/-- Another thread is inside of `stop` when the destructor asks for the flag. -/
theorem stop_returns_early :
    ¬ ∀ (as : List (Action ℕ)) (st : System (SileroVadEngine (List F32)) ℕ),
      exec (step (scriptedEnv [])) init as = some st → st.stops .destructor = .returned →
        st.worker = .exited := by
  intro h
  have hexited := h [.setRunning, .spawn, .listen, .runEnds, .enter (.thread 0),
    .clear (.thread 0), .enter .destructor] _ rfl rfl
  cases hexited

end System

end VadService
