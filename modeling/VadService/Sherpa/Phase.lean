import VadService.Sherpa.Basic

set_option autoImplicit false

/-! # The state machine with two decays

`Phase.next` is one frame of the state machine, with the decay of the recognised duration as
a parameter: it is 10 ms here and 20 ms in the Go program. A single inactive frame after an
active one keeps the two recognised durations apart for the rest of the silence (`Waits`), and
then only the machine with the smaller decay leaves it. So two machines that are in step
(`InStep`) stay so exactly when the frames that end a silence are all active.
-/

namespace VadService

/-! ## One frame of the state machine -/

namespace Phase

@[simp] theorem recognise_state (decay : F32) (frameActive : Bool) (p : Phase) :
    (p.recognise decay frameActive).state = p.state := by
  unfold recognise
  dsimp only
  split_ifs <;> rfl

@[simp] theorem listen_state (frameActive : Bool) (p : Phase) :
    (p.listen frameActive).state = p.state := by
  unfold listen
  dsimp only
  split_ifs <;> rfl

@[simp] theorem begin_state (frameActive : Bool) : (begin frameActive).state = .activity := by
  cases frameActive <;> rfl

/-- The state machine after a frame, with the decay of the recognised duration. -/
def next (decay : F32) (frameActive : Bool) (p : Phase) : Phase :=
  match p.state with
  | .inactivity =>
      let p := p.recognise decay frameActive
      if voiceBeginDuration.le p.recognitionDuration then setState .inactivityTransition else p
  | .inactivityTransition => begin frameActive
  | .activity =>
      let p := p.listen frameActive
      if voiceStopDuration.le p.silenceDuration then setState .inactivity else p

theorem next_inactivity {p : Phase} (hp : p.state = .inactivity) (decay : F32) (active : Bool) :
    p.next decay active =
      if voiceBeginDuration.le (p.recognise decay active).recognitionDuration then
        setState .inactivityTransition
      else p.recognise decay active := by
  unfold next
  rw [hp]

theorem next_transition {p : Phase} (hp : p.state = .inactivityTransition) (decay : F32)
    (active : Bool) : p.next decay active = begin active := by
  unfold next
  rw [hp]

theorem next_activity {p : Phase} (hp : p.state = .activity) (decay : F32) (active : Bool) :
    p.next decay active =
      if voiceStopDuration.le (p.listen active).silenceDuration then setState .inactivity
      else p.listen active := by
  unfold next
  rw [hp]

/-! ## The two counters -/

/-- The recognised duration after a frame of a silence, in milliseconds. -/
def recognised (decay duration : ℤ) (active : Bool) : ℤ :=
  if active then duration + 20 else if 20 ≤ duration then duration - decay else duration

section Recognise

variable {p : Phase} {decay duration : ℤ} (hp : p.recognitionDuration = F32.ofInt duration)
  (hdecay : 0 ≤ decay ∧ decay ≤ 20) (hduration : 0 ≤ duration ∧ duration < 250)

include hp hdecay hduration

theorem recognise_recognised (active : Bool) :
    (p.recognise (F32.ofInt decay) active).recognitionDuration
      = F32.ofInt (recognised decay duration active) := by
  have hsmall : |duration| < 2 ^ 24 := by rw [abs_of_nonneg hduration.1]; omega
  cases active with
  | true =>
      show p.recognitionDuration.add frameDuration = _
      rw [hp, frameDuration, F32.add_ofInt hsmall (by decide)]
      rfl
  | false =>
      have hle : frameDuration.le p.recognitionDuration = decide (20 ≤ duration) := by
        rw [hp, frameDuration, F32.le_ofInt (by decide) hsmall]
      have hsub : p.recognitionDuration.sub (F32.ofInt decay)
          = F32.ofInt (duration - decay) := by
        rw [hp, F32.sub_ofInt hsmall (by rw [abs_of_nonneg hdecay.1]; omega)]
      unfold recognise recognised
      simp only [Bool.false_eq_true, if_false, hle, decide_eq_true_eq]
      split_ifs
      · exact hsub
      · exact hp

/-- The silence is left when 250 ms have been recognised. -/
theorem next_waiting (hstate : p.state = .inactivity) (active : Bool) :
    p.next (F32.ofInt decay) active =
      if 250 ≤ recognised decay duration active then setState .inactivityTransition
      else p.recognise (F32.ofInt decay) active := by
  have hsmall : |recognised decay duration active| < 2 ^ 24 := by
    unfold recognised
    split_ifs <;> rw [abs_of_nonneg (by omega)] <;> omega
  rw [next_inactivity hstate, recognise_recognised hp hdecay hduration, voiceBeginDuration,
    F32.le_ofInt (by decide) hsmall]
  simp only [decide_eq_true_eq]

end Recognise

/-- The recognised durations of the two machines in a silence whose last `k` frames are
active. Either these are all the frames recognised, or some were lost, and the durations have
stayed apart. -/
def Waits (duration goDuration : ℤ) (k : ℕ) : Prop :=
  (duration = 20 * k ∧ goDuration = 20 * k) ∨
    (goDuration + 10 ≤ duration ∧ 20 * (k : ℤ) + 10 ≤ duration)

/-- The number of active frames at the end, after one more frame. -/
def countRun (k : ℕ) (active : Bool) : ℕ := if active then k + 1 else 0

/-- A frame that does not end the silence keeps the counters as `Waits` says. -/
theorem Waits.next {duration goDuration : ℤ} {k : ℕ} (h : Waits duration goDuration k)
    (hgo : 0 ≤ goDuration) (hmul : 20 ∣ goDuration) (active : Bool) :
    Waits (recognised 10 duration active) (recognised 20 goDuration active)
        (countRun k active) ∧
      0 ≤ recognised 20 goDuration active ∧ 20 ∣ recognised 20 goDuration active := by
  unfold Waits at *
  cases active with
  | true =>
      simp only [recognised, countRun, if_true]
      push_cast
      omega
  | false =>
      simp only [recognised, countRun, Bool.false_eq_true, if_false]
      push_cast
      split_ifs <;> omega

/-- **The two machines leave a silence together exactly when the frames that end it are all
active.** -/
theorem Waits.leaves_iff {duration goDuration : ℤ} {k : ℕ} (h : Waits duration goDuration k)
    (hmul : 20 ∣ goDuration) (hduration : duration < 250) (active : Bool) :
    (250 ≤ recognised 10 duration active ↔ 250 ≤ recognised 20 goDuration active) ↔
      (active = true → 250 ≤ duration + 20 → 12 ≤ k) := by
  unfold Waits at h
  cases active with
  | true =>
      simp only [recognised, if_true, forall_true_left]
      omega
  | false =>
      simp only [recognised, Bool.false_eq_true, if_false, false_implies, iff_true]
      split_ifs <;> omega

/-- The silence counted after a frame of an utterance, in milliseconds. -/
def listened (silence : ℤ) (active : Bool) : ℤ :=
  if active then max (silence - 20) 0 else silence + 20

theorem begin_silence (active : Bool) :
    (begin active).silenceDuration = F32.ofInt (if active then 0 else 20) := by
  cases active with
  | true => rfl
  | false =>
      show F32.zero.add frameDuration = F32.ofInt 20
      rw [F32.zero, frameDuration, F32.add_ofInt (by decide) (by decide), zero_add]

theorem listen_silence {p : Phase} {silence : ℤ} (hp : p.silenceDuration = F32.ofInt silence)
    (h0 : 0 ≤ silence) (h : silence < 600) (active : Bool) :
    (p.listen active).silenceDuration = F32.ofInt (listened silence active) := by
  have hsmall : |silence| < 2 ^ 24 := by rw [abs_of_nonneg h0]; omega
  cases active with
  | true =>
      have hsub : p.silenceDuration.sub frameDuration = F32.ofInt (silence - 20) := by
        rw [hp, frameDuration, F32.sub_ofInt hsmall (by decide)]
      have hlt : (F32.ofInt (silence - 20)).lt F32.zero = decide (silence - 20 < 0) :=
        F32.lt_ofInt (by rw [abs_lt]; omega) (by decide)
      unfold listen listened
      simp only [if_true, hsub, hlt, decide_eq_true_eq]
      split_ifs with hneg
      · rw [max_eq_right hneg.le]
        rfl
      · rw [max_eq_left (not_lt.mp hneg)]
  | false =>
      have hadd : p.silenceDuration.add frameDuration = F32.ofInt (silence + 20) := by
        rw [hp, frameDuration, F32.add_ofInt hsmall (by decide)]
      have hlt : (F32.ofInt (silence + 20)).lt F32.zero = decide (silence + 20 < 0) :=
        F32.lt_ofInt (by rw [abs_lt]; omega) (by decide)
      unfold listen listened
      simp only [Bool.false_eq_true, if_false, hadd, hlt, decide_eq_true_eq]
      rw [if_neg (by omega)]

/-! ## In step -/

/-- Both machines wait for speech, with these recognised durations, and the last `k` frames
were active. -/
structure WaitingAt (p q : Phase) (k : ℕ) (duration goDuration : ℤ) : Prop where
  state : p.state = .inactivity
  goState : q.state = .inactivity
  recognised : p.recognitionDuration = F32.ofInt duration
  goRecognised : q.recognitionDuration = F32.ofInt goDuration
  waits : Waits duration goDuration k
  go_nonneg : 0 ≤ goDuration
  go_dvd : 20 ∣ goDuration
  lt : duration < 250

/-- The two machines are in step, and the last `k` frames were active. -/
inductive InStep : Phase → Phase → ℕ → Prop
  | waiting {p q : Phase} {k : ℕ} (duration goDuration : ℤ) :
      WaitingAt p q k duration goDuration → InStep p q k
  | beginning {p : Phase} {k : ℕ} : p.state = .inactivityTransition → InStep p p k
  | speaking {p : Phase} {k : ℕ} (silence : ℤ) : p.state = .activity →
      p.silenceDuration = F32.ofInt silence → 0 ≤ silence → silence < 600 → InStep p p k

theorem InStep.state_eq {p q : Phase} {k : ℕ} (h : InStep p q k) : p.state = q.state := by
  cases h with
  | waiting duration goDuration hwait => rw [hwait.state, hwait.goState]
  | beginning => rfl
  | speaking => rfl

/-- A silence begins with the counters at zero. -/
theorem inStep_setState : InStep (setState .inactivity) (setState .inactivity) 0 :=
  InStep.waiting 0 0 ⟨rfl, rfl, rfl, rfl, Or.inl ⟨rfl, rfl⟩, le_rfl, dvd_zero 20, by decide⟩

namespace WaitingAt

variable {p q : Phase} {k : ℕ} {duration goDuration : ℤ}

theorem bounds (h : WaitingAt p q k duration goDuration) :
    (0 ≤ duration ∧ duration < 250) ∧ 0 ≤ goDuration ∧ goDuration < 250 := by
  have hwaits := h.waits
  have hgo := h.go_nonneg
  have hlt := h.lt
  unfold Waits at hwaits
  omega

theorem next_eq (h : WaitingAt p q k duration goDuration) (active : Bool) :
    p.next (F32.ofInt 10) active =
      if 250 ≤ Phase.recognised 10 duration active then setState .inactivityTransition
      else p.recognise (F32.ofInt 10) active :=
  next_waiting h.recognised (by decide) h.bounds.1 h.state active

theorem goNext_eq (h : WaitingAt p q k duration goDuration) (active : Bool) :
    q.next (F32.ofInt 20) active =
      if 250 ≤ Phase.recognised 20 goDuration active then setState .inactivityTransition
      else q.recognise (F32.ofInt 20) active :=
  next_waiting h.goRecognised (by decide) h.bounds.2 h.goState active

/-- The test that a frame makes after its 20 ms. -/
theorem le_add (h : WaitingAt p q k duration goDuration) :
    voiceBeginDuration.le (p.recognitionDuration.add frameDuration)
      = decide (250 ≤ duration + 20) := by
  have h0 := h.bounds.1
  have hsmall : |duration| < 2 ^ 24 := by rw [abs_of_nonneg h0.1]; omega
  have hsmall' : |duration + 20| < 2 ^ 24 := by rw [abs_of_nonneg (by omega)]; omega
  rw [h.recognised, frameDuration, F32.add_ofInt hsmall (by decide), voiceBeginDuration,
    F32.le_ofInt (by decide) hsmall']

/-- If neither machine leaves the silence, both go on waiting. -/
theorem next (h : WaitingAt p q k duration goDuration) (active : Bool)
    (hstays : Phase.recognised 10 duration active < 250) :
    WaitingAt (p.recognise (F32.ofInt 10) active) (q.recognise (F32.ofInt 20) active)
      (countRun k active) (Phase.recognised 10 duration active)
      (Phase.recognised 20 goDuration active) := by
  obtain ⟨hwaits, hgo, hdvd⟩ := h.waits.next h.go_nonneg h.go_dvd active
  refine ⟨?_, ?_, ?_, ?_, hwaits, hgo, hdvd, hstays⟩
  · rw [recognise_state, h.state]
  · rw [recognise_state, h.goState]
  · exact recognise_recognised h.recognised (by decide) h.bounds.1 active
  · exact recognise_recognised h.goRecognised (by decide) h.bounds.2 active

/-- **A frame of a silence.** -/
theorem inStep_next (h : WaitingAt p q k duration goDuration) (active : Bool) :
    ((p.next (F32.ofInt 10) active).state = (q.next (F32.ofInt 20) active).state ↔
        (250 ≤ Phase.recognised 10 duration active ↔
          250 ≤ Phase.recognised 20 goDuration active)) ∧
      ((p.next (F32.ofInt 10) active).state = (q.next (F32.ofInt 20) active).state →
        InStep (p.next (F32.ofInt 10) active) (q.next (F32.ofInt 20) active)
          (countRun k active)) := by
  have hp : (p.recognise (F32.ofInt 10) active).state = .inactivity := by
    rw [recognise_state, h.state]
  have hq : (q.recognise (F32.ofInt 20) active).state = .inactivity := by
    rw [recognise_state, h.goState]
  have hleft : (setState .inactivityTransition).state ≠ .inactivity := by decide
  rw [h.next_eq active, h.goNext_eq active]
  by_cases hleaves : 250 ≤ Phase.recognised 10 duration active
  · rw [if_pos hleaves]
    by_cases hgoLeaves : 250 ≤ Phase.recognised 20 goDuration active
    · rw [if_pos hgoLeaves]
      exact ⟨iff_of_true rfl (iff_of_true hleaves hgoLeaves), fun _ => InStep.beginning rfl⟩
    · rw [if_neg hgoLeaves, hq]
      exact ⟨iff_of_false hleft fun hiff => hgoLeaves (hiff.mp hleaves),
        fun hstate => absurd hstate hleft⟩
  · rw [if_neg hleaves]
    by_cases hgoLeaves : 250 ≤ Phase.recognised 20 goDuration active
    · rw [if_pos hgoLeaves, hp]
      exact ⟨iff_of_false hleft.symm fun hiff => hleaves (hiff.mpr hgoLeaves),
        fun hstate => absurd hstate hleft.symm⟩
    · rw [if_neg hgoLeaves]
      exact ⟨iff_of_true (hp.trans hq.symm) (iff_of_false hleaves hgoLeaves),
        fun _ => InStep.waiting _ _ (h.next active (not_le.mp hleaves))⟩

end WaitingAt

/-- A frame of an utterance. An utterance ends with an inactive frame. -/
theorem inStep_next_activity {p : Phase} {silence : ℤ} (hp : p.state = .activity)
    (hsil : p.silenceDuration = F32.ofInt silence) (h0 : 0 ≤ silence) (h600 : silence < 600)
    (k : ℕ) (active : Bool) :
    InStep (p.next (F32.ofInt 10) active) (p.next (F32.ofInt 20) active)
      (countRun k active) := by
  have hlisten := listen_silence hsil h0 h600 active
  have hnonneg : 0 ≤ listened silence active := by
    unfold listened
    split_ifs <;> omega
  have hsmall : |listened silence active| < 2 ^ 24 := by
    rw [abs_of_nonneg hnonneg]
    unfold listened
    split_ifs <;> omega
  have hstop : voiceStopDuration.le (p.listen active).silenceDuration
      = decide (600 ≤ listened silence active) := by
    rw [hlisten, voiceStopDuration, F32.le_ofInt (by decide) hsmall]
  rw [next_activity hp, next_activity hp, hstop]
  by_cases hend : 600 ≤ listened silence active
  · have hinactive : active = false := by
      cases active with
      | false => rfl
      | true =>
          simp only [listened, if_true] at hend
          omega
    rw [if_pos (decide_eq_true hend), hinactive]
    exact inStep_setState
  · rw [if_neg (by simpa using hend)]
    apply InStep.speaking _ _ hlisten hnonneg (not_le.mp hend)
    rw [listen_state, hp]

/-- **A frame keeps the machines in step exactly when it does not end a silence in one of
them only.** -/
theorem InStep.next {p q : Phase} {k : ℕ} (h : InStep p q k) (active : Bool) :
    ((p.next (F32.ofInt 10) active).state = (q.next (F32.ofInt 20) active).state ↔
        (p.state = .inactivity → active = true →
          voiceBeginDuration.le (p.recognitionDuration.add frameDuration) = true → 12 ≤ k)) ∧
      ((p.next (F32.ofInt 10) active).state = (q.next (F32.ofInt 20) active).state →
        InStep (p.next (F32.ofInt 10) active) (q.next (F32.ofInt 20) active)
          (countRun k active)) := by
  cases h with
  | waiting duration goDuration hwait =>
      obtain ⟨hiff, hkeep⟩ := hwait.inStep_next active
      refine ⟨?_, hkeep⟩
      rw [hiff, hwait.waits.leaves_iff hwait.go_dvd hwait.lt active, hwait.le_add]
      simp only [hwait.state, decide_eq_true_eq, forall_true_left]
  | beginning hp =>
      rw [next_transition hp, next_transition hp]
      refine ⟨iff_of_true rfl fun hstate => ?_, fun _ => ?_⟩
      · rw [hp] at hstate
        cases hstate
      · apply InStep.speaking _ (begin_state active) (begin_silence active)
        · split_ifs <;> decide
        · split_ifs <;> decide
  | speaking silence hp hsil h0 h600 =>
      have hkeep := inStep_next_activity hp hsil h0 h600 k active
      refine ⟨iff_of_true ?_ fun hstate => ?_, fun _ => hkeep⟩
      · rw [next_activity hp, next_activity hp]
      · rw [hp] at hstate
        cases hstate

end Phase

end VadService
