import VadService.Iterator.Length

set_option autoImplicit false

/-! # An idle iterator starts again

Between two segments the trigger remembers nothing but the sample counter and the segments
recorded so far. So what follows a silence is segmented as if it were a stream of its own,
with its positions moved (`predict_restarts`). The difficulty is the sentinel `0`, which says
that no position is remembered and does not move (`moved`): no position a segment remembers is
`0`.
-/

namespace VadService

open Machine Window

/-- The segment `n` samples later. -/
def Timestamp.shift (n : ℤ) (s : Timestamp) : Timestamp := ⟨s.start + n, s.end_ + n⟩

namespace Trigger

/-! ## One window as a function -/

/-- The move of a window, over the integers. -/
def move (a : WordArith) (c : VadConfig) (t : Trigger) (prob : F32) : Trigger :=
  if c.isHigh prob = true then
    if t.triggered = true then
      { t with
        currentSample := t.nextSample c
        tempEnd := 0
        nextStart := if t.tempEnd ≠ 0 ∧ t.nextStart < t.prevEnd then t.currentSample
          else t.nextStart }
    else
      { t with
        currentSample := t.nextSample c
        triggered := true
        currentSpeech := { t.currentSpeech with start := t.currentSample } }
  else if t.triggered = false then { t with currentSample := t.nextSample c }
  else if t.exceeds c then
    if 0 < t.prevEnd then
      if t.nextStart < t.prevEnd then t.close c { t.currentSpeech with end_ := t.prevEnd }
      else
        { t.close c { t.currentSpeech with end_ := t.prevEnd } with
          triggered := true
          currentSpeech := { start := t.nextStart } }
    else t.close c { t.currentSpeech with end_ := t.nextSample c }
  else if c.isLow prob = true then
    if t.silent a c ∧ c.minSpeechSamples < t.silenceStart c - t.currentSpeech.start then
      t.close c { t.currentSpeech with end_ := t.silenceStart c }
    else
      { t with
        currentSample := t.nextSample c
        tempEnd := t.silenceStart c
        prevEnd := if a.toUnsigned c.minSilenceSamplesAtMaxSpeech
            < t.nextSample c - t.silenceStart c then t.silenceStart c else t.prevEnd
        currentSpeech := if t.silent a c then { t.currentSpeech with end_ := t.silenceStart c }
          else t.currentSpeech }
  else { t with currentSample := t.nextSample c }

variable {a : WordArith} {c : VadConfig} {t t' u : Trigger} {prob : F32}

/-- A window allows one move only. -/
theorem Next.eq_move (h : Next a c t prob t') : t' = t.move a c prob := by
  unfold move
  cases h with
  | rise hp ht => rw [if_pos hp, if_neg (by rw [ht]; decide)]
  | extend hp ht => rw [if_pos hp, if_pos ht]
  | endAtPrev hp ht hex hpe hns =>
      rw [if_neg (by rw [hp]; decide), if_neg (by rw [ht]; decide), if_pos hex, if_pos hpe,
        if_pos hns]
  | split hp ht hex hpe hns =>
      rw [if_neg (by rw [hp]; decide), if_neg (by rw [ht]; decide), if_pos hex, if_pos hpe,
        if_neg (not_lt.mpr hns)]
  | cut hp ht hex hpe =>
      rw [if_neg (by rw [hp]; decide), if_neg (by rw [ht]; decide), if_pos hex,
        if_neg (not_lt.mpr hpe)]
  | fall hp hl ht hex hs hm =>
      rw [if_neg (by rw [hp]; decide), if_neg (by rw [ht]; decide), if_neg hex, if_pos hl,
        if_pos ⟨hs, hm⟩]
  | mark hp hl ht hex hno =>
      have hhigh : ¬ c.isHigh prob = true := by rw [hp]; decide
      have hup : ¬ t.triggered = false := by rw [ht]; decide
      rw [if_neg hhigh, if_neg hup, if_neg hex, if_pos hl, if_neg hno]
  | keep hp hkeep =>
      rw [if_neg (by rw [hp]; decide)]
      rcases hkeep with ht | ⟨hex, hl⟩
      · rw [if_pos ht]
      · by_cases ht : t.triggered = false
        · rw [if_pos ht]
        · rw [if_neg ht, if_neg hex, if_neg (by rw [hl]; decide)]

/-! ## Moving the positions -/

/-- A remembered position `n` samples later. -/
def moved (n p : ℤ) : ℤ := if p = 0 then 0 else p + n

theorem moved_zero (n : ℤ) : moved n 0 = 0 := if_pos rfl

theorem moved_of_pos {p : ℤ} (n : ℤ) (h : 0 < p) : moved n p = p + n := if_neg h.ne'

section Moved

variable {n p q : ℤ} (hn : 0 ≤ n) (hp : 0 ≤ p)

include hn hp

theorem moved_eq_zero : moved n p = 0 ↔ p = 0 := by
  unfold moved
  split_ifs <;> omega

theorem moved_lt_moved (hq : 0 ≤ q) : moved n p < moved n q ↔ p < q := by
  unfold moved
  split_ifs <;> omega

end Moved

/-- `t` is where `u` would be if the stream had begun `n` samples earlier, with the segments
`S`. -/
structure Later (n : ℤ) (S : List Timestamp) (u t : Trigger) : Prop where
  triggered : t.triggered = u.triggered
  currentSample : t.currentSample = u.currentSample + n
  tempEnd : t.tempEnd = moved n u.tempEnd
  prevEnd : t.prevEnd = moved n u.prevEnd
  nextStart : t.nextStart = moved n u.nextStart
  speeches : t.speeches = S ++ u.speeches.map (Timestamp.shift n)
  start : u.triggered = true → t.currentSpeech.start = u.currentSpeech.start + n

/-- An idle trigger is a new one, later. -/
theorem later_of_idle (h : Range t) (hidle : t.triggered = false) :
    Later t.currentSample t.speeches {} t := by
  obtain ⟨htemp, hprev, hnext⟩ := h.idle hidle
  refine ⟨hidle, (zero_add _).symm, ?_, ?_, ?_, (List.append_nil _).symm, ?_⟩
  · rw [htemp, moved_zero]
  · rw [hprev, moved_zero]
  · rw [hnext, moved_zero]
  · intro ht
    cases ht

section Later

variable {n : ℤ} {S : List Timestamp} (h : Later n S u t) (hn : 0 ≤ n)

include h

theorem Later.nextSample : t.nextSample c = u.nextSample c + n := by
  unfold Trigger.nextSample
  rw [h.currentSample]
  ring

/-- A segment is closed at the same place of its own stream. -/
theorem Later.close {s s' : Timestamp} (hs : s' = s.shift n) :
    Later n S (u.close c s) (t.close c s') := by
  refine ⟨rfl, h.nextSample, (moved_zero n).symm, (moved_zero n).symm, (moved_zero n).symm, ?_,
    fun hf => (by cases hf)⟩
  show t.speeches ++ [s'] = S ++ (u.speeches ++ [s]).map (Timestamp.shift n)
  rw [h.speeches, hs, List.map_append, List.map_singleton, List.append_assoc]

variable (hu : Range u) (hW : 0 < c.windowSizeSamples) (hup : u.triggered = true)

include hn hu

theorem Later.silenceStart (hup : u.triggered = true) :
    t.silenceStart c = u.silenceStart c + n := by
  have hrange := (hu.opened hup).tempEnd
  have hstart := (hu.opened hup).start_nonneg
  have hiff : t.tempEnd = 0 ↔ u.tempEnd = 0 := by
    rw [h.tempEnd]
    exact moved_eq_zero hn (by omega)
  unfold Trigger.silenceStart
  by_cases hzero : u.tempEnd = 0
  · rw [if_pos (hiff.mpr hzero), if_pos hzero, h.nextSample]
  · rw [if_neg (mt hiff.mp hzero), if_neg hzero, h.tempEnd, moved_of_pos n (by omega)]

/-- **One window more.** Both triggers make the same move. -/
theorem Later.move (hW : 0 < c.windowSizeSamples) (prob : F32) :
    Later n S (u.move a c prob) (t.move a c prob) := by
  have hnext : t.nextSample c = u.nextSample c + n := h.nextSample
  unfold Trigger.move
  rw [h.triggered]
  by_cases hp : c.isHigh prob = true
  · rw [if_pos hp, if_pos hp]
    by_cases hup : u.triggered = true
    · -- inside a segment the end of a silence may set `next_start`
      obtain ⟨hstart, hle, htemp, hprev, hns⟩ := hu.opened hup
      rw [if_pos hup, if_pos hup]
      refine ⟨rfl, hnext, (moved_zero n).symm, h.prevEnd, ?_, h.speeches, h.start⟩
      have hiff : (t.tempEnd ≠ 0 ∧ t.nextStart < t.prevEnd)
          ↔ (u.tempEnd ≠ 0 ∧ u.nextStart < u.prevEnd) := by
        rw [h.tempEnd, h.nextStart, h.prevEnd, moved_lt_moved hn hns.1 hprev.1, ne_eq,
          moved_eq_zero hn (by omega)]
      show (if t.tempEnd ≠ 0 ∧ t.nextStart < t.prevEnd then t.currentSample else t.nextStart)
        = moved n (if u.tempEnd ≠ 0 ∧ u.nextStart < u.prevEnd then u.currentSample
            else u.nextStart)
      by_cases hset : u.tempEnd ≠ 0 ∧ u.nextStart < u.prevEnd
      · rw [if_pos (hiff.mpr hset), if_pos hset, h.currentSample, moved_of_pos n (by omega)]
      · rw [if_neg (mt hiff.mp hset), if_neg hset, h.nextStart]
    · rw [if_neg hup, if_neg hup]
      exact ⟨rfl, hnext, h.tempEnd, h.prevEnd, h.nextStart, h.speeches,
        fun _ => h.currentSample⟩
  · rw [if_neg hp, if_neg hp]
    by_cases hidle : u.triggered = false
    · rw [if_pos hidle, if_pos hidle]
      exact ⟨rfl, hnext, h.tempEnd, h.prevEnd, h.nextStart, h.speeches, h.start⟩
    · have hup : u.triggered = true := by simpa using hidle
      obtain ⟨hstart, hle, htemp, hprev, hns⟩ := hu.opened hup
      have hopen := h.start hup
      have hsilence : t.silenceStart c = u.silenceStart c + n := h.silenceStart hn hu hup
      have hpos : 0 < u.silenceStart c := by
        unfold Trigger.silenceStart Trigger.nextSample
        split_ifs <;> omega
      have hexceeds : t.exceeds c ↔ u.exceeds c := by
        unfold exceeds
        rw [hnext, hopen, add_sub_add_right_eq_sub]
      have hspeech : t.silenceStart c - t.currentSpeech.start
          = u.silenceStart c - u.currentSpeech.start := by
        rw [hsilence, hopen, add_sub_add_right_eq_sub]
      have hquiet : t.nextSample c - t.silenceStart c = u.nextSample c - u.silenceStart c := by
        rw [hnext, hsilence, add_sub_add_right_eq_sub]
      have hsilent : t.silent a c ↔ u.silent a c := by
        unfold Trigger.silent
        rw [hquiet]
      have hprev0 : 0 < t.prevEnd ↔ 0 < u.prevEnd := by
        rw [h.prevEnd, ← moved_zero n]
        exact moved_lt_moved hn le_rfl hprev.1
      have hns0 : t.nextStart < t.prevEnd ↔ u.nextStart < u.prevEnd := by
        rw [h.nextStart, h.prevEnd]
        exact moved_lt_moved hn hns.1 hprev.1
      rw [if_neg hidle, if_neg hidle, hspeech, hquiet]
      simp only [hexceeds, hprev0, hns0, hsilent]
      by_cases hex : u.exceeds c
      · rw [if_pos hex, if_pos hex]
        by_cases hpe : 0 < u.prevEnd
        · have hclosed : Later n S (u.close c { u.currentSpeech with end_ := u.prevEnd })
              (t.close c { t.currentSpeech with end_ := t.prevEnd }) :=
            h.close (by simp only [Timestamp.shift, hopen, h.prevEnd, moved_of_pos n hpe])
          rw [if_pos hpe, if_pos hpe]
          by_cases hlt : u.nextStart < u.prevEnd
          · rw [if_pos hlt, if_pos hlt]
            exact hclosed
          · -- the segment goes on, from a position that is remembered
            rw [if_neg hlt, if_neg hlt]
            refine ⟨rfl, hclosed.currentSample, hclosed.tempEnd, hclosed.prevEnd,
              hclosed.nextStart, hclosed.speeches, fun _ => ?_⟩
            show t.nextStart = u.nextStart + n
            rw [h.nextStart, moved_of_pos n (by omega)]
        · rw [if_neg hpe, if_neg hpe]
          exact h.close (by simp only [Timestamp.shift, hopen, hnext])
      · rw [if_neg hex, if_neg hex]
        by_cases hl : c.isLow prob = true
        · rw [if_pos hl, if_pos hl]
          by_cases hfall : u.silent a c ∧
              c.minSpeechSamples < u.silenceStart c - u.currentSpeech.start
          · rw [if_pos hfall, if_pos hfall]
            exact h.close (by simp only [Timestamp.shift, hopen, hsilence])
          · rw [if_neg hfall, if_neg hfall]
            have hmark : t.silenceStart c = moved n (u.silenceStart c) := by
              rw [hsilence, moved_of_pos n hpos]
            refine ⟨rfl, hnext, hmark, ?_, h.nextStart, h.speeches, fun _ => ?_⟩
            · dsimp only
              split_ifs
              · exact hmark
              · exact h.prevEnd
            · dsimp only
              split_ifs
              · exact hopen
              · exact hopen
        · rw [if_neg hl, if_neg hl]
          exact ⟨rfl, hnext, h.tempEnd, h.prevEnd, h.nextStart, h.speeches, h.start⟩

end Later

/-! ## Runs -/

variable {n : ℤ} {S : List Timestamp} {B : ℤ}

/-- **A run from a later state.** The flags are the same, and the segments are the same ones
later. -/
theorem Later.run (h : Later n S u t) (hn : 0 ≤ n) (hu : Range u) (ht : Range t)
    (hW : 0 < c.windowSizeSamples) (probs : List F32)
    (hB : t.currentSample + probs.length * c.windowSizeSamples < 2 ^ 31) :
    t.flags c probs = u.flags c probs ∧
      Later n S (final (step WordArith.bits32 c) u probs)
        (final (step WordArith.bits32 c) t probs) := by
  induction probs generalizing t u with
  | nil => exact ⟨rfl, h⟩
  | cons p ps ih =>
      have ha := WordArith.bits32_exactBelow
      have hlen : ((p :: ps).length : ℤ) * c.windowSizeSamples
          = c.windowSizeSamples + ps.length * c.windowSizeSamples := by
        push_cast [List.length_cons]
        ring
      have hps : 0 ≤ (ps.length : ℤ) * c.windowSizeSamples := mul_nonneg (by omega) hW.le
      have hnext : t.nextSample c = t.currentSample + c.windowSizeSamples := rfl
      have hlt : t.nextSample c < 2 ^ 31 := by omega
      have hult : u.nextSample c < 2 ^ 31 := by
        have hshift : t.nextSample c = u.nextSample c + n := h.nextSample
        omega
      have hmove : Next WordArith.bits32 c t p (t.step WordArith.bits32 c p).2 :=
        step_next ha hW.le ht hlt
      have humove : Next WordArith.bits32 c u p (u.step WordArith.bits32 c p).2 :=
        step_next ha hW.le hu hult
      have hlater : Later n S (u.step WordArith.bits32 c p).2
          (t.step WordArith.bits32 c p).2 := by
        rw [hmove.eq_move, humove.eq_move]
        exact h.move hn hu hW p
      have hcur := hmove.currentSample
      obtain ⟨hflags, hfinal⟩ := ih hlater (hu.next hW.le humove) (ht.next hW.le hmove)
        (by omega)
      refine ⟨?_, hfinal⟩
      rw [flags, flags, hlater.triggered, hflags]

/-- The end of the audio closes the same segment later. -/
theorem Later.flush (h : Later n S u t) (len : ℤ) :
    t.flush (len + n) = S ++ (u.flush len).map (Timestamp.shift n) := by
  unfold Trigger.flush
  rw [h.triggered, h.speeches, List.map_append, ← List.append_assoc]
  congr 1
  by_cases hup : u.triggered = true
  · rw [if_pos hup, if_pos hup, List.map_singleton]
    simp only [Timestamp.shift, h.start hup]
  · rw [if_neg hup, if_neg hup, List.map_nil]

end Trigger

namespace VadIterator

variable {σ : Type} (run : OrtRun σ)

/-- After a silence the trigger is a new one, later. -/
theorem later_of_silence (it : VadIterator σ) (hW : 0 < it.cfg.windowSizeSamples)
    (ws : List (List F32))
    (hidle : (final (predictStep run) it.resetStates ws).isTriggered = false)
    (hlen : (ws.length : ℤ) * it.cfg.windowSizeSamples < 2 ^ 31) :
    Trigger.Later (ws.length * it.cfg.windowSizeSamples)
        (final (predictStep run) it.resetStates ws).speeches {}
        (final (predictStep run) it.resetStates ws).toTrigger ∧
      Trigger.Range (final (predictStep run) it.resetStates ws).toTrigger ∧
      (final (predictStep run) it.resetStates ws).currentSample
        = ws.length * it.cfg.windowSizeSamples := by
  have hrun := Trigger.run_range WordArith.bits32_exactBelow hW.le Trigger.range_init
    (outputs (predictStep run) it.resetStates ws) (by
      rw [length_outputs]
      exact (zero_add _).trans_lt hlen)
  rw [length_outputs] at hrun
  have htrig := final_predictStep run it.resetStates ws
  rw [resetStates_cfg, resetStates_toTrigger] at htrig
  rw [← htrig] at hrun
  obtain ⟨hrange, hcur⟩ := hrun
  have hcur : (final (predictStep run) it.resetStates ws).currentSample
      = ws.length * it.cfg.windowSizeSamples := hcur.trans (zero_add _)
  refine ⟨?_, hrange, hcur⟩
  rw [← hcur]
  exact Trigger.later_of_idle hrange hidle

/-- **After a silence the iterator segments as if the stream began there.** -/
theorem predict_restarts (it : VadIterator σ) (hW : 0 < it.cfg.windowSizeSamples)
    (ws vs : List (List F32))
    (hidle : (final (predictStep run) it.resetStates ws).isTriggered = false)
    (hlen : ((ws ++ vs).length : ℤ) * it.cfg.windowSizeSamples < 2 ^ 31) :
    let mid := final (predictStep run) it.resetStates ws
    let probs := outputs (predictStep run) mid vs
    let fresh := final (Trigger.step WordArith.bits32 it.cfg) {} probs
    let all := final (predictStep run) it.resetStates (ws ++ vs)
    outputs (triggerStep run) mid vs = Trigger.flags it.cfg {} probs ∧
      all.isTriggered = fresh.triggered ∧
      (fresh.triggered = true → all.currentSpeech.start
        = fresh.currentSpeech.start + ws.length * it.cfg.windowSizeSamples) ∧
      all.getSpeechTimestamps = mid.getSpeechTimestamps
        ++ fresh.speeches.map (Timestamp.shift (ws.length * it.cfg.windowSizeSamples)) := by
  intro mid probs fresh all
  have hrest : Trigger.Later (ws.length * it.cfg.windowSizeSamples) mid.speeches {}
      mid.toTrigger ∧ Trigger.Range mid.toTrigger ∧
      mid.currentSample = ws.length * it.cfg.windowSizeSamples :=
    it.later_of_silence run hW ws hidle (by
      have : 0 ≤ (vs.length : ℤ) * it.cfg.windowSizeSamples := mul_nonneg (by omega) hW.le
      rw [List.length_append] at hlen
      push_cast at hlen
      linarith)
  obtain ⟨hlater, hrange, hcur⟩ := hrest
  have hall : all.toTrigger
      = final (Trigger.step WordArith.bits32 it.cfg) mid.toTrigger probs := by
    show (final (predictStep run) it.resetStates (ws ++ vs)).toTrigger = _
    rw [final_append, final_predictStep, final_predictStep_cfg, resetStates_cfg]
  have hmid : mid.cfg = it.cfg := final_predictStep_cfg run it.resetStates ws
  obtain ⟨hflags, hfinal⟩ := hlater.run (by positivity) Trigger.range_init hrange hW probs (by
    rw [hcur, length_outputs, ← add_mul]
    rw [List.length_append] at hlen
    exact_mod_cast hlen)
  rw [← hall] at hfinal
  refine ⟨?_, hfinal.triggered, hfinal.start, hfinal.speeches⟩
  rw [outputs_triggerStep, hmid]
  exact hflags

/-- Windows of two samples, and a segment ends at the first low one. -/
def prompt : VadConfig := VadConfig.new 1000 2 (binary32.round (1 / 2)) 0 30 0

theorem predict_restarts_windows :
    let window := List.replicate 2 F32.zero
    let mid := final (predictStep scripted)
      (new prompt [F32.ofInt 1, F32.zero, F32.ofInt 1]).resetStates [window, window]
    mid.getSpeechTimestamps = [⟨0, 4⟩] ∧ outputs (triggerStep scripted) mid [window] = [true] := by
  intro window mid
  have htrig : mid.toTrigger
      = final (Trigger.step WordArith.bits32 prompt) {} [F32.ofInt 1, F32.zero] :=
    final_scripted _ _ (by decide)
  have hidle : mid.isTriggered = false := by
    show mid.toTrigger.triggered = false
    rw [htrig]
    decide +kernel
  have hprobs : outputs (predictStep scripted) mid [window] = [F32.ofInt 1] := rfl
  have hrest := predict_restarts scripted _ (by decide) [window, window] [window] hidle
    (by decide)
  refine ⟨?_, ?_⟩
  · show mid.toTrigger.speeches = _
    rw [htrig]
    decide +kernel
  · rw [hrest.1, hprobs]
    decide +kernel

/-- The windows of a recording that is cut at a window boundary. -/
theorem processRun_append (it : VadIterator σ) {x : List F32}
    (hw : 0 < it.cfg.windowSizeSamples.toNat)
    (hx : it.cfg.windowSizeSamples.toNat ∣ x.length) (y : List F32) :
    let rest := (it.processProbs run (x ++ y)).drop
      (x.length / it.cfg.windowSizeSamples.toNat)
    (it.processRun run (x ++ y)).toTrigger
        = final (Trigger.step WordArith.bits32 it.cfg) (it.processRun run x).toTrigger rest := by
  intro rest
  have hleft : leftover it.cfg.windowSizeSamples.toNat x = [] := by
    rw [← List.length_eq_zero_iff, length_leftover]
    exact Nat.mod_eq_zero_of_dvd hx
  have hwindows : windows it.cfg.windowSizeSamples.toNat (x ++ y)
      = windows it.cfg.windowSizeSamples.toNat x
        ++ windows it.cfg.windowSizeSamples.toNat y := by
    rw [windows_append hw, hleft, List.nil_append]
  have hprobs : it.processProbs run (x ++ y) = it.processProbs run x ++ rest := by
    have hlen := it.length_processProbs run x
    show _ = _ ++ (it.processProbs run (x ++ y)).drop _
    rw [processProbs, hwindows, outputs_append, ← processProbs, List.drop_left' hlen]
  rw [processRun_toTrigger, processRun_toTrigger, hprobs, final_append]

/-- **A recording cut in a silence.** When the trigger is idle at a window boundary of a
recording, the segments are those of the two parts, with the second ones moved. The second
part may be processed by any iterator whose model returns the same probabilities there. -/
theorem process_restarts {τ : Type} (run' : OrtRun τ) (it : VadIterator σ)
    (it' : VadIterator τ) {x y : List F32} (hW : 0 < it.cfg.windowSizeSamples)
    (hx : it.cfg.windowSizeSamples.toNat ∣ x.length)
    (hidle : (it.processRun run x).isTriggered = false)
    (hcfg : it'.cfg = it.cfg)
    (hprobs : it'.processProbs run' y
      = (it.processProbs run (x ++ y)).drop (x.length / it.cfg.windowSizeSamples.toNat))
    (hlen : ((x ++ y).length : ℤ) < 2 ^ 31) :
    (it.process run (x ++ y)).getSpeechTimestamps = (it.process run x).getSpeechTimestamps
      ++ (it'.process run' y).getSpeechTimestamps.map (Timestamp.shift x.length) := by
  have hw : 0 < it.cfg.windowSizeSamples.toNat := by omega
  have hsum : ((x ++ y).length : ℤ) = y.length + x.length := by
    push_cast [List.length_append]
    ring
  have htrig := it.processRun_append run hw hx y
  dsimp only at htrig
  rw [← hprobs] at htrig
  have hxlen : ((it.processProbs run x).length : ℤ) * it.cfg.windowSizeSamples = x.length := by
    have hmul := Nat.div_mul_cancel hx
    rw [length_processProbs]
    calc ((x.length / it.cfg.windowSizeSamples.toNat : ℕ) : ℤ) * it.cfg.windowSizeSamples
        = ((x.length / it.cfg.windowSizeSamples.toNat * it.cfg.windowSizeSamples.toNat : ℕ)
            : ℤ) := by
          push_cast
          rw [Int.toNat_of_nonneg hW.le]
      _ = x.length := by rw [hmul]
  have hylen := it'.length_processProbs_mul_le run' y (by rw [hcfg]; exact hW)
  rw [hcfg] at hylen
  obtain ⟨hrange, -, hcur, -⟩ := it.processRun_range run hW (x := x) (by omega)
  have hcur : (it.processRun run x).currentSample = x.length := by
    rw [hcur, Trigger.windowStart, hxlen]
  have hlater := Trigger.later_of_idle hrange hidle
  rw [hcur] at hlater
  have hfinal := (hlater.run (by positivity) Trigger.range_init hrange hW
    (it'.processProbs run' y) (by rw [hcur]; omega)).2
  have hsecond : (it'.processRun run' y).toTrigger
      = final (Trigger.step WordArith.bits32 it.cfg) {} (it'.processProbs run' y) := by
    rw [processRun_toTrigger, hcfg]
  have hfirst : (it.processRun run x).flush x.length = (it.processRun run x).speeches := by
    have hdown : ¬ (it.processRun run x).triggered = true := Bool.not_eq_true _ ▸ hidle
    rw [Trigger.flush, if_neg hdown, List.append_nil]
  rw [it.process_speeches run hW hlen, it.process_speeches run hW (by omega),
    it'.process_speeches run' (by rw [hcfg]; exact hW) (by omega), hfirst, hsecond, hsum,
    htrig]
  exact hfinal.flush y.length

theorem process_restarts_second :
    ((new prompt [F32.ofInt 1, F32.zero, F32.ofInt 1]).process scripted
        (List.replicate 4 F32.zero ++ List.replicate 2 F32.zero)).getSpeechTimestamps
      = [⟨0, 4⟩, ⟨4, 6⟩] := by
  have hprobs : (new prompt [F32.ofInt 1]).processProbs scripted (List.replicate 2 F32.zero)
      = ((new prompt [F32.ofInt 1, F32.zero, F32.ofInt 1]).processProbs scripted
        (List.replicate 4 F32.zero ++ List.replicate 2 F32.zero)).drop (4 / 2) := by
    rw [processProbs_scripted _ _ (by decide), processProbs_scripted _ _ (by decide)]
    rfl
  have hidle : ((new prompt [F32.ofInt 1, F32.zero, F32.ofInt 1]).processRun scripted
      (List.replicate 4 F32.zero)).isTriggered = false := by
    show (processRun scripted _ _).toTrigger.triggered = false
    rw [processRun_toTrigger, processProbs_scripted _ _ (by decide)]
    decide +kernel
  have hsplit := process_restarts scripted scripted
    (new prompt [F32.ofInt 1, F32.zero, F32.ofInt 1]) (new prompt [F32.ofInt 1])
    (x := List.replicate 4 F32.zero) (y := List.replicate 2 F32.zero) (by decide)
    (by decide) hidle rfl (by
      rw [List.length_replicate]
      exact hprobs) (by decide)
  rw [hsplit, process_speeches scripted _ (by decide) (by decide), processRun_toTrigger,
    processProbs_scripted _ _ (by decide), process_speeches scripted _ (by decide) (by decide),
    processRun_toTrigger, processProbs_scripted _ _ (by decide)]
  decide +kernel

end VadIterator

end VadService
