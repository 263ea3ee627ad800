import VadService.Lib.Machine
import Mathlib

set_option autoImplicit false

/-! # Words of segments

A word of segments is made of four letters: `idle` between segments, `opens` and `closes`
around each of them and `inside` within, that is a word of
`(idle* opens inside* closes)*`. A two-state machine reads such words one letter at a time;
its accepted inputs are exactly the prefixes of the words (`isPrefix_iff`).
-/

/-- The four letters of a segmented stream. -/
structure Segments (α : Type) where
  idle : α
  opens : α
  inside : α
  closes : α
  distinct : [idle, opens, inside, closes].Nodup

namespace Segments

open Machine Computability

variable {α : Type} (S : Segments α)

/-- The words of one segment, with the idle letters before it. -/
def segment : Language α :=
  {[S.idle]}∗ * {[S.opens]} * {[S.inside]}∗ * {[S.closes]}

/-- The words of segments. -/
def words : Language α := S.segment∗

/-- The prefixes of words of segments. -/
def IsPrefix (w : List α) : Prop := ∃ rest, w ++ rest ∈ S.words

variable [DecidableEq α]

/-- Reading one letter: from outside or inside a segment to outside or inside. -/
def next : Bool → α → Option Bool
  | false, a => if a = S.idle then some false else if a = S.opens then some true else none
  | true, a => if a = S.inside then some true else if a = S.closes then some false else none

theorem next_idle : S.next false S.idle = some false := if_pos rfl

theorem next_opens : S.next false S.opens = some true := by
  have h := S.distinct
  have hne : S.opens ≠ S.idle := by
    rintro he
    simp [he] at h
  rw [next, if_neg hne, if_pos rfl]

theorem next_inside : S.next true S.inside = some true := if_pos rfl

theorem next_closes : S.next true S.closes = some false := by
  have h := S.distinct
  have hne : S.closes ≠ S.inside := by
    rintro he
    simp [he] at h
  rw [next, if_neg hne, if_pos rfl]

/-! ## Words are accepted -/

/-- Repeating a letter that does not change the state. -/
theorem exec_kstar {o : Bool} {a : α} (h : S.next o a = some o) {w : List α}
    (hw : w ∈ ({[a]} : Language α)∗) : exec S.next o w = some o := by
  rw [Language.mem_kstar] at hw
  obtain ⟨L, rfl, hL⟩ := hw
  induction L with
  | nil => rfl
  | cons u L ih =>
      have hu : u = [a] := hL u (by simp)
      calc exec S.next o (u :: L).flatten = exec S.next o L.flatten := by
            rw [List.flatten_cons, hu, exec_append, exec_cons, h, Option.bind_some, exec_nil,
              Option.bind_some]
        _ = some o := ih fun v hv => hL v (List.mem_cons_of_mem u hv)

theorem exec_segment {w : List α} (hw : w ∈ S.segment) : exec S.next false w = some false := by
  obtain ⟨_, ⟨_, ⟨u, hu, _, rfl, rfl⟩, v, hv, rfl⟩, _, rfl, rfl⟩ := hw
  have hclose : exec S.next true [S.closes] = some false := by
    rw [exec_cons, next_closes]
    rfl
  have hopen : exec S.next false [S.opens] = some true := by
    rw [exec_cons, next_opens]
    rfl
  dsimp only
  rw [exec_append, exec_append, exec_append, S.exec_kstar S.next_idle hu, Option.bind_some,
    hopen, Option.bind_some, S.exec_kstar S.next_inside hv, Option.bind_some, hclose]

theorem exec_words {w : List α} (hw : w ∈ S.words) : exec S.next false w = some false := by
  rw [words, Language.mem_kstar] at hw
  obtain ⟨L, rfl, hL⟩ := hw
  induction L with
  | nil => rfl
  | cons u L ih =>
      calc exec S.next false (u :: L).flatten = exec S.next false L.flatten := by
            rw [List.flatten_cons, exec_append, S.exec_segment (hL u List.mem_cons_self),
              Option.bind_some]
        _ = some false := ih fun v hv => hL v (List.mem_cons_of_mem u hv)

/-! ## Accepted inputs are prefixes -/

/-- The continuations that complete a word, from outside or inside a segment; outside, one
more segment is to come. -/
def completions : Bool → Language α
  | false => S.segment * S.words
  | true => {[S.inside]}∗ * {[S.closes]} * S.words

omit [DecidableEq α] in
theorem mem_words_of_segment {w : List α} (h : w ∈ S.segment * S.words) : w ∈ S.words := by
  rw [words, ← Language.one_add_self_mul_kstar_eq_kstar]
  exact Or.inr h

omit [DecidableEq α] in
/-- Each letter can be put in front of a continuation, by the laws of the star. -/
theorem letter_mul_completions :
    {[S.idle]} * S.completions false ≤ S.completions false ∧
      {[S.opens]} * S.completions true ≤ S.completions false ∧
      {[S.inside]} * S.completions true ≤ S.completions true ∧
      {[S.closes]} * S.completions false ≤ S.completions true := by
  have hidle : ({[S.idle]} : Language α) * {[S.idle]}∗ ≤ {[S.idle]}∗ := mul_kstar_le_kstar
  have hinside : ({[S.inside]} : Language α) * {[S.inside]}∗ ≤ {[S.inside]}∗ := mul_kstar_le_kstar
  refine ⟨?_, ?_, ?_, ?_⟩
  · calc ({[S.idle]} : Language α) * (S.segment * S.words)
        = {[S.idle]} * {[S.idle]}∗ * {[S.opens]} * {[S.inside]}∗ * {[S.closes]} * S.words := by
          simp only [segment, mul_assoc]
      _ ≤ {[S.idle]}∗ * {[S.opens]} * {[S.inside]}∗ * {[S.closes]} * S.words := by
          gcongr
  · calc ({[S.opens]} : Language α) * ({[S.inside]}∗ * {[S.closes]} * S.words)
        = 1 * {[S.opens]} * {[S.inside]}∗ * {[S.closes]} * S.words := by
          simp only [one_mul, mul_assoc]
      _ ≤ {[S.idle]}∗ * {[S.opens]} * {[S.inside]}∗ * {[S.closes]} * S.words := by
          gcongr
          exact one_le_kstar
  · calc ({[S.inside]} : Language α) * ({[S.inside]}∗ * {[S.closes]} * S.words)
        = {[S.inside]} * {[S.inside]}∗ * {[S.closes]} * S.words := by
          simp only [mul_assoc]
      _ ≤ {[S.inside]}∗ * {[S.closes]} * S.words := by
          gcongr
  · calc ({[S.closes]} : Language α) * (S.segment * S.words)
        ≤ 1 * {[S.closes]} * S.words := by
          rw [one_mul]
          gcongr
          exact fun w hw => S.mem_words_of_segment hw
      _ ≤ {[S.inside]}∗ * {[S.closes]} * S.words := by
          gcongr
          exact one_le_kstar

/-- A letter the machine reads can be put in front of a continuation. -/
theorem cons_mem_completions {o o' : Bool} {a : α} (h : S.next o a = some o') {w : List α}
    (hw : w ∈ S.completions o') : a :: w ∈ S.completions o := by
  obtain ⟨h1, h2, h3, h4⟩ := S.letter_mul_completions
  have hcons : ∀ b : α, b :: w ∈ ({[b]} : Language α) * S.completions o' := by
    intro b
    exact ⟨[b], rfl, w, hw, rfl⟩
  cases o with
  | false =>
      simp only [next] at h
      split_ifs at h with ha hb
      · cases h
        exact h1 (ha ▸ hcons S.idle)
      · cases h
        exact h2 (hb ▸ hcons S.opens)
  | true =>
      simp only [next] at h
      split_ifs at h with ha hb
      · cases h
        exact h3 (ha ▸ hcons S.inside)
      · cases h
        exact h4 (hb ▸ hcons S.closes)

omit [DecidableEq α] in
/-- From every state some word completes. -/
theorem completions_nonempty (o : Bool) : ∃ w, w ∈ S.completions o := by
  have hnil : [] ∈ S.words := Language.nil_mem_kstar _
  have hinside : ([] : List α) ∈ ({[S.inside]} : Language α)∗ := Language.nil_mem_kstar _
  have hclose : [S.closes] ∈ S.completions true :=
    ⟨[S.closes], ⟨[], hinside, [S.closes], rfl, rfl⟩, [], hnil, rfl⟩
  cases o with
  | true => exact ⟨_, hclose⟩
  | false => exact ⟨_, S.letter_mul_completions.2.1 ⟨[S.opens], rfl, _, hclose, rfl⟩⟩

theorem append_mem_completions {w : List α} {o o' : Bool} (h : exec S.next o w = some o')
    {v : List α} (hv : v ∈ S.completions o') : w ++ v ∈ S.completions o := by
  induction w generalizing o with
  | nil =>
      cases h
      exact hv
  | cons a w ih =>
      rw [exec_cons] at h
      cases ha : S.next o a with
      | none => simp [ha] at h
      | some o'' =>
          rw [ha, Option.bind_some] at h
          exact S.cons_mem_completions ha (ih h)

/-- **The machine accepts the prefixes of words of segments.** -/
theorem isPrefix_iff (w : List α) : S.IsPrefix w ↔ ∃ o, exec S.next false w = some o := by
  constructor
  · rintro ⟨rest, h⟩
    have hall := S.exec_words h
    rw [exec_append] at hall
    cases hw : exec S.next false w with
    | none => simp [hw] at hall
    | some o => exact ⟨o, rfl⟩
  · rintro ⟨o, ho⟩
    obtain ⟨v, hv⟩ := S.completions_nonempty o
    exact ⟨v, S.mem_words_of_segment (S.append_mem_completions ho hv)⟩

end Segments
