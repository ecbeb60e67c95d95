import Mathlib.Tactic.Common
import TreeProjection.Selector.Text

/-!
# Brackets

Counting says where a bracket is closed. In a text that closes a bracket opened in front of it, the
closing one is the only one that leaves a balanced text before it (`exists_closing`,
`append_close_inj`).
-/

namespace TreeProjection

namespace Selector

/-- The characters that labels are made of. -/
def IsLabelChar (c : Char) : Prop := c ≠ ',' ∧ c ≠ '[' ∧ c ≠ ']'

instance : DecidablePred IsLabelChar :=
  fun c => inferInstanceAs (Decidable (c ≠ ',' ∧ c ≠ '[' ∧ c ≠ ']'))

/-- How many brackets are open behind a text, given how many are open in front of it; none if a
bracket is closed that is not open. -/
def openAfter : Nat → List Char → Option Nat
  | opened, [] => some opened
  | opened, c :: text =>
      if c = '[' then openAfter (opened + 1) text
      else if c = ']' then
        match opened with
        | 0 => none
        | outer + 1 => openAfter outer text
      else openAfter opened text

/-- Each `]` closes an earlier `[`, and no `[` stays open. -/
def Balanced (text : List Char) : Prop := openAfter 0 text = some 0

instance : DecidablePred Balanced :=
  fun text => inferInstanceAs (Decidable (openAfter 0 text = some 0))

@[simp]
theorem openAfter_nil (opened : Nat) : openAfter opened [] = some opened := rfl

@[simp]
theorem openAfter_open (opened : Nat) (text : List Char) :
    openAfter opened ('[' :: text) = openAfter (opened + 1) text := by
  simp [openAfter]

@[simp]
theorem openAfter_close_zero (text : List Char) : openAfter 0 (']' :: text) = none := by
  simp [openAfter]

@[simp]
theorem openAfter_close_succ (outer : Nat) (text : List Char) :
    openAfter (outer + 1) (']' :: text) = openAfter outer text := by
  simp [openAfter]

theorem openAfter_other {c : Char} (hopen : c ≠ '[') (hclose : c ≠ ']') (opened : Nat)
    (text : List Char) : openAfter opened (c :: text) = openAfter opened text := by
  simp [openAfter, hopen, hclose]

/-- Counting goes on behind a character in one way, or stops at it. -/
theorem openAfter_cons_cases (opened : Nat) (c : Char) :
    (∃ next, ∀ text, openAfter opened (c :: text) = openAfter next text) ∨
      ∀ text, openAfter opened (c :: text) = none := by
  by_cases hopen : c = '['
  · subst hopen
    exact Or.inl ⟨opened + 1, openAfter_open opened⟩
  · by_cases hclose : c = ']'
    · subst hclose
      cases opened with
      | zero => exact Or.inr openAfter_close_zero
      | succ outer => exact Or.inl ⟨outer, openAfter_close_succ outer⟩
    · exact Or.inl ⟨opened, openAfter_other hopen hclose opened⟩

/-- If a text ends with no more open brackets than there were outside of one that is open in front
of it, that bracket is closed somewhere in the text. -/
theorem exists_closing (inner outer : Nat) {opened : Nat} {text : List Char}
    (hopen : openAfter (inner + 1 + outer) text = some opened) (hle : opened ≤ outer) :
    ∃ before after, text = before ++ ']' :: after ∧ openAfter inner before = some 0 ∧
      openAfter outer after = some opened := by
  induction text generalizing inner with
  | nil =>
      rw [openAfter_nil, Option.some.injEq] at hopen
      omega
  | cons c text ih =>
      by_cases hbracket : c = '['
      · subst hbracket
        rw [openAfter_open, show inner + 1 + outer + 1 = inner + 1 + 1 + outer by omega] at hopen
        obtain ⟨before, after, rfl, hbefore, hafter⟩ := ih (inner + 1) hopen
        exact ⟨'[' :: before, after, rfl, by rw [openAfter_open, hbefore], hafter⟩
      · by_cases hclose : c = ']'
        · subst hclose
          rw [show inner + 1 + outer = inner + outer + 1 by omega, openAfter_close_succ] at hopen
          cases inner with
          | zero => exact ⟨[], text, rfl, rfl, by rwa [Nat.zero_add] at hopen⟩
          | succ inner =>
              obtain ⟨before, after, rfl, hbefore, hafter⟩ := ih inner hopen
              exact ⟨']' :: before, after, rfl, by rw [openAfter_close_succ, hbefore], hafter⟩
        · rw [openAfter_other hbracket hclose] at hopen
          obtain ⟨before, after, rfl, hbefore, hafter⟩ := ih inner hopen
          exact ⟨c :: before, after, rfl, by rw [openAfter_other hbracket hclose, hbefore], hafter⟩

/-- The closing bracket that leaves no bracket open before it is the only one. -/
theorem append_close_inj {opened : Nat} {first second after after' : List Char}
    (hfirst : openAfter opened first = some 0) (hsecond : openAfter opened second = some 0)
    (heq : first ++ ']' :: after = second ++ ']' :: after') : first = second ∧ after = after' := by
  induction first generalizing opened second with
  | nil =>
      cases second with
      | nil => simpa using heq
      | cons c second =>
          rw [openAfter_nil, Option.some.injEq] at hfirst
          obtain ⟨rfl, -⟩ := List.cons.inj heq
          rw [hfirst, openAfter_close_zero] at hsecond
          exact absurd hsecond (by simp)
  | cons c first ih =>
      cases second with
      | nil =>
          rw [openAfter_nil, Option.some.injEq] at hsecond
          obtain ⟨rfl, -⟩ := List.cons.inj heq
          rw [hsecond, openAfter_close_zero] at hfirst
          exact absurd hfirst (by simp)
      | cons d second =>
          obtain ⟨rfl, htail⟩ := List.cons.inj heq
          rcases openAfter_cons_cases opened c with ⟨next, hnext⟩ | hstop
          · rw [hnext] at hfirst hsecond
            obtain ⟨rfl, hafter⟩ := ih hfirst hsecond htail
            exact ⟨rfl, hafter⟩
          · rw [hstop] at hfirst
            exact absurd hfirst (by simp)

end Selector

end TreeProjection
