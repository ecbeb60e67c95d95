import Mathlib.Tactic.Common
import TreeProjection.Proofs.Brackets

/-!
# Reading one level at a time

Which bracket ends which level is decided by counting: as long as a text closes no bracket that it
did not open, reading it touches none of the levels around it (`readLevels_append`). A balanced text
is therefore read as a selector of its own wherever it stands (`Balanced.readsAs`).
-/

namespace TreeProjection

namespace Selector

theorem OpenLevel.commit_of_ne {text : String} (hne : text ≠ "")
    (entries : List (String × Option Selector)) :
    commit ⟨entries, text⟩ = ⟨Table.insert entries text none, ""⟩ := by
  rw [commit, if_neg hne]

/-! ### The reader, character by character -/

section Characters

variable (level outer : OpenLevel) (around : List OpenLevel) (text : List Char)

@[simp]
theorem readLevels_nil : readLevels level around [] = (level.closeAll around, []) := by
  simp [readLevels]

@[simp]
theorem readLevels_comma :
    readLevels level around (',' :: text) = readLevels level.commit around text := by
  simp [readLevels]

@[simp]
theorem readLevels_open :
    readLevels level around ('[' :: text) = readLevels .empty (level :: around) text := by
  simp [readLevels]

@[simp]
theorem readLevels_close :
    readLevels level (outer :: around) (']' :: text) =
      readLevels (outer.nest level.close) around text := by
  simp [readLevels]

theorem readLevels_label_cons {c : Char} (hlabel : IsLabelChar c) :
    readLevels level around (c :: text) = readLevels (level.push c) around text := by
  obtain ⟨hcomma, hopen, hclose⟩ := hlabel
  simp [readLevels, hcomma, hopen, hclose]

end Characters

theorem readLevels_label {label : List Char} (hlabel : ∀ c ∈ label, IsLabelChar c)
    (level : OpenLevel) (around : List OpenLevel) (text : List Char) :
    readLevels level around (label ++ text) =
      readLevels ⟨level.entries, level.label ++ String.ofList label⟩ around text := by
  induction label generalizing level with
  | nil => simp
  | cons c rest ih =>
      have hpush : level.label.push c ++ String.ofList rest =
          level.label ++ String.ofList (c :: rest) := by
        rw [← String.toList_inj]
        simp
      rw [List.cons_append, readLevels_label_cons _ _ _ (hlabel c (List.mem_cons_self ..)),
        ih (fun other hmem => hlabel other (List.mem_cons_of_mem _ hmem)), OpenLevel.push, hpush]

/-! ### Levels around a text -/

/-- A text that closes only what it opened, or what lies in the given inner levels, is read without
regard to the levels around them. -/
theorem readLevels_append (level : OpenLevel) (inner : List OpenLevel) {text : List Char}
    {opened : Nat} (hopen : openAfter inner.length text = some opened) :
    ∃ level' inner', inner'.length = opened ∧ ∀ around rest,
      readLevels level (inner ++ around) (text ++ rest) =
        readLevels level' (inner' ++ around) rest := by
  induction text generalizing level inner with
  | nil =>
      rw [openAfter_nil, Option.some.injEq] at hopen
      exact ⟨level, inner, hopen, fun _ _ => rfl⟩
  | cons c text ih =>
      by_cases hc : IsLabelChar c
      · rw [openAfter_other hc.2.1 hc.2.2] at hopen
        obtain ⟨level', inner', hlength, hread⟩ := ih (level.push c) inner hopen
        refine ⟨level', inner', hlength, fun around rest => ?_⟩
        rw [List.cons_append, readLevels_label_cons _ _ _ hc, hread]
      · have hspecial : c = ',' ∨ c = '[' ∨ c = ']' := by
          by_contra hnone
          simp only [not_or] at hnone
          exact hc hnone
        rcases hspecial with rfl | rfl | rfl
        · rw [openAfter_other (by decide) (by decide)] at hopen
          obtain ⟨level', inner', hlength, hread⟩ := ih level.commit inner hopen
          refine ⟨level', inner', hlength, fun around rest => ?_⟩
          rw [List.cons_append, readLevels_comma, hread]
        · rw [openAfter_open, ← List.length_cons (a := level)] at hopen
          obtain ⟨level', inner', hlength, hread⟩ := ih .empty (level :: inner) hopen
          refine ⟨level', inner', hlength, fun around rest => ?_⟩
          rw [List.cons_append, readLevels_open, ← List.cons_append, hread]
        · cases inner with
          | nil => simp at hopen
          | cons outer inner =>
              rw [List.length_cons, openAfter_close_succ] at hopen
              obtain ⟨level', inner', hlength, hread⟩ := ih (outer.nest level.close) inner hopen
              refine ⟨level', inner', hlength, fun around rest => ?_⟩
              rw [List.cons_append, List.cons_append, readLevels_close, hread]

/-- Whatever stands around and behind it, the text is read as a level that holds the selector once
it is closed. -/
def ReadsAs (text : List Char) (selector : Selector) : Prop :=
  ∃ level : OpenLevel, level.close = selector ∧
    ∀ around rest, readLevels .empty around (text ++ rest) = readLevels level around rest

theorem ReadsAs.read_eq {text : List Char} {selector : Selector} (hreads : ReadsAs text selector) :
    read text = (selector, []) := by
  obtain ⟨level, rfl, hread⟩ := hreads
  have hend := hread [] []
  rw [List.append_nil] at hend
  rw [read, hend, readLevels_nil]
  rfl

/-- In brackets it is nested into the level around it. -/
theorem ReadsAs.nest_eq {text : List Char} {child : Selector} (hreads : ReadsAs text child)
    (level : OpenLevel) (around : List OpenLevel) (rest : List Char) :
    readLevels .empty (level :: around) (text ++ ']' :: rest) =
      readLevels (level.nest child) around rest := by
  obtain ⟨inner, rfl, hread⟩ := hreads
  rw [hread, readLevels_close]

theorem Balanced.readsAs {text : List Char} (hbalanced : Balanced text) :
    ReadsAs text (read text).1 := by
  obtain ⟨level, inner, hlength, hread⟩ := readLevels_append .empty [] hbalanced
  rw [List.eq_nil_of_length_eq_zero hlength] at hread
  have hreads : ReadsAs text level.close := ⟨level, rfl, hread⟩
  rwa [hreads.read_eq]

end Selector

end TreeProjection
