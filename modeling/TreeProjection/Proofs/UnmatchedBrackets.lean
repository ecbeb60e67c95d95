import Mathlib.Logic.ExistsUnique
import TreeProjection.Filter
import TreeProjection.Proofs.SelectorReading

/-!
# Brackets without a partner

A text is read up to the first `]` that closes nothing, or else to its end, and whatever is open
there is closed: the selector found is that of the balanced text that is completed in this way
(`Cut.Of.read_eq`). What stands behind that `]` is left over. Reading on from there, again and
again, takes one by one the pieces into which the brackets that close nothing cut the text
(`read_unmatched`).
-/

namespace TreeProjection

namespace Selector

/-- A text cut behind its first `]` that closes nothing: what is in front of that, how many brackets
stay open in it, and what is behind that `]`, if there is one. -/
structure Cut where
  front : List Char
  opened : Nat
  behind : Option (List Char)

namespace Cut

/-- A `]` closes nothing if no bracket is open where it stands. -/
inductive Of : Cut → List Char → Prop where
  | whole {text : List Char} {opened : Nat} (hopen : openAfter 0 text = some opened) :
      Of ⟨text, opened, none⟩ text
  | stray {front : List Char} (hfront : Balanced front) (rest : List Char) :
      Of ⟨front, 0, some rest⟩ (front ++ ']' :: rest)

/-- The front with its open brackets closed. -/
def completed (cut : Cut) : List Char := cut.front ++ List.replicate cut.opened ']'

def rest (cut : Cut) : List Char := cut.behind.getD []

end Cut

/-- The pieces of a text between the brackets that close nothing: whatever is opened in front of
such a bracket has been closed again. -/
structure Pieces (text : List Char) (pieces : List (List Char)) : Prop where
  chars : [']'].intercalate pieces = text
  balanced : ∀ piece ∈ pieces.dropLast, Balanced piece
  last : ∃ piece opened, pieces.getLast? = some piece ∧ openAfter 0 piece = some opened

/-- What is left of a text after a number of readings, one behind the other. -/
def leftAfter : Nat → List Char → List Char
  | 0, text => text
  | readings + 1, text => leftAfter readings (read text).2

/-! ### Counting brackets -/

theorem openAfter_append (opened : Nat) (first second : List Char) :
    openAfter opened (first ++ second) = (openAfter opened first).bind (openAfter · second) := by
  induction first generalizing opened with
  | nil => rfl
  | cons c first ih =>
      rw [List.cons_append]
      rcases openAfter_cons_cases opened c with ⟨next, hnext⟩ | hstop
      · rw [hnext, hnext, ih]
      · rw [hstop, hstop, Option.bind_none]

theorem openAfter_replicate_close (opened : Nat) :
    openAfter opened (List.replicate opened ']') = some 0 := by
  induction opened with
  | zero => rfl
  | succ opened ih => rw [List.replicate_succ, openAfter_close_succ, ih]

theorem exists_stray {opened : Nat} {text : List Char} (hnone : openAfter opened text = none) :
    ∃ front rest, text = front ++ ']' :: rest ∧ openAfter opened front = some 0 := by
  induction text generalizing opened with
  | nil => simp at hnone
  | cons c text ih =>
      by_cases hopen : c = '['
      · subst hopen
        rw [openAfter_open] at hnone
        obtain ⟨front, rest, rfl, hfront⟩ := ih hnone
        exact ⟨'[' :: front, rest, rfl, by rw [openAfter_open, hfront]⟩
      · by_cases hclose : c = ']'
        · subst hclose
          cases opened with
          | zero => exact ⟨[], text, rfl, rfl⟩
          | succ outer =>
              rw [openAfter_close_succ] at hnone
              obtain ⟨front, rest, rfl, hfront⟩ := ih hnone
              exact ⟨']' :: front, rest, rfl, by rw [openAfter_close_succ, hfront]⟩
        · rw [openAfter_other hopen hclose] at hnone
          obtain ⟨front, rest, rfl, hfront⟩ := ih hnone
          exact ⟨c :: front, rest, rfl, by rw [openAfter_other hopen hclose, hfront]⟩

/-! ### One reading -/

namespace Cut

theorem exists_of (text : List Char) : ∃ cut : Cut, cut.Of text := by
  cases hopen : openAfter 0 text with
  | some opened => exact ⟨_, .whole hopen⟩
  | none =>
      obtain ⟨front, rest, rfl, hfront⟩ := exists_stray hopen
      exact ⟨_, .stray hfront rest⟩

variable {cut other : Cut} {text : List Char}

theorem Of.openAfter_front (hcut : cut.Of text) : openAfter 0 cut.front = some cut.opened := by
  cases hcut with
  | whole hopen => exact hopen
  | stray hfront => exact hfront

theorem Of.balanced_completed (hcut : cut.Of text) : Balanced cut.completed := by
  rw [Balanced, completed, openAfter_append, hcut.openAfter_front, Option.bind_some,
    openAfter_replicate_close]

theorem Of.openAfter_eq_none_iff (hcut : cut.Of text) :
    openAfter 0 text = none ↔ cut.behind ≠ none := by
  cases hcut with
  | whole hopen => simp [hopen]
  | @stray front hfront rest =>
      have hcount : openAfter 0 front = some 0 := hfront
      rw [openAfter_append, hcount, Option.bind_some, openAfter_close_zero]
      simp

theorem Of.unique (hcut : cut.Of text) (hother : other.Of text) : cut = other := by
  have hstray := hcut.openAfter_eq_none_iff.symm.trans hother.openAfter_eq_none_iff
  generalize htext : text = same at hother
  cases hcut with
  | whole hopen =>
      cases hother with
      | whole hopen' =>
          subst htext
          rw [Option.some.inj (hopen.symm.trans hopen')]
      | stray => simp at hstray
  | stray hfront =>
      cases hother with
      | whole => simp at hstray
      | stray hfront' =>
          obtain ⟨rfl, rfl⟩ := append_close_inj hfront hfront' htext
          rfl

end Cut

theorem readLevels_replicate_close (level : OpenLevel) (around : List OpenLevel) :
    readLevels level around (List.replicate around.length ']') = (level.closeAll around, []) := by
  induction around generalizing level with
  | nil => rw [List.length_nil, List.replicate_zero, readLevels_nil]
  | cons outer around ih =>
      rw [List.length_cons, List.replicate_succ, readLevels_close, ih]
      rfl

theorem Cut.Of.read_eq {cut : Cut} {text : List Char} (hcut : cut.Of text) :
    read text = ((read cut.completed).1, cut.rest) := by
  cases hcut with
  | whole hopen =>
      -- At the end of the text the open levels are closed just as brackets would close them.
      obtain ⟨level, inner, rfl, hread⟩ := readLevels_append .empty [] hopen
      have hend := hread [] []
      have hclosed := hread [] (List.replicate inner.length ']')
      rw [List.append_nil, List.append_nil, List.append_nil, readLevels_nil] at hend
      rw [List.append_nil, List.append_nil, readLevels_replicate_close] at hclosed
      rw [completed, read, read, hend, hclosed]
      rfl
  | stray hfront rest =>
      obtain ⟨level, hlevel, hread⟩ := hfront.readsAs
      rw [completed, List.replicate_zero, List.append_nil, ← hlevel, read, hread]
      simp [readLevels, Cut.rest]

/-! ### Reading on -/

namespace Pieces

variable {text : List Char} {pieces : List (List Char)}

theorem whole {opened : Nat} (hopen : openAfter 0 text = some opened) : Pieces text [text] :=
  ⟨List.intercalate_singleton .., by simp, text, opened, rfl, hopen⟩

theorem stray {front rest : List Char} (hfront : Balanced front) (hrest : Pieces rest pieces) :
    Pieces (front ++ ']' :: rest) (front :: pieces) := by
  obtain ⟨hchars, hbalanced, piece, opened, hlast, hopen⟩ := hrest
  cases pieces with
  | nil => simp at hlast
  | cons next others =>
      refine ⟨?_, ?_, piece, opened, ?_, hopen⟩
      · rw [List.intercalate_cons_cons, hchars, List.append_assoc, List.singleton_append]
      · rw [List.dropLast_cons_cons]
        exact List.forall_mem_cons.mpr ⟨hfront, hbalanced⟩
      · rw [List.getLast?_cons_cons, hlast]

/-- The first piece is what one reading takes; the others are the pieces of what is behind it. -/
theorem exists_cut (hpieces : Pieces text pieces) :
    ∃ (cut : Cut) (others : List (List Char)), cut.Of text ∧ pieces = cut.front :: others ∧
      match cut.behind with
      | none => others = []
      | some rest => Pieces rest others := by
  obtain ⟨rfl, hbalanced, piece, opened, hlast, hopen⟩ := hpieces
  cases pieces with
  | nil => simp at hlast
  | cons front others =>
      cases others with
      | nil =>
          obtain rfl : front = piece := Option.some.inj hlast
          rw [List.intercalate_singleton]
          exact ⟨_, [], .whole hopen, rfl, rfl⟩
      | cons next others =>
          rw [List.dropLast_cons_cons, List.forall_mem_cons] at hbalanced
          rw [List.getLast?_cons_cons] at hlast
          rw [List.intercalate_cons_cons, List.append_assoc, List.singleton_append]
          exact ⟨_, next :: others, .stray hbalanced.1 _, rfl, rfl, hbalanced.2, piece, opened,
            hlast, hopen⟩

theorem unique {others : List (List Char)} (hpieces : Pieces text pieces)
    (hothers : Pieces text others) : pieces = others := by
  induction pieces generalizing text others with
  | nil =>
      obtain ⟨piece, opened, hlast, -⟩ := hpieces.last
      simp at hlast
  | cons piece pieces ih =>
      obtain ⟨cut, rest, hcut, hfirst, hrest⟩ := hpieces.exists_cut
      obtain ⟨cut', rest', hcut', rfl, hrest'⟩ := hothers.exists_cut
      obtain ⟨rfl, rfl⟩ := List.cons.inj hfirst
      obtain rfl := hcut.unique hcut'
      cases hbehind : cut.behind with
      | none =>
          rw [hbehind] at hrest hrest'
          rw [show pieces = [] from hrest, show rest' = [] from hrest']
      | some behind =>
          rw [hbehind] at hrest hrest'
          rw [ih hrest hrest']

end Pieces

theorem existsUnique_pieces (text : List Char) : ∃! pieces, Pieces text pieces := by
  obtain ⟨pieces, hpieces⟩ : ∃ pieces, Pieces text pieces := by
    induction hlength : text.length using Nat.strongRecOn generalizing text with
    | ind length ih =>
        obtain ⟨cut, hcut⟩ := Cut.exists_of text
        cases hcut with
        | whole hopen => exact ⟨_, .whole hopen⟩
        | stray hfront rest =>
            rw [List.length_append, List.length_cons] at hlength
            obtain ⟨pieces, hrest⟩ := ih rest.length (by omega) rest rfl
            exact ⟨_, hrest.stray hfront⟩
  exact ⟨pieces, hpieces, fun others hothers => hothers.unique hpieces⟩

/-- Each reading takes a piece and leaves the others. -/
theorem Pieces.drop {text : List Char} {pieces : List (List Char)} (hpieces : Pieces text pieces)
    {readings : Nat} (hfew : readings < pieces.length) :
    Pieces (leftAfter readings text) (pieces.drop readings) := by
  induction readings generalizing text pieces with
  | zero => exact hpieces
  | succ readings ih =>
      obtain ⟨cut, others, hcut, rfl, hothers⟩ := hpieces.exists_cut
      rw [List.length_cons] at hfew
      rw [leftAfter, hcut.read_eq, List.drop_succ_cons, Cut.rest]
      cases hbehind : cut.behind with
      | none =>
          rw [hbehind] at hothers
          obtain rfl : others = [] := hothers
          simp at hfew
      | some rest =>
          rw [hbehind] at hothers
          exact ih hothers (by omega)

theorem leftAfter_nil (readings : Nat) : leftAfter readings [] = [] := by
  induction readings with
  | zero => rfl
  | succ readings ih => exact ih

theorem Pieces.leftAfter_eq_nil {text : List Char} {pieces : List (List Char)}
    (hpieces : Pieces text pieces) {readings : Nat} (hmany : pieces.length ≤ readings) :
    leftAfter readings text = [] := by
  induction readings generalizing text pieces with
  | zero =>
      obtain ⟨cut, others, -, rfl, -⟩ := hpieces.exists_cut
      simp at hmany
  | succ readings ih =>
      obtain ⟨cut, others, hcut, rfl, hothers⟩ := hpieces.exists_cut
      rw [List.length_cons] at hmany
      rw [leftAfter, hcut.read_eq, Cut.rest]
      cases hbehind : cut.behind with
      | none => exact leftAfter_nil readings
      | some rest =>
          rw [hbehind] at hothers
          exact ih hothers (by omega)

theorem Pieces.leftAfter_eq {text : List Char} {pieces : List (List Char)}
    (hpieces : Pieces text pieces) (readings : Nat) :
    leftAfter readings text = [']'].intercalate (pieces.drop readings) := by
  rcases Nat.lt_or_ge readings pieces.length with hfew | hmany
  · exact (hpieces.drop hfew).chars.symm
  · rw [hpieces.leftAfter_eq_nil hmany, List.drop_eq_nil_of_le hmany, List.intercalate_nil]

theorem Pieces.read_leftAfter {text piece : List Char} {pieces : List (List Char)}
    (hpieces : Pieces text pieces) {readings : Nat} (hpiece : pieces[readings]? = some piece) :
    ∃ opened, openAfter 0 piece = some opened ∧
      (read (leftAfter readings text)).1 = (read (piece ++ List.replicate opened ']')).1 := by
  obtain ⟨hfew, hget⟩ := List.getElem?_eq_some_iff.mp hpiece
  obtain ⟨cut, others, hcut, hdrop, -⟩ := (hpieces.drop hfew).exists_cut
  rw [List.drop_eq_getElem_cons hfew, hget] at hdrop
  obtain ⟨rfl, -⟩ := List.cons.inj hdrop
  refine ⟨cut.opened, hcut.openAfter_front, ?_⟩
  rw [hcut.read_eq, Cut.completed]

/-! ### What is reported -/

theorem Cut.Of.trailing_eq {cut : Cut} {text : String} (hcut : cut.Of text.toList) :
    trailing text = String.ofList cut.rest := by
  rw [trailing, hcut.read_eq]

theorem ignoredTrailing_mem_parseLog_iff {text rest : String} :
    .ignoredTrailing rest ∈ parseLog text ↔ rest = trailing text ∧ rest ≠ "" := by
  rw [parseLog, List.mem_append]
  by_cases hempty : trailing text = ""
  · simp [hempty]
  · rw [if_neg hempty]
    constructor
    · rintro (hmem | hmem)
      · obtain rfl : rest = trailing text := by simpa using hmem
        exact ⟨rfl, hempty⟩
      · simp at hmem
    · rintro ⟨rfl, -⟩
      exact Or.inl (List.mem_singleton.mpr rfl)

/-- **Unmatched brackets.** A text is read as the balanced text that its front becomes if its open
brackets are closed, and what is behind the `]` that closes nothing is left over, whatever it is. If
there is any of it, it is reported as ignored. Reading on takes the pieces of the text one by one,
each to the bracket that closes nothing and no further; then there is nothing left to read. -/
theorem read_unmatched (text : String) :
    (∃! cut : Cut, cut.Of text.toList) ∧ (∃! pieces, Pieces text.toList pieces) ∧
      (∀ cut : Cut, cut.Of text.toList → Balanced cut.completed ∧
        read text.toList = ((read cut.completed).1, cut.rest) ∧
        (∀ (other : String) (behind : Option (List Char)),
          Cut.Of { cut with behind := behind } other.toList → parse other = parse text) ∧
        ∀ rest, .ignoredTrailing rest ∈ parseLog text ↔
          rest = String.ofList cut.rest ∧ cut.rest ≠ []) ∧
      ∀ pieces, Pieces text.toList pieces → ∀ readings,
        leftAfter readings text.toList = [']'].intercalate (pieces.drop readings) ∧
        (∀ piece, pieces[readings]? = some piece → ∃ opened, openAfter 0 piece = some opened ∧
          (read (leftAfter readings text.toList)).1 =
            (read (piece ++ List.replicate opened ']')).1) ∧
        (pieces.length ≤ readings → read (leftAfter readings text.toList) = (empty, [])) := by
  obtain ⟨cut, hcut⟩ := Cut.exists_of text.toList
  refine ⟨⟨cut, hcut, fun other hother => hother.unique hcut⟩, existsUnique_pieces _, ?_, ?_⟩
  · intro cut hcut
    refine ⟨hcut.balanced_completed, hcut.read_eq, ?_, ?_⟩
    · intro other behind hother
      rw [parse, parse, hother.read_eq, hcut.read_eq]
      rfl
    · intro rest
      rw [ignoredTrailing_mem_parseLog_iff, hcut.trailing_eq]
      refine and_congr_right fun hrest => ?_
      rw [hrest, ne_eq, ← String.toList_inj]
      simp
  · intro pieces hpieces readings
    refine ⟨hpieces.leftAfter_eq readings, fun piece => hpieces.read_leftAfter, fun hmany => ?_⟩
    rw [hpieces.leftAfter_eq_nil hmany]
    rfl

theorem read_unmatched_sample :
    let text := "a[b,c]d]e[f[]]]x[y"
    Cut.Of ⟨"a[b,c]d".toList, 0, some "e[f[]]]x[y".toList⟩ text.toList ∧
      Pieces text.toList ["a[b,c]d".toList, "e[f[]]".toList, "x[y".toList] ∧
      .ignoredTrailing "e[f[]]]x[y" ∈ parseLog text ∧
      parse "a[b,c]d" = parse text ∧
      leftAfter 1 text.toList = "e[f[]]]x[y".toList ∧
      (read (leftAfter 2 text.toList)).1 = parse "x[y]" ∧
      read (leftAfter 3 text.toList) = (empty, []) := by
  intro text
  have hbalanced : Balanced "a[b,c]d".toList := by decide
  have hcut : Cut.Of ⟨"a[b,c]d".toList, 0, some "e[f[]]]x[y".toList⟩ text.toList := by
    have htext : text.toList = "a[b,c]d".toList ++ ']' :: "e[f[]]]x[y".toList := by decide
    rw [htext]
    exact .stray hbalanced _
  have hpieces : Pieces text.toList ["a[b,c]d".toList, "e[f[]]".toList, "x[y".toList] :=
    ⟨by decide, by decide, _, 1, rfl, by decide⟩
  obtain ⟨-, -, hfirst, hfollowing⟩ := read_unmatched text
  obtain ⟨-, -, hrest, hreport⟩ := hfirst _ hcut
  obtain ⟨hleft, -, -⟩ := hfollowing _ hpieces 1
  obtain ⟨-, hlast, -⟩ := hfollowing _ hpieces 2
  obtain ⟨-, -, hend⟩ := hfollowing _ hpieces 3
  obtain ⟨opened, hopen, hread⟩ := hlast _ rfl
  obtain rfl : 1 = opened := Option.some.inj hopen
  exact ⟨hcut, hpieces, (hreport _).mpr ⟨rfl, by decide⟩, hrest _ none (.whole hbalanced), hleft,
    hread, hend (by decide)⟩

end Selector

end TreeProjection
