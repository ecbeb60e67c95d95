import Mathlib.Data.List.Forall2
import Mathlib.Tactic.Common
import TreeProjection.Proofs.DecimalText
import TreeProjection.Proofs.DocumentText

/-!
# How documents are laid out

What the text of a document looks like, said without the functions that write it: which characters
are escaped and how (`Escaped`), what stands between the parts of an array or object (`Enclosed`),
and from these the text of the whole document (`Written`). The writer gives such a text
(`written_write`).
-/

namespace TreeProjection.Json

/-! ### Strings -/

/-- What stands for a character between quotation marks. -/
inductive Escaped : Char → List Char → Prop where
  | quotationMark : Escaped '"' ['\\', '"']
  | backslash : Escaped '\\' ['\\', '\\']
  | backspace : Escaped '\x08' ['\\', 'b']
  | tab : Escaped '\t' ['\\', 't']
  | lineBreak : Escaped '\n' ['\\', 'n']
  | formFeed : Escaped '\x0c' ['\\', 'f']
  | carriageReturn : Escaped '\r' ['\\', 'r']
  | control {c : Char} (hcontrol : c.toNat < 0x20)
      (hshort : c ∉ ['\x08', '\t', '\n', '\x0c', '\r']) : Escaped c
        ['\\', 'u', '0', '0', Nat.digitChar (c.toNat / 16), Nat.digitChar (c.toNat % 16)]
  | plain {c : Char} (hquotation : c ≠ '"') (hbackslash : c ≠ '\\') (hcontrol : 0x20 ≤ c.toNat) :
      Escaped c [c]

/-- A text between quotation marks. -/
inductive InQuotes (text : List Char) : List Char → Prop where
  | intro {pieces : List (List Char)} (hpieces : List.Forall₂ Escaped text pieces) :
      InQuotes text ('"' :: pieces.flatten ++ ['"'])

theorem escaped_escape (c : Char) : Escaped c (escape c) := by
  unfold escape
  split_ifs with hquotation hbackslash hback htab hline hform hreturn hcontrol
  · exact hquotation ▸ .quotationMark
  · exact hbackslash ▸ .backslash
  · exact hback ▸ .backspace
  · exact htab ▸ .tab
  · exact hline ▸ .lineBreak
  · exact hform ▸ .formFeed
  · exact hreturn ▸ .carriageReturn
  · rw [(hexDigits_of_lt c.toNat hcontrol).1]
    exact .control hcontrol (by simp [hback, htab, hline, hform, hreturn])
  · exact .plain hquotation hbackslash (Nat.le_of_not_lt hcontrol)

theorem inQuotes_quote (text : List Char) : InQuotes text (quote text) := by
  rw [quote, List.flatMap_def]
  apply InQuotes.intro
  rw [List.forall₂_map_right_iff, List.forall₂_same]
  exact fun c _ => escaped_escape c

/-! ### Brackets -/

/-- Parts inside brackets: with nothing but commas between them, or each on a line of its own, two
spaces farther in than the brackets. Without parts the brackets stand side by side. -/
inductive Enclosed : Style → Nat → Char → Char → List (List Char) → List Char → Prop where
  | empty (style : Style) (depth : Nat) (opening closing : Char) :
      Enclosed style depth opening closing [] [opening, closing]
  | compact (depth : Nat) (opening closing : Char) {parts : List (List Char)}
      (hparts : parts ≠ []) : Enclosed .compact depth opening closing parts
        (opening :: [','].intercalate parts ++ [closing])
  | pretty (depth : Nat) (opening closing : Char) {parts : List (List Char)}
      (hparts : parts ≠ []) : Enclosed .pretty depth opening closing parts
        (opening :: [','].intercalate
          (parts.map fun part => '\n' :: List.replicate (2 * (depth + 1)) ' ' ++ part) ++
            '\n' :: List.replicate (2 * depth) ' ' ++ [closing])

/-- What stands behind a key. -/
inductive BehindKey : Style → List Char → Prop where
  | compact : BehindKey .compact [':']
  | pretty : BehindKey .pretty [':', ' ']

theorem behindKey_colon (style : Style) : BehindKey style style.colon := by
  cases style with
  | compact => exact .compact
  | pretty => exact .pretty

/-- What stands in front of each part may be counted to the commas. -/
theorem append_intercalate {gap : List Char} {parts : List (List Char)} (hparts : parts ≠ []) :
    gap ++ (',' :: gap).intercalate parts = [','].intercalate (parts.map (gap ++ ·)) := by
  induction parts with
  | nil => exact absurd rfl hparts
  | cons part rest ih =>
      cases rest with
      | nil => simp
      | cons other others =>
          have hrest := ih (List.cons_ne_nil other others)
          rw [List.intercalate_cons_cons, List.map_cons, List.map_cons,
            List.intercalate_cons_cons, ← List.map_cons, ← hrest]
          simp only [List.append_assoc, List.cons_append, List.nil_append]

theorem enclosed_enclose (style : Style) (depth : Nat) (opening closing : Char)
    (parts : List (List Char)) :
    Enclosed style depth opening closing parts (enclose style depth opening closing parts) := by
  cases parts with
  | nil => exact .empty style depth opening closing
  | cons part rest =>
      have hparts := List.cons_ne_nil part rest
      rw [enclose, List.cons_append, append_intercalate hparts]
      cases style with
      | compact =>
          simp only [Style.lineBreak, List.nil_append, List.map_id', List.append_nil]
          exact .compact depth opening closing hparts
      | pretty => exact .pretty depth opening closing hparts

/-! ### Documents -/

mutual

/-- The text of a document in a style, with so many brackets open around it. -/
inductive Written (style : Style) : Nat → Json → List Char → Prop where
  | null {depth : Nat} : Written style depth .null "null".toList
  | bool {depth : Nat} (value : Bool) : Written style depth (.bool value) (toString value).toList
  | number {depth : Nat} {number : JsonNumber} {text : List Char}
      (hnumber : number.Spelled text) : Written style depth (.number number) text
  | string {depth : Nat} {string : String} {text : List Char}
      (hstring : InQuotes string.toList text) : Written style depth (.string string) text
  | array {depth : Nat} {items : List Json} {parts : List (List Char)} {text : List Char}
      (hitems : WrittenItems style (depth + 1) items parts)
      (htext : Enclosed style depth '[' ']' parts text) : Written style depth (.array items) text
  | object {depth : Nat} {members : List (String × Json)} {parts : List (List Char)}
      {text : List Char} (hmembers : WrittenMembers style (depth + 1) members parts)
      (htext : Enclosed style depth '{' '}' parts text) :
      Written style depth (.object members) text

inductive WrittenItems (style : Style) : Nat → List Json → List (List Char) → Prop where
  | nil {depth : Nat} : WrittenItems style depth [] []
  | cons {depth : Nat} {item : Json} {rest : List Json} {text : List Char}
      {parts : List (List Char)} (hitem : Written style depth item text)
      (hrest : WrittenItems style depth rest parts) :
      WrittenItems style depth (item :: rest) (text :: parts)

inductive WrittenMembers (style : Style) :
    Nat → List (String × Json) → List (List Char) → Prop where
  | nil {depth : Nat} : WrittenMembers style depth [] []
  | cons {depth : Nat} {key : String} {item : Json} {rest : List (String × Json)}
      {name colon text : List Char} {parts : List (List Char)} (hname : InQuotes key.toList name)
      (hcolon : BehindKey style colon) (hitem : Written style depth item text)
      (hrest : WrittenMembers style depth rest parts) :
      WrittenMembers style depth ((key, item) :: rest) ((name ++ colon ++ text) :: parts)

end

theorem writtenItems_writeItems {style : Style} {depth : Nat} {items : List Json}
    (hitems : ∀ item ∈ items, Written style depth item (write style depth item)) :
    WrittenItems style depth items (writeItems style depth items) := by
  induction items with
  | nil => exact .nil
  | cons item rest ih =>
      obtain ⟨hitem, hrest⟩ := List.forall_mem_cons.mp hitems
      exact .cons hitem (ih hrest)

theorem writtenMembers_writeMembers {style : Style} {depth : Nat} {members : List (String × Json)}
    (hmembers : ∀ member ∈ members, Written style depth member.2 (write style depth member.2)) :
    WrittenMembers style depth members (writeMembers style depth members) := by
  induction members with
  | nil => exact .nil
  | cons member rest ih =>
      obtain ⟨hmember, hrest⟩ := List.forall_mem_cons.mp hmembers
      exact .cons (inQuotes_quote _) (behindKey_colon style) hmember (ih hrest)

/-- **The layout of a document.** The writer gives a text of the document in the style. -/
theorem written_write (style : Style) (depth : Nat) (document : Json) :
    Written style depth document (write style depth document) := by
  induction document using Json.induction generalizing depth with
  | null => exact .null
  | bool value => cases value <;> exact .bool _
  | number number => exact .number number.spelled_text
  | string text => exact .string (inQuotes_quote text.toList)
  | array items ih =>
      have hitems := writtenItems_writeItems fun item hitem => ih item hitem (depth + 1)
      exact .array hitems (enclosed_enclose style depth '[' ']' _)
  | object members ih =>
      have hmembers := writtenMembers_writeMembers fun member hmember =>
        ih member hmember (depth + 1)
      exact .object hmembers (enclosed_enclose style depth '{' '}' _)

end TreeProjection.Json
