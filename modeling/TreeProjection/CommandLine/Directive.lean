import TreeProjection.Text.Alphanumeric
import TreeProjection.Text.Blank
import TreeProjection.Text.Bytes
import TreeProjection.Text.Numeral
import TreeProjection.Text.Pattern

/-!
# Directives for reports

A setting can say which reports go out. It holds directives, separated by commas: a directive gives
the least urgent level that passes, for the reports whose target begins with its own, for those that
have a field, or for all. Of the directives that apply to a report the most specific one decides,
and a report to which none applies is kept back. A setting with a directive that cannot be read
counts for nothing. `Reporting.ofSetting` says whether the errors of the program itself go out.
-/

namespace TreeProjection.CommandLine

/-- The least urgent level that passes. -/
inductive Threshold where
  | off
  | error
  | warn
  | info
  | debug
  | trace
deriving DecidableEq

/-- The thresholds by name, the number of each being its place. -/
def Threshold.names : List (String × Threshold) :=
  [("off", .off), ("error", .error), ("warn", .warn), ("info", .info), ("debug", .debug),
    ("trace", .trace)]

/-- Reads the number of a threshold, or its name in letters of either case. -/
def Threshold.read? (text : List Char) : Option Threshold :=
  let entry := match Text.natural? text with
    | some number => names[number]?
    | none => names.find? fun named => named.1 == (String.ofList text).toLower
  entry.map Prod.snd

/-- A directive. An empty target stands for every target. -/
structure Directive where
  target : List Char
  span : Option (List Char)
  field : Option (List Char)
  threshold : Threshold

namespace Directive

inductive Fault where
  | unreadable
  /-- One of its parts would begin or end inside a character. -/
  | cutsCharacter
deriving DecidableEq

/-- How far the reading of a directive has come. The marks of a directive are looked for in its text
without the blanks around it, but its parts are cut out of the text as it was given, at the same
distance from the beginning. -/
structure Cursor where
  /-- The text as it was given. -/
  given : List Char
  /-- What is left of the text without the blanks. -/
  left : List Char
  /-- The number of bytes in front of that. -/
  place : Nat

namespace Cursor

def ofText (text : List Char) : Cursor := ⟨text, Text.trimmed text, 0⟩

def skip (count : Nat) (cursor : Cursor) : Cursor :=
  { cursor with
    left := cursor.left.drop count
    place := cursor.place + Text.byteSize (cursor.left.take count) }

def find (isMark : Char → Bool) (cursor : Cursor) : Cursor :=
  cursor.skip (cursor.left.takeWhile fun c => !isMark c).length

/-- The part of the text as it was given that begins here and ends in front of a place. -/
def upTo (cursor : Cursor) (place : Nat) : Except Fault (List Char) :=
  match Text.between? cursor.place place cursor.given with
  | some part => .ok part
  | none => .error .cutsCharacter

def rest (cursor : Cursor) : Except Fault (List Char) := cursor.upTo (Text.byteSize cursor.given)

end Cursor

/-- A target begins with a letter or a digit of any script or with one of a few signs. -/
def beginsTarget (c : Char) : Bool := ['-', ':', '_'].contains c || Text.isAlphanumeric c

/-- A value in a field is a truth value, a number, or a pattern for a text. -/
def isFieldValue (value : List Char) : Bool := Text.isNumber value || Text.isPattern value

/-- A field is a name, perhaps with a value behind an equals sign. Whatever stands behind another
equals sign does not matter. -/
def isField (field : List Char) : Bool :=
  !field.isEmpty && (((field.splitOnP (· == '='))[1]?).map isFieldValue).getD true

/-- Reads a threshold behind its `=`. Where there is none, every level passes. -/
def readThreshold (cursor : Cursor) : Except Fault Threshold := do
  match cursor.left with
  | [] => return .trace
  | '=' :: _ =>
      let name ← (cursor.skip 1).rest
      if name.isEmpty then return .trace
      match Threshold.read? name with
      | some threshold => return threshold
      | none => throw .unreadable
  | _ => throw .unreadable

/-- Reads a field behind its brace, and what stands behind it. -/
def readField (target span : List Char) (cursor : Cursor) : Except Fault Directive := do
  let closing := cursor.find (· == '\x7d')
  if closing.left.isEmpty then throw .unreadable
  let field ← cursor.upTo closing.place
  match isField field, closing.left with
  | true, _ :: ']' :: _ =>
      let threshold ← readThreshold (closing.skip 2)
      return ⟨target, if span.isEmpty then none else some span, some field, threshold⟩
  | _, _ => throw .unreadable

/-- Reads what stands behind an opening bracket: the name of a span, a field in braces, or one
behind the other, and then perhaps a threshold. -/
def readBound (target : List Char) (cursor : Cursor) : Except Fault Directive := do
  let mark := cursor.find fun c => c == ']' || c == '\x7b'
  if mark.left.isEmpty then throw .unreadable
  let span ← cursor.upTo mark.place
  if mark.left.head? == some '\x7b' then
    readField target span (mark.skip 1)
  else
    return ⟨target, some span, none, ← readThreshold (mark.skip 1)⟩

/-- Reads a directive. A word that stands alone is a threshold for all reports if it can be one,
otherwise a target. -/
def read (text : List Char) : Except Fault Directive := do
  let cursor := Cursor.ofText text
  match cursor.left with
  | [] => throw .unreadable
  | '[' :: _ => readBound [] (cursor.skip 1)
  | first :: _ =>
      if !beginsTarget first then throw .unreadable
      let mark := cursor.find fun c => c == '=' || c == '['
      if mark.left.isEmpty then
        match Threshold.read? text with
        | some threshold => return ⟨[], none, none, threshold⟩
        | none => return ⟨text, none, none, .trace⟩
      let target ← cursor.upTo mark.place
      if mark.left.head? == some '[' then
        readBound target (mark.skip 1)
      else
        return ⟨target, none, none, ← readThreshold mark⟩

/-- Reads the directives of a setting. Nothing need stand between two commas. -/
def readAll (setting : String) : Except Fault (List Directive) :=
  ((setting.toList.splitOnP (· == ',')).filter fun text => !text.isEmpty).mapM read

def errorTarget : List Char := "tree_filter".toList

/-- The fields of the program's own errors, the more specific one last. -/
def errorFields : List (List Char) := ["error".toList, "message".toList]

/-- The directive speaks of the program's own errors. They are reported outside of every span. -/
def applies (directive : Directive) : Bool :=
  directive.span.isNone && directive.target.isPrefixOf errorTarget &&
    (directive.field.map errorFields.contains).getD true

/-- How specific a directive is: first by the length of its target, then by its field. -/
def specificity (directive : Directive) : Nat :=
  let place := match directive.field with
    | none => 0
    | some field => errorFields.idxOf field + 1
  directive.target.length * (errorFields.length + 1) + place

/-- The directive that decides on the program's own errors: of those that apply the most specific
one, the last of them if there are several. -/
def deciding? (directives : List Directive) : Option Directive :=
  (directives.filter applies).reverse.maxOn? specificity

end Directive

/-- What a setting makes of the program's own errors. -/
inductive Reporting where
  | reported
  | silent
  /-- The setting breaks off the program before it has done anything. -/
  | brokenOff
deriving DecidableEq

/-- The program's own errors go out unless the directive that decides on them, or the lack of one,
keeps them back. A setting that cannot be read does not. -/
def Reporting.ofSetting (setting : String) : Reporting :=
  match Directive.readAll setting with
  | .error .unreadable => .reported
  | .error .cutsCharacter => .brokenOff
  | .ok directives =>
      if (Directive.deciding? directives).any fun found => found.threshold ≠ .off then .reported
      else .silent

end TreeProjection.CommandLine
