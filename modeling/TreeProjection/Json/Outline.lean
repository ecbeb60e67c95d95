import TreeProjection.Json.Writer

/-!
# Outlines

An outline shows a document with one line for each entry of its objects and arrays, indented by two
spaces for each level: `key:` or `-`, and behind it the value if that has no entries of its own.
A document without entries is a single line. Keys are written as they are, all else as compact JSON.
-/

namespace TreeProjection.Json

inductive Marker where
  | key (name : String)
  | dash

/-- A line of an outline. A document without entries has no marker, and an entry that has entries of
its own shows no value. -/
structure OutlineLine where
  depth : Nat
  marker : Option Marker
  value : Option Json

def OutlineLine.entry (depth : Nat) (marker : Marker) (item : Json) : OutlineLine :=
  ⟨depth, some marker, if item.isNested then none else some item⟩

mutual

/-- The lines of the entries of a document, with the lines of their own entries behind them. -/
def entryLines (depth : Nat) : Json → List OutlineLine
  | .array items => itemLines depth items
  | .object members => memberLines depth members
  | _ => []

def itemLines (depth : Nat) : List Json → List OutlineLine
  | [] => []
  | item :: rest =>
      .entry depth .dash item :: entryLines (depth + 1) item ++ itemLines depth rest

def memberLines (depth : Nat) : List (String × Json) → List OutlineLine
  | [] => []
  | (key, item) :: rest =>
      .entry depth (.key key) item :: entryLines (depth + 1) item ++ memberLines depth rest

end

def outline (document : Json) : List OutlineLine :=
  if document.isNested then entryLines 0 document else [⟨0, none, some document⟩]

/-- Text put in front of and behind a part of a line. -/
structure Paint where
  before : List Char
  behind : List Char

def Paint.apply (paint : Paint) (text : List Char) : List Char :=
  paint.before ++ text ++ paint.behind

structure Palette where
  key : Paint
  value : Paint

def Palette.plain : Palette := ⟨⟨[], []⟩, ⟨[], []⟩⟩

/-- Bold blue keys and green values, for a terminal. -/
def Palette.coloured : Palette where
  key := ⟨"\x1b[38;2;079;166;255m\x1b[1m".toList, "\x1b[0m\x1b[39m".toList⟩
  value := ⟨"\x1b[38;2;136;192;074m".toList, "\x1b[39m".toList⟩

def Marker.text (palette : Palette) : Marker → List Char
  | .key name => palette.key.apply name.toList ++ [':']
  | .dash => ['-']

def OutlineLine.text (palette : Palette) (line : OutlineLine) : List Char :=
  List.replicate (2 * line.depth) ' ' ++
    match line.marker, line.value with
    | none, none => []
    | some marker, none => marker.text palette
    | none, some value => palette.value.apply (write .compact 0 value)
    | some marker, some value =>
        marker.text palette ++ ' ' :: palette.value.apply (write .compact 0 value)

/-- The text of an outline; no line break follows the last line. -/
def renderOutline (palette : Palette) (document : Json) : String :=
  String.ofList (['\n'].intercalate ((outline document).map (OutlineLine.text palette)))

end TreeProjection.Json
