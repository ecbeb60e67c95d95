import TreeProjection.Selector

/-!
# Selector text

In a selector text commas separate attributes and brackets hold what is nested below the attribute
in front of them; every other character belongs to a label. Every text is read as some selector:

* an empty label adds nothing, except in front of `[`, where it is kept as a key;
* a bracket that stays open ends with the text;
* a `]` that closes nothing ends the selector, and what follows it is left over.

`Selector.readLevels` reads a text with the levels that are open, and `Selector.render` writes a
selector in this form.
-/

namespace TreeProjection

namespace Selector

/-- A level of nesting that is still being read: its finished entries and the label at hand. -/
structure OpenLevel where
  entries : List (String × Option Selector)
  label : String

namespace OpenLevel

def empty : OpenLevel := ⟨[], ""⟩

def push (level : OpenLevel) (c : Char) : OpenLevel := ⟨level.entries, level.label.push c⟩

/-- Ends the label without a child; an empty one adds nothing. -/
def commit (level : OpenLevel) : OpenLevel :=
  if level.label = "" then level else ⟨Table.insert level.entries level.label none, ""⟩

/-- Ends the label with a child below it. -/
def nest (level : OpenLevel) (child : Selector) : OpenLevel :=
  ⟨Table.insert level.entries level.label (some child), ""⟩

/-- The selector that a level holds once it ends. -/
def close (level : OpenLevel) : Selector := ⟨level.commit.entries⟩

/-- Ends the innermost level and all levels around it, given innermost first. -/
def closeAll (level : OpenLevel) (around : List OpenLevel) : Selector :=
  around.foldl (fun child outer => (outer.nest child).close) level.close

end OpenLevel

/-- Reads until the outermost level ends, and returns it with the text left over. The levels around
the innermost one are given innermost first. -/
def readLevels : OpenLevel → List OpenLevel → List Char → Selector × List Char
  | level, around, [] => (level.closeAll around, [])
  | level, around, c :: text =>
      if c = ',' then
        readLevels level.commit around text
      else if c = '[' then
        readLevels .empty (level :: around) text
      else if c = ']' then
        match around with
        | [] => (level.close, text)
        | outer :: rest => readLevels (outer.nest level.close) rest text
      else
        readLevels (level.push c) around text

/-- Reads one selector from the front of a text. -/
def read (text : List Char) : Selector × List Char := readLevels .empty [] text

/-- The selector at the front of a text. -/
def parse (text : String) : Selector := (read text.toList).1

/-- What is left over behind the selector at the front of a text. -/
def trailing (text : String) : String := String.ofList (read text.toList).2

mutual

/-- The entries separated by commas. -/
def renderChars : Selector → List Char
  | ⟨entries⟩ => [','].intercalate (renderEntries entries)

/-- The key of each entry, followed by its child in brackets. -/
def renderEntries : List (String × Option Selector) → List (List Char)
  | [] => []
  | (key, none) :: rest => key.toList :: renderEntries rest
  | (key, some child) :: rest =>
      (key.toList ++ '[' :: child.renderChars ++ [']']) :: renderEntries rest

end

def render (selector : Selector) : String := String.ofList selector.renderChars

end Selector

end TreeProjection
