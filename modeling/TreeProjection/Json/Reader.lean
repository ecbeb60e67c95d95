import TreeProjection.Json.Number
import TreeProjection.Json.Quoted

/-!
# Reading JSON documents

`Json.parse` reads a whole text as one document. Arrays and objects may be nested only so deep:
`readValue` is told how many brackets may be open at a time. A member of an object that is repeated
keeps its place and takes its last value.
-/

namespace TreeProjection.Json

/-- Reads the rest of a word whose first letter has been read. -/
def readWord (result : Json) : List Char → (text : List Char) → Result Json (text.length + 1)
  | [], text => .ok (.before result text)
  | _ :: _, [] => .error ⟨.endInValue, [], 0⟩
  | letter :: letters, c :: text =>
      if c = letter then do
        return (← readWord result letters text).later
      else
        .error ⟨.expectedIdent, c :: text, 1⟩

structure Enclosure where
  close : Char
  /-- The text ends where a comma or the closing bracket should stand. -/
  atEnd : Cause
  /-- Something else stands there. -/
  otherwise : Cause

def Enclosure.array : Enclosure := ⟨']', .endInArray, .expectedCommaOrBracket⟩

def Enclosure.object : Enclosure := ⟨'}', .endInObject, .expectedCommaOrBrace⟩

/-- Reads parts separated by commas up to the closing bracket; there is at least one part. -/
def readParts {α : Type} (enclosure : Enclosure) (part : Reader α) (text : List Char) :
    Result (List α) text.length := do
  let first ← part text
  match nextMark? first.rest with
  | none => .error ⟨enclosure.atEnd, [], 0⟩
  | some mark =>
      have : mark.rest.length < text.length := (first.chain mark.later).shorter
      if mark.value = enclosure.close then
        return (first.chain mark.later).map fun _ => [first.value]
      else if mark.value = ',' then
        match nextMark? mark.rest with
        | none => .error ⟨.endInValue, [], 0⟩
        | some next =>
            if next.value = enclosure.close then
              .error ⟨.trailingComma, next.value :: next.rest, 1⟩
            else
              let more ← readParts enclosure part mark.rest
              return (first.chain (mark.chain more.later).later).map (first.value :: ·)
      else
        .error ⟨enclosure.otherwise, mark.value :: mark.rest, 1⟩
termination_by text.length

def readEnclosed {α : Type} (enclosure : Enclosure) (part : Reader α) (text : List Char) :
    Result (List α) text.length :=
  match nextMark? text with
  | none => .error ⟨enclosure.atEnd, [], 0⟩
  | some mark =>
      if mark.value = enclosure.close then
        .ok (mark.map fun _ => [])
      else
        readParts enclosure part text

def readMember (value : Reader Json) (text : List Char) : Result (String × Json) text.length :=
  match nextMark? text with
  | none => .error ⟨.endInValue, [], 0⟩
  | some quotation =>
      if quotation.value = '"' then do
        let key ← readQuoted quotation.rest
        match nextMark? key.rest with
        | none => .error ⟨.endInObject, [], 0⟩
        | some colon =>
            if colon.value = ':' then
              let item ← value colon.rest
              return (quotation.chain (key.chain (colon.chain item.later).later).later).map fun _ =>
                (String.ofList key.value, item.value)
            else
              .error ⟨.expectedColon, colon.value :: colon.rest, 1⟩
      else
        .error ⟨.keyMustBeString, quotation.value :: quotation.rest, 1⟩

/-- Reads what starts with a given character, which is no blank. What stands in brackets is read by
the given reader; without one no bracket may be opened. -/
def readFrom (nested : Option (Reader Json)) (c : Char) (rest : List Char) :
    Result Json (rest.length + 1) :=
  if c = 'n' then readWord .null ['u', 'l', 'l'] rest
  else if c = 't' then readWord (.bool true) ['r', 'u', 'e'] rest
  else if c = 'f' then readWord (.bool false) ['a', 'l', 's', 'e'] rest
  else if c = '-' then do
    return ((← readNumber true rest).map Json.number).later
  else if c.isDigit then do
    return (← readNumber false (c :: rest)).map Json.number
  else if c = '"' then do
    return ((← readQuoted rest).map fun text => .string (String.ofList text)).later
  else if c = '[' then
    match nested with
    | none => .error ⟨.tooManyLevels, c :: rest, 1⟩
    | some item => do
        return ((← readEnclosed .array item rest).map Json.array).later
  else if c = '{' then
    match nested with
    | none => .error ⟨.tooManyLevels, c :: rest, 1⟩
    | some value => do
        return ((← readEnclosed .object (readMember value) rest).map fun members =>
          .object (Table.ofList members)).later
  else
    .error ⟨.expectedValue, c :: rest, 1⟩

def readBehindBlanks (nested : Option (Reader Json)) : Reader Json := fun text =>
  match nextMark? text with
  | none => .error ⟨.endInValue, [], 0⟩
  | some start => do return start.chain (← readFrom nested start.value start.rest)

/-- Reads a value in which at most so many brackets may be open at a time. -/
def readValue : Nat → Reader Json
  | 0 => readBehindBlanks none
  | levels + 1 => readBehindBlanks (some (readValue levels))

/-- Reads a text that holds one value and nothing else. -/
def read (levels : Nat) (text : List Char) : Except ReadError Json := do
  let document ← readValue levels text
  match nextMark? document.rest with
  | none => return document.value
  | some mark => .error ⟨.trailingCharacters, mark.value :: mark.rest, 1⟩

def greatestNesting : Nat := 127

/-- Why a text is no document, and where that shows. -/
structure DocumentError where
  cause : Cause
  position : Position
deriving DecidableEq

def DocumentError.message (error : DocumentError) : String :=
  s!"{error.cause.message} at line {error.position.line} column {error.position.column}"

def parse (text : String) : Except DocumentError Json :=
  match read greatestNesting text.toList with
  | .ok document => .ok document
  | .error error => .error ⟨error.cause, error.position text.toList⟩

end TreeProjection.Json
