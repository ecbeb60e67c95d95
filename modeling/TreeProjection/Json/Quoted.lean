import TreeProjection.Json.Parsed
import TreeProjection.Text.Numeral

/-!
# JSON strings

`quote` writes a text between quotation marks. Only the quotation mark, the backslash and the
characters below the space are escaped, the latter by their short form if they have one.
`readQuoted` reads what stands behind an opening quotation mark, with every escape that JSON knows;
a character beyond the first 65536 is escaped as a pair of surrogates.
-/

namespace TreeProjection.Json

/-- The lower-case hexadecimal digits of a number, at least `width` of them. -/
def hexDigits (width n : Nat) : List Char :=
  let digits := Nat.toDigits 16 n
  List.replicate (width - digits.length) '0' ++ digits

/-- A character as it is written between quotation marks. -/
def escape (c : Char) : List Char :=
  if c = '"' then ['\\', '"']
  else if c = '\\' then ['\\', '\\']
  else if c = '\x08' then ['\\', 'b']
  else if c = '\t' then ['\\', 't']
  else if c = '\n' then ['\\', 'n']
  else if c = '\x0c' then ['\\', 'f']
  else if c = '\r' then ['\\', 'r']
  else if c.toNat < 0x20 then '\\' :: 'u' :: hexDigits 4 c.toNat
  else [c]

def quote (text : List Char) : List Char := '"' :: text.flatMap escape ++ ['"']

/-- Reads four hexadecimal digits. -/
def readHexUnit (text : List Char) : Result Nat text.length :=
  match text with
  | a :: b :: c :: d :: rest =>
      match Text.hexValue? a, Text.hexValue? b, Text.hexValue? c, Text.hexValue? d with
      | some a, some b, some c, some d =>
          .ok (Parsed.before (((a * 16 + b) * 16 + c) * 16 + d) rest).later.later.later
      | _, _, _, _ => .error ⟨.invalidEscape, text, 4⟩
  | short => .error ⟨if Text.byteSize short < 4 then .endInString else .invalidEscape, short, 4⟩

def isLeadingSurrogate (unit : Nat) : Bool := decide (0xD800 ≤ unit ∧ unit ≤ 0xDBFF)

def isTrailingSurrogate (unit : Nat) : Bool := decide (0xDC00 ≤ unit ∧ unit ≤ 0xDFFF)

/-- The character that a pair of surrogates stands for. -/
def surrogatePair (leading trailing : Nat) : Char :=
  Char.ofNat ((leading - 0xD800) * 0x400 + (trailing - 0xDC00) + 0x10000)

/-- Reads the escape of a trailing surrogate behind a leading one. -/
def readTrailingSurrogate (leading : Nat) (text : List Char) : Result Char text.length :=
  match text with
  | [] => .error ⟨.endInString, [], 0⟩
  | ['\\'] => .error ⟨.endInString, [], 0⟩
  | '\\' :: 'u' :: rest => do
      let unit ← readHexUnit rest
      if isTrailingSurrogate unit.value then
        return (unit.map (surrogatePair leading)).later.later
      else
        .error ⟨.loneSurrogate, unit.rest, 0⟩
  | '\\' :: other => .error ⟨.unfinishedSurrogate, other, 1⟩
  | other => .error ⟨.unfinishedSurrogate, other, 1⟩

/-- Reads what follows `\u`. -/
def readCodeEscape (text : List Char) : Result Char text.length := do
  let unit ← readHexUnit text
  if isTrailingSurrogate unit.value then
    .error ⟨.loneSurrogate, unit.rest, 0⟩
  else if isLeadingSurrogate unit.value then
    return unit.chain (← readTrailingSurrogate unit.value unit.rest).later
  else
    return unit.map Char.ofNat

/-- The character that a one-letter escape stands for. -/
def shortEscape? (c : Char) : Option Char :=
  if c = '"' ∨ c = '\\' ∨ c = '/' then some c
  else if c = 'b' then some '\x08'
  else if c = 'f' then some '\x0c'
  else if c = 'n' then some '\n'
  else if c = 'r' then some '\r'
  else if c = 't' then some '\t'
  else none

/-- Reads what follows a backslash. -/
def readEscape (text : List Char) : Result Char text.length :=
  match text with
  | [] => .error ⟨.endInString, [], 0⟩
  | c :: rest =>
      match shortEscape? c with
      | some plain => .ok (.before plain rest)
      | none =>
          if c = 'u' then do
            return (← readCodeEscape rest).later
          else
            .error ⟨.invalidEscape, c :: rest, 1⟩

/-- Reads what follows an opening quotation mark, up to the closing one. -/
def readQuoted (text : List Char) : Result (List Char) text.length :=
  match text with
  | [] => .error ⟨.endInString, [], 0⟩
  | c :: rest =>
      if c = '"' then
        .ok (.before [] rest)
      else if c = '\\' then do
        let plain ← readEscape rest
        have : plain.rest.length < rest.length + 1 := plain.later.shorter
        let more ← readQuoted plain.rest
        return (plain.chain more.later).later.map (plain.value :: ·)
      else if c.toNat < 0x20 then
        .error ⟨.controlCharacter, c :: rest, 1⟩
      else do
        return (← readQuoted rest).later.map (c :: ·)
termination_by text.length

end TreeProjection.Json
