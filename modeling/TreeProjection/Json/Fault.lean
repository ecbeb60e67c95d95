import TreeProjection.Text.Bytes

/-!
# Faults of JSON texts

A text that is no JSON document is refused with a cause and the place at which the cause was met.
While a text is read, a place is the text that is left. `Json.ReadError.position` turns it into a
line and a column, both counted in bytes as far as the text had been looked at: `ahead` is the
number of bytes of the text left that were looked at as well.
-/

namespace TreeProjection.Json

inductive Cause where
  | endInValue
  | endInArray
  | endInObject
  | endInString
  | expectedValue
  | expectedIdent
  | expectedColon
  | expectedCommaOrBracket
  | expectedCommaOrBrace
  | trailingComma
  | trailingCharacters
  | keyMustBeString
  | tooManyLevels
  | invalidNumber
  | numberOutOfRange
  | invalidEscape
  | controlCharacter
  | loneSurrogate
  | unfinishedSurrogate
deriving DecidableEq

def Cause.message : Cause → String
  | .endInValue => "EOF while parsing a value"
  | .endInArray => "EOF while parsing a list"
  | .endInObject => "EOF while parsing an object"
  | .endInString => "EOF while parsing a string"
  | .expectedValue => "expected value"
  | .expectedIdent => "expected ident"
  | .expectedColon => "expected `:`"
  | .expectedCommaOrBracket => "expected `,` or `]`"
  | .expectedCommaOrBrace => "expected `,` or `\x7d`"
  | .trailingComma => "trailing comma"
  | .trailingCharacters => "trailing characters"
  | .keyMustBeString => "key must be a string"
  | .tooManyLevels => "recursion limit exceeded"
  | .invalidNumber => "invalid number"
  | .numberOutOfRange => "number out of range"
  | .invalidEscape => "invalid escape"
  | .controlCharacter => "control character (\\u0000-\\u001F) found while parsing a string"
  | .loneSurrogate => "lone leading surrogate in hex escape"
  | .unfinishedSurrogate => "unexpected end of hex escape"

/-- A cause, the text left when it was met, and how many bytes of that had been looked at. -/
structure ReadError where
  cause : Cause
  left : List Char
  ahead : Nat

/-- A line, counted from one, and the number of bytes in front of a place in that line. -/
structure Position where
  line : Nat
  column : Nat
deriving DecidableEq

/-- The place behind a number of bytes, starting from a place in front of a text. -/
def Position.advance : Position → Nat → List Char → Position
  | place, _, [] => place
  | place, count, c :: text =>
      if count < c.utf8Size then
        { place with column := place.column + count }
      else if c = '\n' then
        advance ⟨place.line + 1, 0⟩ (count - c.utf8Size) text
      else
        advance ⟨place.line, place.column + c.utf8Size⟩ (count - c.utf8Size) text

/-- The place of an error in the whole text, never behind its end. -/
def ReadError.position (error : ReadError) (text : List Char) : Position :=
  Position.advance ⟨1, 0⟩ (Text.byteSize text - Text.byteSize error.left + error.ahead) text

end TreeProjection.Json
