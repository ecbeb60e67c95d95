import TreeProjection.Json
import TreeProjection.Json.Quoted
import TreeProjection.Binary64.Decimal

/-!
# Writing JSON documents

A document is written without any blanks, or with one part of an array or object to a line. Empty
arrays and objects are written as a pair of brackets in either style.
-/

namespace TreeProjection

/-- Ties go to the even digit. Doubles are written positionally from `0.00001` up to sixteen digits
in front of the point; beyond that they have an exponent, which is always signed. -/
def JsonNumber.layout : DecimalLayout := ⟨.toEven, -4, 16, true⟩

def JsonNumber.text : JsonNumber → List Char
  | .integer value _ _ =>
      (if value < 0 then ['-'] else []) ++ Nat.toDigits 10 value.natAbs
  | .float value _ => value.text JsonNumber.layout

namespace Json

inductive Style where
  | compact
  | pretty
deriving DecidableEq

/-- What stands in front of a part at a depth. -/
def Style.lineBreak : Style → Nat → List Char
  | .compact, _ => []
  | .pretty, depth => '\n' :: List.replicate (2 * depth) ' '

def Style.colon : Style → List Char
  | .compact => [':']
  | .pretty => [':', ' ']

/-- Parts inside brackets, separated by commas. -/
def enclose (style : Style) (depth : Nat) (opening closing : Char) :
    List (List Char) → List Char
  | [] => [opening, closing]
  | part :: rest =>
      opening :: style.lineBreak (depth + 1) ++
        (',' :: style.lineBreak (depth + 1)).intercalate (part :: rest) ++
        style.lineBreak depth ++ [closing]

mutual

def write (style : Style) (depth : Nat) : Json → List Char
  | .null => ['n', 'u', 'l', 'l']
  | .bool true => ['t', 'r', 'u', 'e']
  | .bool false => ['f', 'a', 'l', 's', 'e']
  | .number value => value.text
  | .string text => quote text.toList
  | .array items => enclose style depth '[' ']' (writeItems style (depth + 1) items)
  | .object members => enclose style depth '{' '}' (writeMembers style (depth + 1) members)

def writeItems (style : Style) (depth : Nat) : List Json → List (List Char)
  | [] => []
  | item :: rest => write style depth item :: writeItems style depth rest

def writeMembers (style : Style) (depth : Nat) : List (String × Json) → List (List Char)
  | [] => []
  | (key, item) :: rest =>
      (quote key.toList ++ style.colon ++ write style depth item) :: writeMembers style depth rest

end

def render (style : Style) (document : Json) : String := String.ofList (write style 0 document)

end Json

end TreeProjection
