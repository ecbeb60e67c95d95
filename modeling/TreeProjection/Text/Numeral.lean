/-!
# Numbers in settings

A setting can hold a whole number, which is written in decimal digits and perhaps behind a plus
sign, or a number of any kind, which may have a point and an exponent as well.
-/

namespace TreeProjection.Text

/-- The number that a text stands for, if it is a whole one. -/
def natural? (text : List Char) : Option Nat :=
  let digits := match text with
    | '+' :: rest => rest
    | other => other
  if digits.isEmpty || !digits.all Char.isDigit then none
  else some (Nat.ofDigitChars 10 digits 0)

def unsigned : List Char → List Char
  | '+' :: rest => rest
  | '-' :: rest => rest
  | text => text

/-- What may stand behind the digits and the point of a number: nothing, or an exponent. -/
def isExponent : List Char → Bool
  | [] => true
  | mark :: rest =>
      (mark == 'e' || mark == 'E') && !(unsigned rest).isEmpty && (unsigned rest).all Char.isDigit

/-- A number without its sign. Digits must stand on one side of the point at least. -/
def isDecimal (text : List Char) : Bool :=
  let whole := text.takeWhile Char.isDigit
  match text.drop whole.length with
  | '.' :: rest =>
      let fraction := rest.takeWhile Char.isDigit
      !(whole.isEmpty && fraction.isEmpty) && isExponent (rest.drop fraction.length)
  | rest => !whole.isEmpty && isExponent rest

/-- The names of what is a number but has no digits, in small letters. -/
def numberNames : List String := ["inf", "infinity", "nan"]

/-- A number of any kind, perhaps behind a sign. -/
def isNumber (text : List Char) : Bool :=
  isDecimal (unsigned text) || numberNames.contains (String.ofList (unsigned text)).toLower

def hexValue? (c : Char) : Option Nat :=
  if c.isDigit then some (c.toNat - '0'.toNat)
  else if 'a' ≤ c ∧ c ≤ 'f' then some (c.toNat - 'a'.toNat + 10)
  else if 'A' ≤ c ∧ c ≤ 'F' then some (c.toNat - 'A'.toNat + 10)
  else none

end TreeProjection.Text
