import TreeProjection.Json
import TreeProjection.Json.Parsed
import TreeProjection.Binary64.Rounding

/-!
# JSON number literals

`NumberLiteral.scan` splits a literal from the front of a text, `NumberLiteral.value` says which
number it is. A literal without fraction and exponent is an integer if it fits 64 bits; `-0` and
everything that does not fit is a double. The digits of a double are taken into a significand of 64
bits as long as they fit: digits of the whole part behind them raise the exponent, digits of the
fraction behind them are dropped. An exponent that does not fit 31 bits makes zero, unless the
number is then out of range.
-/

namespace TreeProjection

/-- The integer of a document, if it fits 64 bits. -/
def JsonNumber.ofInt? (value : Int) : Option JsonNumber :=
  if hfits : -0x8000000000000000 ≤ value ∧ value < 0x10000000000000000 then
    some (.integer value hfits.1 hfits.2)
  else
    none

def JsonNumber.ofMagnitude? (negative : Bool) (magnitude : Nat) : Option JsonNumber :=
  let value := Binary64.ofMagnitude negative magnitude
  if hfinite : value.isFinite = true then some (.float value hfinite) else none

namespace Json

structure SignedDigits where
  negative : Bool
  digits : List Char

/-- The parts of a number literal. The fraction has digits if it is there. -/
structure NumberLiteral where
  negative : Bool
  whole : List Char
  fraction : Option (List Char)
  exponent : Option SignedDigits

namespace NumberLiteral

def skipDigits (text : List Char) : List Char := text.dropWhile Char.isDigit

theorem length_skipDigits_lt (text : List Char) : (skipDigits text).length < text.length + 1 :=
  Nat.lt_succ_of_le (List.dropWhile_sublist Char.isDigit).length_le

/-- Reads digits, of which there must be one. -/
def scanDigits (text : List Char) : Result (List Char) text.length :=
  match text with
  | [] => .error ⟨.endInValue, [], 0⟩
  | c :: rest =>
      if c.isDigit then
        .ok ⟨c :: rest.takeWhile Char.isDigit, skipDigits rest, length_skipDigits_lt rest⟩
      else
        .error ⟨.invalidNumber, c :: rest, 1⟩

/-- Reads the whole part. A zero stands alone. -/
def scanWhole (text : List Char) : Result (List Char) text.length :=
  match text with
  | '0' :: rest =>
      if (rest.head?.map Char.isDigit).getD false then
        .error ⟨.invalidNumber, rest, 1⟩
      else
        .ok (.before ['0'] rest)
  | other => scanDigits other

/-- Reads a point and the digits behind it, if there is a point. -/
def scanFraction (text : List Char) : Result (Option (List Char)) (text.length + 1) :=
  match text with
  | '.' :: rest => do return ((← scanDigits rest).map some).later.later
  | other => .ok (.before none other)

def scanSigned (text : List Char) : Result SignedDigits text.length :=
  match text with
  | '+' :: rest => do return ((← scanDigits rest).map (SignedDigits.mk false)).later
  | '-' :: rest => do return ((← scanDigits rest).map (SignedDigits.mk true)).later
  | other => do return (← scanDigits other).map (SignedDigits.mk false)

/-- Reads the letter of an exponent and what belongs to it, if there is one. -/
def scanExponent (text : List Char) : Result (Option SignedDigits) (text.length + 1) :=
  match text with
  | [] => .ok (.before none [])
  | c :: rest =>
      if c = 'e' ∨ c = 'E' then do
        return ((← scanSigned rest).map some).later.later
      else
        .ok (.before none (c :: rest))

def scan (negative : Bool) (text : List Char) : Result NumberLiteral text.length := do
  let whole ← scanWhole text
  let fraction ← scanFraction whole.rest
  let exponent ← scanExponent fraction.rest
  return (whole.chain (fraction.chain exponent)).map fun digits =>
    ⟨negative, whole.value, fraction.value, digits⟩

/-- A number made of digits as long as it did not exceed a bound: how many of them were taken, and
those that were left. -/
structure Taken where
  number : Nat
  count : Nat
  left : List Char

def takeDigits (greatest begun : Nat) : List Char → Taken
  | [] => ⟨begun, 0, []⟩
  | c :: digits =>
      let longer := begun * 10 + (c.toNat - '0'.toNat)
      if longer ≤ greatest then
        let taken := takeDigits greatest longer digits
        { taken with count := taken.count + 1 }
      else
        ⟨begun, 0, c :: digits⟩

def greatestSignificand : Nat := 0xFFFFFFFFFFFFFFFF

def greatestExponent : Nat := 0x7FFFFFFF

def float? (negative : Bool) (significand : Nat) (exponent : Int) : Option JsonNumber :=
  (Binary64.ofDecimal? significand exponent).bind (JsonNumber.ofMagnitude? negative)

/-- The literal as an integer: no fraction, no exponent, no digit to spare, and no negative zero. -/
def integer? (literal : NumberLiteral) (taken : Taken) : Option JsonNumber :=
  if literal.fraction.isSome ∨ literal.exponent.isSome ∨ taken.left ≠ [] then none
  else if literal.negative then
    if taken.number = 0 then none else JsonNumber.ofInt? (-taken.number)
  else
    JsonNumber.ofInt? taken.number

/-- The literal as a double; if it is out of range, the digits behind those that make it so. -/
def double (literal : NumberLiteral) (taken : Taken) : Except (List Char) JsonNumber :=
  let fraction := takeDigits greatestSignificand taken.number (literal.fraction.getD [])
  let shift : Int := taken.left.length - fraction.count
  let finish (exponent : Int) : Except (List Char) JsonNumber :=
    match float? literal.negative fraction.number exponent with
    | some result => .ok result
    | none => .error []
  match literal.exponent with
  | none => finish shift
  | some exponent =>
      let power := takeDigits greatestExponent 0 exponent.digits
      match power.left with
      | [] => finish (if exponent.negative then shift - power.number else shift + power.number)
      | _ :: behind =>
          if fraction.number = 0 ∨ exponent.negative then
            match JsonNumber.ofMagnitude? literal.negative 0 with
            | some result => .ok result
            | none => .error behind
          else
            .error behind

/-- The number of a literal; if it is out of range, the digits behind those that make it so. -/
def value (literal : NumberLiteral) : Except (List Char) JsonNumber :=
  let taken := takeDigits greatestSignificand 0 literal.whole
  match literal.integer? taken with
  | some result => .ok result
  | none => literal.double taken

end NumberLiteral

def readNumber (negative : Bool) (text : List Char) : Result JsonNumber text.length := do
  let literal ← NumberLiteral.scan negative text
  match literal.value.value with
  | .ok value => return literal.map fun _ => value
  | .error unread => .error ⟨.numberOutOfRange, unread ++ literal.rest, 0⟩

end Json

end TreeProjection
