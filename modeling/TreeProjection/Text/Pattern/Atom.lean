import TreeProjection.Text.Numeral
import TreeProjection.Text.Pattern.Flags

/-!
# Characters and escapes in patterns

A character of a pattern stands for itself unless it is a sign of the pattern. An escape stands for
a character, for a class of characters or for a place in the text.
-/

namespace TreeProjection.Text.Pattern

inductive Atom where
  | literal (c : Char)
  | characterClass
  | place
deriving DecidableEq

/-- The control characters that have a letter. -/
def controls : List (Char × Char) :=
  [('a', '\x07'), ('f', '\x0c'), ('n', '\n'), ('r', '\r'), ('t', '\t'), ('v', '\x0b')]

/-- The number of digits behind a letter that gives a character by its code. -/
def codeDigits? : Char → Option Nat
  | 'x' => some 2
  | 'u' => some 4
  | 'U' => some 8
  | _ => none

def readDigits? (flags : Flags) : Nat → Nat → List Char → Option (Nat × List Char)
  | 0, code, text => some (code, text)
  | count + 1, code, text =>
      match flags.skip text with
      | [] => none
      | c :: rest =>
          (hexValue? c).bind fun digit => readDigits? flags count (code * 16 + digit) rest

/-- Reads the code of a character. A code of two digits is a byte, which is a character by itself
within ASCII only. -/
def readCode? (flags : Flags) (count : Nat) (text : List Char) : Option (Atom × List Char) :=
  (readDigits? flags count 0 text).bind fun (code, rest) =>
    if (Char.ofNat code).toNat != code || (flags.ascii && count == 2 && 0x80 ≤ code) then none
    else some (.literal (Char.ofNat code), rest)

/-- What the escape by a single character stands for. -/
def escaped? (flags : Flags) (c : Char) : Option Atom :=
  match controls.lookup c with
  | some control => some (.literal control)
  | none =>
      if c == 'A' || c == 'z' then some .place
      else if ['b', 'B', '<', '>'].contains c then if flags.ascii then some .place else none
      else if ['d', 's', 'w'].contains c then if flags.ascii then some .characterClass else none
      else if c.isAlphanum || 0x80 ≤ c.toNat then none
      else some (.literal c)

def readEscape? (flags : Flags) : List Char → Option (Atom × List Char)
  | [] => none
  | c :: rest =>
      match codeDigits? c with
      | some count => readCode? flags count rest
      | none => (escaped? flags c).map fun atom => (atom, rest)

/-- Reads a character that is no sign of the pattern, or an escape. -/
def readAtom? (flags : Flags) : List Char → Option (Atom × List Char)
  | [] => none
  | '\\' :: rest => readEscape? flags rest
  | c :: rest => some (.literal c, rest)

end TreeProjection.Text.Pattern
