import TreeProjection.Text.Blank

/-!
# Flags of patterns

A pattern can set flags for what follows, as far as the group around it goes. Three of them decide
which patterns there are. Nothing is known about the characters beyond ASCII: which of them differ
by case only, which are letters or digits, and where words begin. A pattern that would have to know
it must be told to keep to ASCII.
-/

namespace TreeProjection.Text.Pattern

/-- The flags on which the form of a pattern depends. -/
structure Flags where
  /-- Characters that differ by case only count as the same. -/
  anyCase : Bool
  /-- Classes of characters and edges of words are those of ASCII. -/
  ascii : Bool
  /-- Blanks and comments are no part of the pattern. -/
  spaced : Bool

namespace Flags

def initial : Flags := ⟨false, false, false⟩

def letters : List Char := "imsUuRx".toList

/-- A text that sets flags, and behind a minus sign unsets them, each at most once. -/
def canChange (text : List Char) : Bool :=
  text.all (fun c => c == '-' || letters.contains c) && text.eraseDups == text &&
    text.getLast? != some '-'

/-- The state of a flag behind a text that changes flags. -/
def stateBehind (text : List Char) (letter : Char) (state : Bool) : Bool :=
  if text.contains letter then (text.takeWhile (· != '-')).contains letter else state

def change (flags : Flags) (text : List Char) : Flags :=
  ⟨stateBehind text 'i' flags.anyCase, !stateBehind text 'u' (!flags.ascii),
    stateBehind text 'x' flags.spaced⟩

/-- A text from the first character on that is neither a blank nor in a comment. A comment goes up
to the end of its line. -/
def behindSpace (inComment : Bool) : List Char → List Char
  | [] => []
  | c :: rest =>
      if inComment then behindSpace (c != '\n') rest
      else if c == '#' then behindSpace true rest
      else if isBlank c then behindSpace false rest
      else c :: rest

/-- Passes over what is no part of the pattern. -/
def skip (flags : Flags) (text : List Char) : List Char :=
  if flags.spaced then behindSpace false text else text

/-- The next character as a look ahead finds it, which sees a comment but not where it ends. -/
def lookAhead? (flags : Flags) (text : List Char) : Option Char :=
  if !flags.spaced then text.head?
  else
    match text.dropWhile isBlank with
    | '#' :: comment => (comment.dropWhile isBlank).head?
    | rest => rest.head?

/-- A pattern may hold characters that stand for themselves, and classes may have names or members.
Where this does not hold, every class is empty or holds all characters, and case does not matter. -/
def admitLiterals (flags : Flags) : Bool := flags.ascii || !flags.anyCase

/-- A class of characters may hold this one. -/
def admitMember (flags : Flags) (c : Char) : Bool :=
  flags.admitLiterals && (!flags.ascii || c.toNat < 0x80)

end Flags

end TreeProjection.Text.Pattern
