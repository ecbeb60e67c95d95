import TreeProjection.Text.Pattern.Atom
import TreeProjection.Text.Pattern.Nesting
import TreeProjection.Text.Steps

/-!
# Classes of characters in patterns

A class holds its members between brackets: characters, ranges of them, classes that have a name,
and further brackets. Operators combine what stands in front of them with what stands behind them.
`readClass?` finds the end of a class and how deeply it is nested.
-/

namespace TreeProjection.Text.Pattern

structure Bracket where
  /-- It holds nothing but minus signs, so far. They stand for themselves, and so does a closing
  bracket in the first place. -/
  fresh : Bool
  /-- The nesting of what stands in front of the last operator. -/
  operand : Option Nat
  /-- The nestings of the members behind that. -/
  members : List Nat

namespace Bracket

def empty : Bracket := ⟨true, none, []⟩

def nesting (bracket : Bracket) : Nat :=
  match bracket.operand with
  | none => sideBySide bracket.members
  | some operand => max operand (sideBySide bracket.members) + 1

def add (nesting : Nat) (bracket : Bracket) : Bracket :=
  { bracket with fresh := false, members := nesting :: bracket.members }

def operate (bracket : Bracket) : Bracket := ⟨false, some bracket.nesting, []⟩

end Bracket

def classNames : List String :=
  ["alnum", "alpha", "ascii", "blank", "cntrl", "digit", "graph", "lower", "print", "punct",
    "space", "upper", "word", "xdigit"]

/-- Reads the name of a class between colons behind an opening bracket, and whether the complement
of the class is meant. -/
def readName? : List Char → Option (Bool × List Char)
  | ':' :: text =>
      let (complement, text) := match text with
        | '^' :: rest => (true, rest)
        | _ => (false, text)
      let name := text.takeWhile (· != ':')
      match text.drop name.length with
      | ':' :: ']' :: rest =>
          if classNames.contains (String.ofList name) then some (complement, rest) else none
      | _ => none
  | _ => none

/-- A class may hold what an atom stands for. -/
def Atom.isMember (flags : Flags) : Atom → Bool
  | .literal c => flags.admitMember c
  | .characterClass => true
  | .place => false

def Atom.isRange (flags : Flags) : Atom → Atom → Bool
  | .literal first, .literal last =>
      decide (first ≤ last) && flags.admitMember first && flags.admitMember last
  | _, _ => false

/-- Reads a member that is no bracket. A minus sign makes a range of what is on both sides of it,
unless the end of the class or an operator follows it. -/
def readMember? (flags : Flags) (text : List Char) : Option (List Char) :=
  (readAtom? flags text).bind fun (first, rest) =>
    let single := if first.isMember flags then some rest else none
    match flags.skip rest with
    | '-' :: behind =>
        if [some ']', some '-'].contains (flags.lookAhead? behind) then single
        else
          (readAtom? flags (flags.skip behind)).bind fun (last, rest) =>
            if first.isRange flags last then some rest else none
    | _ => single

/-- Passes over the sign behind an opening bracket that asks for the complement of the class. Within
ASCII there is none, because a complement reaches beyond it. -/
def passComplement? (flags : Flags) (text : List Char) : Option (List Char) :=
  match flags.skip text with
  | '^' :: rest => if flags.ascii then none else some rest
  | rest => some rest

/-- A class that is being read: the innermost bracket and those around it. -/
structure ClassReading where
  bracket : Bracket
  outer : List Bracket

namespace ClassReading

/-- The reading goes on with the innermost bracket changed. -/
def update (reading : ClassReading) (change : Bracket → Bracket) (rest : List Char) :
    Option ((ClassReading ⊕ Nat) × List Char) :=
  some (.inl { reading with bracket := change reading.bracket }, rest)

/-- Opens a bracket, unless it is the beginning of the name of a class. -/
def openBracket? (flags : Flags) (reading : ClassReading) (text : List Char) :
    Option ((ClassReading ⊕ Nat) × List Char) :=
  match readName? text with
  | some (complement, rest) =>
      if flags.admitLiterals && !(complement && flags.ascii) then reading.update (·.add 0) rest
      else none
  | none =>
      (passComplement? flags text).map fun rest =>
        (.inl ⟨.empty, reading.bracket :: reading.outer⟩, rest)

def close (reading : ClassReading) : ClassReading ⊕ Nat :=
  match reading.outer with
  | [] => .inr (reading.bracket.nesting + 1)
  | enclosing :: outer => .inl ⟨enclosing.add (reading.bracket.nesting + 1), outer⟩

def step? (flags : Flags) (reading : ClassReading) (text : List Char) :
    Option ((ClassReading ⊕ Nat) × List Char) :=
  let member (text : List Char) :=
    (readMember? flags text).bind fun rest => reading.update (·.add 0) rest
  match flags.skip text with
  | [] => none
  | '[' :: rest => reading.openBracket? flags rest
  | ']' :: rest =>
      if !(reading.bracket.fresh && reading.bracket.members.isEmpty) then
        some (reading.close, rest)
      else if flags.admitLiterals then
        reading.update (·.add 0) rest
      else
        none
  | '-' :: rest =>
      if reading.bracket.fresh then
        if flags.admitLiterals then
          reading.update (fun bracket => { bracket.add 0 with fresh := true }) rest
        else
          none
      else
        match rest with
        | '-' :: behind => reading.update Bracket.operate behind
        | _ => member ('-' :: rest)
  | '&' :: '&' :: rest => reading.update Bracket.operate rest
  | '~' :: '~' :: rest => reading.update Bracket.operate rest
  | rest => member rest

end ClassReading

/-- Reads a class behind its opening bracket and gives its nesting. -/
def readClass? (flags : Flags) (text : List Char) : Option (Nat × List Char) :=
  (passComplement? flags text).bind (readSteps? (ClassReading.step? flags) ⟨.empty, []⟩)

end TreeProjection.Text.Pattern
