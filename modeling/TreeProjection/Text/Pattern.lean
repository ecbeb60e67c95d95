import TreeProjection.Text.Alphanumeric
import TreeProjection.Text.Pattern.Class

/-!
# Patterns

A pattern describes texts by a regular expression: alternatives between bars, each a row of items,
which are characters, classes, places, groups in parentheses and repetitions of all of these.
`isPattern` says which texts are patterns. Whatever names the characters it speaks of by a property
that goes beyond ASCII is none, nor is a repetition that counts.
-/

namespace TreeProjection.Text

namespace Pattern

structure Item where
  nesting : Nat
  /-- It can be repeated, unlike a change of flags. -/
  repeatable : Bool

/-- A group that is still open, or the pattern as a whole. -/
structure Group where
  /-- The flags for what is read next. -/
  flags : Flags
  /-- The nestings of the alternatives in front of the last bar. -/
  alternatives : List Nat
  /-- The row behind it, the last item first. -/
  row : List Item

namespace Group

def start (flags : Flags) : Group := ⟨flags, [], []⟩

def add (nesting : Nat) (group : Group) : Group :=
  { group with row := ⟨nesting, true⟩ :: group.row }

def divide (group : Group) : Group :=
  { group with
    alternatives := sideBySide (group.row.map Item.nesting) :: group.alternatives
    row := [] }

def nesting (group : Group) : Nat := sideBySide group.divide.alternatives

def changeFlags (group : Group) (text : List Char) : Group :=
  { group with flags := group.flags.change text, row := ⟨0, false⟩ :: group.row }

def repeat? (group : Group) : Option Group :=
  match group.row with
  | [] => none
  | item :: before =>
      if item.repeatable then some { group with row := ⟨item.nesting + 1, true⟩ :: before }
      else none

end Group

def isGroupName : List Char → Bool
  | [] => false
  | first :: rest =>
      (first == '_' || isAlphabetic first) &&
        rest.all fun c => ['_', '.', '[', ']'].contains c || isAlphanumeric c

/-- A pattern that is being read: the innermost group, those around it, and the names in use. -/
structure Reading where
  group : Group
  outer : List Group
  names : List (List Char)

namespace Reading

/-- The reading goes on with the innermost group changed. -/
def update (reading : Reading) (change : Group → Group) (rest : List Char) :
    Option ((Reading ⊕ Nat) × List Char) :=
  some (.inl { reading with group := change reading.group }, rest)

def openGroup (reading : Reading) (flags : Flags) : Reading :=
  { reading with group := .start flags, outer := reading.group :: reading.outer }

/-- Opens a group behind the mark in front of its name. -/
def openNamed? (reading : Reading) (text : List Char) :
    Option ((Reading ⊕ Nat) × List Char) :=
  let name := text.takeWhile (· != '>')
  match text.drop name.length with
  | [] => none
  | _ :: rest =>
      if !isGroupName name || reading.names.contains name then none
      else
        let opened := reading.openGroup reading.group.flags
        some (.inl { opened with names := name :: opened.names }, rest)

/-- Changes flags, either for the rest of the group or for a group that begins here. -/
def changeFlags? (reading : Reading) (text : List Char) :
    Option ((Reading ⊕ Nat) × List Char) :=
  let change := text.takeWhile fun c => c != ':' && c != ')'
  if !Flags.canChange change then none
  else
    match text.drop change.length with
    | ':' :: rest => some (.inl (reading.openGroup (reading.group.flags.change change)), rest)
    | ')' :: rest => if change.isEmpty then none else reading.update (·.changeFlags change) rest
    | _ => none

def openParenthesis? (reading : Reading) (text : List Char) :
    Option ((Reading ⊕ Nat) × List Char) :=
  match reading.group.flags.skip text with
  | '?' :: 'P' :: '<' :: rest => reading.openNamed? rest
  | '?' :: '<' :: rest => reading.openNamed? rest
  | '?' :: rest => reading.changeFlags? rest
  | rest => some (.inl (reading.openGroup reading.group.flags), rest)

def close? (reading : Reading) (rest : List Char) : Option ((Reading ⊕ Nat) × List Char) :=
  match reading.outer with
  | [] => none
  | enclosing :: outer =>
      some (.inl { reading with group := enclosing.add (reading.group.nesting + 1), outer }, rest)

def addAtom? (reading : Reading) (text : List Char) : Option ((Reading ⊕ Nat) × List Char) :=
  (readAtom? reading.group.flags text).bind fun (atom, rest) =>
    match atom, reading.group.flags.admitLiterals with
    | .literal _, false => none
    | _, _ => reading.update (·.add 0) rest

/-- Repeats the last item. A question mark right behind the sign of the repetition belongs to it. -/
def repeat? (reading : Reading) (text : List Char) : Option ((Reading ⊕ Nat) × List Char) :=
  let rest := match text with
    | '?' :: behind => behind
    | _ => text
  reading.group.repeat?.bind fun group => reading.update (fun _ => group) rest

/-- Reads one sign of the pattern, or comes to its end. -/
def step? (reading : Reading) (text : List Char) : Option ((Reading ⊕ Nat) × List Char) :=
  match reading.group.flags.skip text with
  | [] => if reading.outer.isEmpty then some (.inr reading.group.nesting, []) else none
  | '(' :: rest => reading.openParenthesis? rest
  | ')' :: rest => reading.close? rest
  | '|' :: rest => reading.update Group.divide rest
  | '[' :: rest =>
      (readClass? reading.group.flags rest).bind fun (nesting, rest) =>
        reading.update (·.add nesting) rest
  | '?' :: rest => reading.repeat? rest
  | '*' :: rest => reading.repeat? rest
  | '+' :: rest => reading.repeat? rest
  | '\x7b' :: _ => none
  | '.' :: rest => if reading.group.flags.ascii then none else reading.update (·.add 0) rest
  | '^' :: rest => reading.update (·.add 0) rest
  | '$' :: rest => reading.update (·.add 0) rest
  | rest => reading.addAtom? rest

end Reading

end Pattern

open Pattern in
/-- A text is a pattern, and not nested too deeply. -/
def isPattern (text : List Char) : Bool :=
  (readSteps? Reading.step? ⟨.start .initial, [], []⟩ text).any fun (nesting, _) =>
    nesting ≤ deepest

end TreeProjection.Text
