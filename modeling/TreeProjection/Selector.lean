import TreeProjection.Table

/-!
# Selectors

A selector says which attributes of a mapping are kept, and in what order. Each attribute is named
either bare or with a nested selector for what lies below it. The key `*` asks for every attribute
that the selector does not name; what is nested below `*` has no meaning.

`Selector.attributes` is the rule by which a selector picks from a mapping, `Selector.depth` bounds
how far down it looks, and `Selector.agrees` compares two selectors without regard to order.
-/

namespace TreeProjection

/-- Attribute names in order, each bare or with a nested selector. -/
structure Selector where
  entries : List (String × Option Selector)

namespace Selector

/-- The key that stands for all attributes a selector does not name. -/
def wildcard : String := "*"

def empty : Selector := ⟨[]⟩

instance : Inhabited Selector := ⟨empty⟩

/-- Names one more attribute; a name already there keeps its place and takes the new child. -/
def insert (selector : Selector) (key : String) (child : Option Selector) : Selector :=
  ⟨Table.insert selector.entries key child⟩

/-- The selector that names the given attributes, one after the other. -/
def ofList (pairs : List (String × Option Selector)) : Selector := ⟨Table.ofList pairs⟩

/-- `none` if the key is not named, otherwise what is nested below it. -/
def get? (selector : Selector) (key : String) : Option (Option Selector) :=
  Table.get? selector.entries key

def contains (selector : Selector) (key : String) : Bool := Table.contains selector.entries key

def keys (selector : Selector) : List String := Table.keys selector.entries

def size (selector : Selector) : Nat := selector.entries.length

def isEmpty (selector : Selector) : Bool := selector.entries.isEmpty

def hasWildcard (selector : Selector) : Bool := selector.contains wildcard

/-- The attributes that a selector names itself, without the wildcard. -/
def named (selector : Selector) : List (String × Option Selector) :=
  selector.entries.filter fun entry => entry.1 ≠ wildcard

/-- The keys of a mapping that only the wildcard admits, bare and in the mapping's order. -/
def admitted (selector : Selector) (present : List String) : List (String × Option Selector) :=
  if selector.hasWildcard then
    (present.filter fun key => key ≠ wildcard ∧ ¬selector.contains key).map fun key => (key, none)
  else
    []

/-- What is kept of a mapping with the given keys: the named attributes in the selector's order,
then what the wildcard admits. -/
def attributes (selector : Selector) (present : List String) : List (String × Option Selector) :=
  selector.named ++ selector.admitted present

mutual

/-- How many nested mappings a selector can look into: none if it names nothing, otherwise one more
than its deepest child. -/
def depth : Selector → Nat
  | ⟨[]⟩ => 0
  | ⟨entry :: rest⟩ => 1 + childDepth (entry :: rest)

def childDepth : List (String × Option Selector) → Nat
  | [] => 0
  | (_, none) :: rest => childDepth rest
  | (_, some child) :: rest => max child.depth (childDepth rest)

end

mutual

/-- Equality up to the order of entries at every level: the same number of entries, and under each
key of the first a child that agrees. -/
def agrees : Selector → Selector → Bool
  | ⟨entries⟩, other => entries.length == other.entries.length && entriesAgree entries other.entries

def entriesAgree : List (String × Option Selector) → List (String × Option Selector) → Bool
  | [], _ => true
  | (key, child) :: rest, others =>
      (match Table.get? others key with
        | none => false
        | some other => childAgrees child other) && entriesAgree rest others

/-- Two children agree if both are missing, or both are there and agree. -/
def childAgrees : Option Selector → Option Selector → Bool
  | none, other => other.isNone
  | some _, none => false
  | some child, some other => agrees child other

end

mutual

/-- No level names a key twice. -/
def DistinctKeys : Selector → Prop
  | ⟨entries⟩ => Table.Distinct entries ∧ ChildrenDistinct entries

def ChildrenDistinct : List (String × Option Selector) → Prop
  | [] => True
  | (_, none) :: rest => ChildrenDistinct rest
  | (_, some child) :: rest => child.DistinctKeys ∧ ChildrenDistinct rest

end

end Selector

end TreeProjection
