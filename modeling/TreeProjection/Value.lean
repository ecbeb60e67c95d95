import TreeProjection.Table
import TreeProjection.Binary64

/-!
# Values

A value is a tree of mappings and sequences with leaves. Three more kinds of nodes stand for data
that is not spelled out: a dual-view node holds a summary and a detail of the same thing, a lazy
node is produced on demand, and an object can offer a plain form of itself. Lazy nodes and objects
are known by reference only; what they give is the business of a `World`.

`Value.agrees` compares two values without regard to the order of mapping entries, and
`Value.isPlain` says that nothing in a value waits to be filtered away.
-/

namespace TreeProjection

/-- A reference to a lazy node or an object. References with one address are the same node. -/
structure NodeRef where
  address : Nat
  label : String
deriving DecidableEq

/-- A value without parts. An integer that fits 64 signed bits is `integer` in a document;
`unsigned` takes over above them, but may hold smaller numbers as well and is then distinct. -/
inductive Leaf where
  | null
  | bool (value : Bool)
  | integer (value : Int64)
  | unsigned (value : UInt64)
  | number (value : Binary64)
  | string (value : String)
deriving DecidableEq

/-- A tree of data. The entries of a mapping are a table: they keep their order of arrival. -/
inductive Value where
  | leaf (leaf : Leaf)
  | sequence (items : List Value)
  | mapping (entries : List (String × Value))
  | dual (left right : Value)
  | lazy (node : NodeRef)
  | object (node : NodeRef)

/-- Leaves agree if they are of one kind and equal; numbers are compared as IEEE 754 has it. -/
def Leaf.agrees : Leaf → Leaf → Bool
  | .number x, .number y => x.ieeeEq y
  | .number _, _ => false
  | _, .number _ => false
  | a, b => decide (a = b)

namespace Value

def null : Value := .leaf .null

instance : Inhabited Value := ⟨null⟩

def isNull : Value → Bool
  | .leaf .null => true
  | _ => false

/-- The mapping with the given entries; a repeated key keeps its place and takes the last value. -/
def mappingOf (pairs : List (String × Value)) : Value := .mapping (Table.ofList pairs)

/-- The value of an attribute, if this is a mapping that has it. -/
def get? : Value → String → Option Value
  | .mapping entries, key => Table.get? entries key
  | _, _ => none

def keys? : Value → Option (List String)
  | .mapping entries => some (Table.keys entries)
  | _ => none

def items? : Value → Option (List Value)
  | .sequence items => some items
  | _ => none

def string? : Value → Option String
  | .leaf (.string text) => some text
  | _ => none

def integer? : Value → Option Int64
  | .leaf (.integer value) => some value
  | _ => none

mutual

/-- Holds no dual-view and no lazy node. -/
def isPlain : Value → Bool
  | .leaf _ => true
  | .sequence items => itemsPlain items
  | .mapping entries => entriesPlain entries
  | .dual _ _ => false
  | .lazy _ => false
  | .object _ => true

def itemsPlain : List Value → Bool
  | [] => true
  | item :: rest => isPlain item && itemsPlain rest

def entriesPlain : List (String × Value) → Bool
  | [] => true
  | (_, item) :: rest => isPlain item && entriesPlain rest

end

mutual

/-- Equality up to the order of mapping entries at every level: leaves agree, sequences item by
item, mappings if they have the same number of entries and each entry of the first has an agreeing
one under its key. Lazy nodes and objects agree with themselves only. -/
def agrees : Value → Value → Bool
  | .leaf atom, .leaf other => atom.agrees other
  | .sequence items, .sequence others => itemsAgree items others
  | .mapping entries, .mapping others =>
      entries.length == others.length && entriesAgree entries others
  | .dual left right, .dual otherLeft otherRight =>
      agrees left otherLeft && agrees right otherRight
  | .lazy node, .lazy other => node.address == other.address
  | .object node, .object other => node.address == other.address
  | _, _ => false

def itemsAgree : List Value → List Value → Bool
  | [], others => others.isEmpty
  | _ :: _, [] => false
  | item :: rest, other :: others => agrees item other && itemsAgree rest others

def entriesAgree : List (String × Value) → List (String × Value) → Bool
  | [], _ => true
  | (key, item) :: rest, others =>
      (match Table.get? others key with
        | none => false
        | some other => agrees item other) && entriesAgree rest others

end

mutual

/-- No mapping lists a key twice. -/
def DistinctKeys : Value → Prop
  | .leaf _ => True
  | .sequence items => ItemsDistinct items
  | .mapping entries => Table.Distinct entries ∧ EntriesDistinct entries
  | .dual left right => left.DistinctKeys ∧ right.DistinctKeys
  | .lazy _ => True
  | .object _ => True

def ItemsDistinct : List Value → Prop
  | [] => True
  | item :: rest => item.DistinctKeys ∧ ItemsDistinct rest

def EntriesDistinct : List (String × Value) → Prop
  | [] => True
  | (_, item) :: rest => item.DistinctKeys ∧ EntriesDistinct rest

end

mutual

/-- The number of steps on the longest way down. -/
def height : Value → Nat
  | .leaf _ => 0
  | .sequence items => itemsHeight items + 1
  | .mapping entries => entriesHeight entries + 1
  | .dual left right => max left.height right.height + 1
  | .lazy _ => 0
  | .object _ => 0

def itemsHeight : List Value → Nat
  | [] => 0
  | item :: rest => max item.height (itemsHeight rest)

def entriesHeight : List (String × Value) → Nat
  | [] => 0
  | (_, item) :: rest => max item.height (entriesHeight rest)

end

theorem height_le_itemsHeight {item : Value} {items : List Value} (hmem : item ∈ items) :
    item.height ≤ itemsHeight items := by
  induction items with
  | nil => simp at hmem
  | cons head rest ih =>
    rw [itemsHeight]
    rcases List.mem_cons.mp hmem with rfl | htail
    · exact Nat.le_max_left ..
    · exact Nat.le_trans (ih htail) (Nat.le_max_right ..)

theorem height_le_entriesHeight {key : String} {item : Value} {entries : List (String × Value)}
    (hmem : (key, item) ∈ entries) : item.height ≤ entriesHeight entries := by
  induction entries with
  | nil => simp at hmem
  | cons entry rest ih =>
    obtain ⟨head, value⟩ := entry
    rw [entriesHeight]
    rcases List.mem_cons.mp hmem with heq | htail
    · obtain ⟨rfl, rfl⟩ := Prod.mk.inj heq
      exact Nat.le_max_left ..
    · exact Nat.le_trans (ih htail) (Nat.le_max_right ..)

end Value

end TreeProjection
