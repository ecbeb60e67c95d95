import TreeProjection.Evaluation

/-!
# Scripted nodes

A store holds lazy nodes and objects that follow a script: the first call of a node gives its first
outcome, the second call the second, and so on, the last outcome repeating. An outcome is a template
that is built anew at each call, with fresh nodes in it; a template can also name a value of the
store's table, so that nodes may lead back to values in which they stand themselves.

`Store.world` is the world of such nodes.
-/

namespace TreeProjection

inductive Template where
  /-- A value that is there already. -/
  | ready (value : Value)
  | sequence (items : List Template)
  | mapping (entries : List (String × Template))
  | dual (left right : Template)
  | lazy (label : String) (outcomes : List (Except Failure Template))
  | object (label : String) (outcomes : List (Option Template))
  /-- The value of the table with this name. -/
  | named (name : String)
  /-- A form that stands for no value. -/
  | unknown (form : String)

instance : Inhabited Template := ⟨.ready .null⟩

inductive Script where
  | lazy (outcomes : List (Except Failure Template))
  | object (outcomes : List (Option Template))

structure ScriptedNode where
  script : Script
  calls : Nat

inductive BuildFault where
  | unknownName (name : String)
  | unknownForm (form : String)
deriving DecidableEq

/-- The nodes, addressed by their index; the named values; and the first fault met while building,
if there was one. -/
structure Store where
  nodes : Array ScriptedNode
  values : Table Value
  fault : Option BuildFault

namespace Store

def empty : Store := ⟨#[], [], none⟩

/-- The reference that the next new node gets. -/
def nextRef (store : Store) (label : String) : NodeRef := ⟨store.nodes.size, label⟩

def addNode (store : Store) (script : Script) : Store :=
  { store with nodes := store.nodes.push ⟨script, 0⟩ }

def save (store : Store) (name : String) (value : Value) : Store :=
  { store with values := Table.insert store.values name value }

/-- Notes a fault, if it is the first one. -/
def blame (store : Store) (fault : BuildFault) : Store :=
  { store with fault := store.fault.or (some fault) }

def countCall (store : Store) (node : NodeRef) : Store :=
  { store with nodes := store.nodes.modify node.address fun scripted =>
      { scripted with calls := scripted.calls + 1 } }

end Store

mutual

def Template.build : Template → Store → Value × Store
  | .ready value, store => (value, store)
  | .sequence items, store =>
      let (values, after) := Template.buildItems items store
      (.sequence values, after)
  | .mapping entries, store =>
      let (pairs, after) := Template.buildEntries entries store
      (Value.mappingOf pairs, after)
  | .dual left right, store =>
      let (leftValue, between) := left.build store
      let (rightValue, after) := right.build between
      (.dual leftValue rightValue, after)
  | .lazy label outcomes, store => (.lazy (store.nextRef label), store.addNode (.lazy outcomes))
  | .object label outcomes, store =>
      (.object (store.nextRef label), store.addNode (.object outcomes))
  | .named name, store =>
      match Table.get? store.values name with
      | some value => (value, store)
      | none => (.null, store.blame (.unknownName name))
  | .unknown form, store => (.null, store.blame (.unknownForm form))

def Template.buildItems : List Template → Store → List Value × Store
  | [], store => ([], store)
  | item :: rest, store =>
      let (value, between) := item.build store
      let (values, after) := Template.buildItems rest between
      (value :: values, after)

def Template.buildEntries : List (String × Template) → Store → List (String × Value) × Store
  | [], store => ([], store)
  | (key, item) :: rest, store =>
      let (value, between) := item.build store
      let (pairs, after) := Template.buildEntries rest between
      ((key, value) :: pairs, after)

end

/-- The outcome of a call after a number of earlier calls; the last one repeats. -/
def Script.outcome? {α : Type} (outcomes : List α) (calls : Nat) : Option α :=
  outcomes[min calls (outcomes.length - 1)]?

namespace Store

def produce (node : NodeRef) (store : Store) : Except Failure Value × Store :=
  match store.nodes[node.address]? with
  | some ⟨.lazy outcomes, calls⟩ =>
      match Script.outcome? outcomes calls with
      | some (.ok template) =>
          let (value, after) := template.build (store.countCall node)
          (.ok value, after)
      | some (.error failure) => (.error failure, store.countCall node)
      | none => (.error ⟨"no outcome"⟩, store.countCall node)
  | _ => (.error ⟨"no such node"⟩, store)

/-- Converts an object. An object without outcomes has no plain form. -/
def convert (node : NodeRef) (store : Store) : Option Value × Store :=
  match store.nodes[node.address]? with
  | some ⟨.object outcomes, calls⟩ =>
      match Script.outcome? outcomes calls with
      | some (some template) =>
          let (value, after) := template.build (store.countCall node)
          (some value, after)
      | _ => (none, store.countCall node)
  | _ => (none, store)

def world : World Store := ⟨produce, convert⟩

end Store

end TreeProjection
