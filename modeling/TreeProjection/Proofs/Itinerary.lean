import Mathlib.Data.List.Nodup
import Mathlib.Data.List.Sort
import Mathlib.Tactic.Common
import TreeProjection.Proofs.Attributes

/-!
# The places that a projection reaches

If nodes always answer the same, a value together with what its nodes give is one tree, and a
projection reaches places in it: it leads from each place to an ordered list of parts, by rules that
depend on how the place was reached (`Stance.parts`). An itinerary lists the calls that are due at
the places reached, each place once, a place in front of what is below it and parts in their order
(`Itinerary`). The itineraries of the parts make up that of the whole (`Itinerary.node`), and no
place has two of them (`Itinerary.unique`).
-/

namespace TreeProjection

/-- What nodes give, whenever they are asked. -/
structure Answers where
  produced : NodeRef → Value
  plain : NodeRef → Option Value

/-- The nodes of the world give these answers in all of its states, and never fail. -/
structure World.Gives {σ : Type} (world : World σ) (answers : Answers) : Prop where
  produce (node : NodeRef) (state : σ) : (world.produce node state).1 = .ok (answers.produced node)
  convert (node : NodeRef) (state : σ) : (world.convert node state).1 = answers.plain node

/-- Values that end, with all that their nodes give. A plain form that is an object is taken as it
is. No mapping lists a key twice. -/
inductive Answers.Unfolds (answers : Answers) : Value → Prop where
  | leaf (atom : Leaf) : Unfolds answers (.leaf atom)
  | sequence {items : List Value} (hitems : ∀ item ∈ items, Unfolds answers item) :
      Unfolds answers (.sequence items)
  | mapping {entries : List (String × Value)} (hkeys : Table.Distinct entries)
      (hentries : ∀ entry ∈ entries, Unfolds answers entry.2) : Unfolds answers (.mapping entries)
  | dual {left right : Value} (hleft : Unfolds answers left) (hright : Unfolds answers right) :
      Unfolds answers (.dual left right)
  | lazy {node : NodeRef} (hproduced : Unfolds answers (answers.produced node)) :
      Unfolds answers (.lazy node)
  | object {node : NodeRef} (hplain : ∀ plain, answers.plain node = some plain →
      (∀ other, plain ≠ .object other) → Unfolds answers plain) : Unfolds answers (.object node)

/-! ### From a place to its parts -/

/-- How a place is reached. -/
inductive Stance where
  | reached (mode : Mode)
  /-- As the value of an attribute, which is entered item by item if it is a sequence. -/
  | under (mode : Mode)
  /-- As the plain form of an object, which is no further converted. -/
  | plain (selector : Selector)

def Mode.converts : Mode → Bool
  | .select _ => true
  | .summary => false

/-- Whether an object is asked for its plain form. -/
def Stance.converts : Stance → Bool
  | .reached mode | .under mode => mode.converts
  | .plain _ => false

/-- One step down in a value or in what its nodes give. -/
inductive Turn where
  | key (key : String)
  | index (index : Nat)
  | left
  | right
  | produced
  | plain
deriving DecidableEq

structure Part where
  turn : Turn
  stance : Stance
  value : Value

def itemParts (mode : Mode) (items : List Value) : List Part :=
  items.mapIdx fun index item => ⟨.index index, .reached mode, item⟩

def attributePart (entries : List (String × Value)) (picked : String × Option Selector) : Part :=
  ⟨.key picked.1, .under (.ofChild picked.2), (Table.get? entries picked.1).getD .null⟩

namespace Answers

/-- The parts of a value that a selector leads to, if it is no object. -/
def selectedParts (answers : Answers) (selector : Selector) : Value → List Part
  | .leaf _ => []
  | .sequence items => itemParts (.select selector) items
  | .mapping entries =>
      (selector.attributes (Table.keys entries)).map (attributePart entries)
  | .dual _ right => [⟨.right, .reached (.select selector), right⟩]
  | .lazy node => [⟨.produced, .reached (.select selector), answers.produced node⟩]
  | .object _ => []

def summaryParts (answers : Answers) : Value → List Part
  | .dual left _ => [⟨.left, .reached .summary, left⟩]
  | .lazy node => [⟨.produced, .reached .summary, answers.produced node⟩]
  | _ => []

def modeParts (answers : Answers) : Mode → Value → List Part
  | .select selector, .object node =>
      ((answers.plain node).map fun plain => ⟨.plain, .plain selector, plain⟩).toList
  | .select selector, value => answers.selectedParts selector value
  | .summary, value => answers.summaryParts value

/-- The parts to which a projection leads from a place, in order. -/
def parts (answers : Answers) : Stance → Value → List Part
  | .reached mode, value => answers.modeParts mode value
  | .under mode, .sequence items => itemParts mode items
  | .under mode, value => answers.modeParts mode value
  | .plain selector, value => answers.selectedParts selector value

/-- The call that is due at a place: lazy nodes are always asked, objects where a selector goes
on. -/
def call? (answers : Answers) (stance : Stance) : Value → Option Step
  | .lazy node => some (.produced node (.ok (answers.produced node)))
  | .object node => if stance.converts then some (.converted node (answers.plain node)) else none
  | _ => none

end Answers

section Parts

variable {answers : Answers} {part : Part}

theorem map_value_itemParts (mode : Mode) (items : List Value) :
    (itemParts mode items).map Part.value = items := by
  apply List.ext_getElem
  · simp [itemParts]
  · intro index _ _
    simp [itemParts]

theorem mem_itemParts {mode : Mode} {items : List Value} (hpart : part ∈ itemParts mode items) :
    part.stance = .reached mode ∧ part.value ∈ items := by
  obtain ⟨index, hindex, rfl⟩ := List.mem_mapIdx.mp hpart
  exact ⟨rfl, List.getElem_mem hindex⟩

theorem nodup_turn_itemParts (mode : Mode) (items : List Value) :
    ((itemParts mode items).map Part.turn).Nodup := by
  have hturns : (itemParts mode items).map Part.turn =
      (List.range items.length).map Turn.index := by
    apply List.ext_getElem
    · simp [itemParts]
    · intro index _ _
      simp [itemParts]
  rw [hturns]
  exact List.Nodup.map (fun _ _ => Turn.index.inj) List.nodup_range

namespace Answers

theorem parts_leaf (answers : Answers) (stance : Stance) (atom : Leaf) :
    answers.parts stance (.leaf atom) = [] := by
  cases stance with
  | reached mode | under mode => cases mode <;> rfl
  | plain selector => rfl

theorem value_of_mem_parts_sequence {stance : Stance} {items : List Value}
    (hpart : part ∈ answers.parts stance (.sequence items)) : part.value ∈ items := by
  cases stance with
  | reached mode =>
      cases mode with
      | select selector => exact (mem_itemParts hpart).2
      | summary => exact absurd hpart (List.not_mem_nil)
  | under mode => exact (mem_itemParts hpart).2
  | plain selector => exact (mem_itemParts hpart).2

/-- The parts of a mapping are its attributes, and null for those it does not have. -/
theorem value_of_mem_parts_mapping {stance : Stance} {entries : List (String × Value)}
    (hpart : part ∈ answers.parts stance (.mapping entries)) :
    part.value = .null ∨ ∃ entry ∈ entries, part.value = entry.2 := by
  have hselected : ∀ selector, part ∈ answers.selectedParts selector (.mapping entries) →
      part.value = .null ∨ ∃ entry ∈ entries, part.value = entry.2 := by
    intro selector hmem
    obtain ⟨picked, -, rfl⟩ := List.mem_map.mp hmem
    rw [attributePart]
    cases hfound : Table.get? entries picked.1 with
    | none => exact Or.inl rfl
    | some item => exact Or.inr ⟨_, Table.mem_of_get?_eq_some hfound, rfl⟩
  cases stance with
  | reached mode | under mode =>
      cases mode with
      | select selector => exact hselected selector hpart
      | summary => exact absurd hpart (List.not_mem_nil)
  | plain selector => exact hselected selector hpart

theorem value_of_mem_parts_dual {stance : Stance} {left right : Value}
    (hpart : part ∈ answers.parts stance (.dual left right)) :
    part.value = left ∨ part.value = right := by
  cases stance with
  | reached mode | under mode =>
      cases mode with
      | select selector => exact Or.inr (congrArg Part.value (List.mem_singleton.mp hpart))
      | summary => exact Or.inl (congrArg Part.value (List.mem_singleton.mp hpart))
  | plain selector => exact Or.inr (congrArg Part.value (List.mem_singleton.mp hpart))

theorem value_of_mem_parts_lazy {stance : Stance} {node : NodeRef}
    (hpart : part ∈ answers.parts stance (.lazy node)) : part.value = answers.produced node := by
  cases stance with
  | reached mode | under mode =>
      cases mode <;> exact congrArg Part.value (List.mem_singleton.mp hpart)
  | plain selector => exact congrArg Part.value (List.mem_singleton.mp hpart)

theorem mem_parts_object {stance : Stance} {node : NodeRef}
    (hpart : part ∈ answers.parts stance (.object node)) :
    answers.plain node = some part.value ∧ ∃ selector, part.stance = .plain selector := by
  have hselect : ∀ selector, part ∈ answers.modeParts (.select selector) (.object node) →
      answers.plain node = some part.value ∧ ∃ selector, part.stance = .plain selector := by
    intro selector hmem
    obtain ⟨plain, hplain, rfl⟩ := Option.map_eq_some_iff.mp (Option.mem_toList.mp hmem)
    exact ⟨hplain, selector, rfl⟩
  cases stance with
  | reached mode | under mode =>
      cases mode with
      | select selector => exact hselect selector hpart
      | summary => exact absurd hpart (List.not_mem_nil)
  | plain selector => exact absurd hpart (List.not_mem_nil)

end Answers

/-- No selector on the way names a key twice. -/
def Stance.DistinctKeys : Stance → Prop
  | .reached mode | .under mode => mode.DistinctKeys
  | .plain selector => selector.DistinctKeys

theorem Answers.distinctKeys_of_mem_selectedParts {selector : Selector}
    (hselector : selector.DistinctKeys) {value : Value}
    (hpart : part ∈ answers.selectedParts selector value) : part.stance.DistinctKeys := by
  cases value with
  | leaf | object => exact absurd hpart (List.not_mem_nil)
  | sequence items =>
      rw [(mem_itemParts hpart).1]
      exact hselector
  | mapping entries =>
      obtain ⟨picked, hpicked, rfl⟩ := List.mem_map.mp hpart
      exact hselector.ofChild (Selector.mem_attributes_iff.mp hpicked).1
  | dual | lazy =>
      obtain rfl := List.mem_singleton.mp hpart
      exact hselector

theorem Answers.modeParts_select (answers : Answers) (selector : Selector) (value : Value) :
    (∃ node, value = .object node) ∨
      answers.modeParts (.select selector) value = answers.selectedParts selector value := by
  cases value with
  | object node => exact Or.inl ⟨node, rfl⟩
  | _ => exact Or.inr rfl

theorem Answers.distinctKeys_of_mem_modeParts {mode : Mode} (hmode : mode.DistinctKeys)
    {value : Value} (hpart : part ∈ answers.modeParts mode value) : part.stance.DistinctKeys := by
  cases mode with
  | select selector =>
      rcases answers.modeParts_select selector value with ⟨node, rfl⟩ | hselected
      · obtain ⟨plain, -, rfl⟩ := Option.map_eq_some_iff.mp (Option.mem_toList.mp hpart)
        exact hmode
      · exact distinctKeys_of_mem_selectedParts hmode (hselected ▸ hpart)
  | summary =>
      cases value with
      | dual | lazy =>
          obtain rfl := List.mem_singleton.mp hpart
          exact trivial
      | _ => exact absurd hpart (List.not_mem_nil)

theorem Answers.distinctKeys_of_mem_parts {stance : Stance} (hstance : stance.DistinctKeys)
    {value : Value} (hpart : part ∈ answers.parts stance value) : part.stance.DistinctKeys := by
  cases stance with
  | reached mode => exact distinctKeys_of_mem_modeParts hstance hpart
  | plain selector => exact distinctKeys_of_mem_selectedParts hstance hpart
  | under mode =>
      cases value with
      | sequence items =>
          rw [(mem_itemParts hpart).1]
          exact hstance
      | _ => exact distinctKeys_of_mem_modeParts hstance hpart

theorem Answers.nodup_turn_selectedParts {selector : Selector} (hselector : selector.DistinctKeys)
    {value : Value} (hvalue : ∀ entries, value = .mapping entries → Table.Distinct entries) :
    ((answers.selectedParts selector value).map Part.turn).Nodup := by
  cases value with
  | leaf | object => exact List.nodup_nil
  | sequence items => exact nodup_turn_itemParts (.select selector) items
  | mapping entries =>
      have hdistinct : Table.Distinct (selector.attributes (Table.keys entries)) :=
        Selector.distinct_attributes hselector.distinct_entries (hvalue entries rfl)
      have hturns := List.Nodup.map (fun _ _ => Turn.key.inj) hdistinct
      rw [Table.keys, List.map_map] at hturns
      rw [selectedParts, List.map_map]
      exact hturns
  | dual | lazy => exact List.nodup_singleton _

theorem Answers.nodup_turn_modeParts {mode : Mode} (hmode : mode.DistinctKeys)
    {value : Value} (hvalue : ∀ entries, value = .mapping entries → Table.Distinct entries) :
    ((answers.modeParts mode value).map Part.turn).Nodup := by
  cases mode with
  | select selector =>
      rcases answers.modeParts_select selector value with ⟨node, rfl⟩ | hselected
      · rw [modeParts]
        cases answers.plain node <;> simp
      · exact hselected ▸ nodup_turn_selectedParts hmode hvalue
  | summary =>
      cases value with
      | dual | lazy => exact List.nodup_singleton _
      | _ => exact List.nodup_nil

/-- The parts of a place are told apart by the turns that lead to them. -/
theorem Answers.nodup_turn_parts {stance : Stance} (hstance : stance.DistinctKeys)
    {value : Value} (hvalue : ∀ entries, value = .mapping entries → Table.Distinct entries) :
    ((answers.parts stance value).map Part.turn).Nodup := by
  cases stance with
  | reached mode => exact nodup_turn_modeParts hstance hvalue
  | plain selector => exact nodup_turn_selectedParts hstance hvalue
  | under mode =>
      cases value with
      | sequence items => exact nodup_turn_itemParts mode items
      | _ => exact nodup_turn_modeParts hstance hvalue

/-- Induction on what a projection may reach of a value that ends: a property of a place follows
from that of its parts, which are told apart by their turns. -/
theorem Answers.Unfolds.parts_induction {motive : Stance → Value → Prop}
    (hnode : ∀ stance value, ((answers.parts stance value).map Part.turn).Nodup →
      (∀ part ∈ answers.parts stance value, motive part.stance part.value) → motive stance value)
    {value : Value} (hvalue : answers.Unfolds value) {stance : Stance}
    (hstance : stance.DistinctKeys) : motive stance value := by
  have hleaf : ∀ stance atom, motive stance (.leaf atom) := fun stance atom =>
    hnode stance _ (by simp [parts_leaf]) (by simp [parts_leaf])
  induction hvalue generalizing stance with
  | leaf atom => exact hleaf stance atom
  | @sequence items hitems ih =>
      refine hnode _ _ (answers.nodup_turn_parts hstance (by simp)) fun part hpart => ?_
      exact ih _ (value_of_mem_parts_sequence hpart) (distinctKeys_of_mem_parts hstance hpart)
  | @mapping entries hkeys hentries ih =>
      refine hnode _ _ (answers.nodup_turn_parts hstance (by simpa using hkeys)) fun part hpart => ?_
      rcases value_of_mem_parts_mapping hpart with hnull | ⟨entry, hentry, heq⟩
      · rw [hnull]
        exact hleaf part.stance .null
      · rw [heq]
        exact ih entry hentry (distinctKeys_of_mem_parts hstance hpart)
  | @dual left right hleft hright ihLeft ihRight =>
      refine hnode _ _ (answers.nodup_turn_parts hstance (by simp)) fun part hpart => ?_
      have hdistinct := distinctKeys_of_mem_parts hstance hpart
      rcases value_of_mem_parts_dual hpart with heq | heq <;> rw [heq]
      · exact ihLeft hdistinct
      · exact ihRight hdistinct
  | @lazy node hproduced ih =>
      refine hnode _ _ (answers.nodup_turn_parts hstance (by simp)) fun part hpart => ?_
      rw [value_of_mem_parts_lazy hpart]
      exact ih (distinctKeys_of_mem_parts hstance hpart)
  | @object node hplain ih =>
      refine hnode _ _ (answers.nodup_turn_parts hstance (by simp)) fun part hpart => ?_
      have hdistinct := distinctKeys_of_mem_parts hstance hpart
      obtain ⟨hanswer, selector, hplainly⟩ := mem_parts_object hpart
      by_cases hobject : ∃ other, part.value = .object other
      · -- A plain form that is an object is not asked again: it has no parts.
        obtain ⟨other, hother⟩ := hobject
        rw [hplainly, hother]
        exact hnode _ _ List.nodup_nil fun _ hmem => absurd hmem (List.not_mem_nil)
      · exact ih part.value hanswer (fun other hother => hobject ⟨other, hother⟩) hdistinct

end Parts

/-! ### Itineraries -/

abbrev Place : Type := List Turn

abbrev Visit : Type := Place × Step

variable {answers : Answers}

/-- The turns lead from the first place, with its stance and value, to the last. -/
inductive Reaches (answers : Answers) : Stance → Value → Place → Stance → Value → Prop where
  | here (stance : Stance) (value : Value) : Reaches answers stance value [] stance value
  | step {stance last : Stance} {value target : Value} {part : Part} {place : Place}
      (hpart : part ∈ answers.parts stance value)
      (hbelow : Reaches answers part.stance part.value place last target) :
      Reaches answers stance value (part.turn :: place) last target

/-- Depth first: a place comes before whatever is below it, and all that is below a part before
all that is below the parts behind it. -/
inductive Before (answers : Answers) : Stance → Value → Place → Place → Prop where
  | above (stance : Stance) (value : Value) (turn : Turn) (place : Place) :
      Before answers stance value [] (turn :: place)
  | beside {stance : Stance} {value : Value} {part other : Part}
      (hparts : [part, other].Sublist (answers.parts stance value)) (place otherPlace : Place) :
      Before answers stance value (part.turn :: place) (other.turn :: otherPlace)
  | inside {stance : Stance} {value : Value} {part : Part} {place otherPlace : Place}
      (hpart : part ∈ answers.parts stance value)
      (hbelow : Before answers part.stance part.value place otherPlace) :
      Before answers stance value (part.turn :: place) (part.turn :: otherPlace)

/-- The calls that are due at the places reached, each place once and in order. -/
structure Itinerary (answers : Answers) (stance : Stance) (value : Value) (visits : List Visit) :
    Prop where
  mem_iff (place : Place) (call : Step) : (place, call) ∈ visits ↔ ∃ last target,
    Reaches answers stance value place last target ∧ answers.call? last target = some call
  nodup : (visits.map Prod.fst).Nodup
  ordered : visits.Pairwise fun first second => Before answers stance value first.1 second.1

def visitHere (answers : Answers) (stance : Stance) (value : Value) : List Visit :=
  (answers.call? stance value).toList.map fun call => ([], call)

/-- The visits below each part, one part after the other. -/
def visitParts (below : Part → List Visit) (parts : List Part) : List Visit :=
  parts.flatMap fun part => (below part).map fun visit => (part.turn :: visit.1, visit.2)

section Node

variable {stance : Stance} {value : Value} {below : Part → List Visit}

theorem mem_visitHere_iff {place : Place} {call : Step} :
    (place, call) ∈ visitHere answers stance value ↔
      place = [] ∧ answers.call? stance value = some call := by
  rw [visitHere, List.mem_map]
  constructor
  · rintro ⟨other, hother, heq⟩
    obtain ⟨rfl, rfl⟩ := Prod.mk.inj heq
    exact ⟨rfl, Option.mem_toList.mp hother⟩
  · rintro ⟨rfl, hcall⟩
    exact ⟨call, Option.mem_toList.mpr hcall, rfl⟩

theorem mem_visitParts_iff {place : Place} {call : Step} {parts : List Part} :
    (place, call) ∈ visitParts below parts ↔ ∃ part ∈ parts, ∃ rest,
      place = part.turn :: rest ∧ (rest, call) ∈ below part := by
  rw [visitParts, List.mem_flatMap]
  refine exists_congr fun part => and_congr_right fun _ => ?_
  rw [List.mem_map]
  constructor
  · rintro ⟨⟨rest, other⟩, hmem, heq⟩
    obtain ⟨rfl, rfl⟩ := Prod.mk.inj heq
    exact ⟨rest, rfl, hmem⟩
  · rintro ⟨rest, rfl, hmem⟩
    exact ⟨(rest, call), hmem, rfl⟩

theorem nodup_places_visitParts {parts : List Part} (hturns : (parts.map Part.turn).Nodup)
    (hbelow : ∀ part ∈ parts, ((below part).map Prod.fst).Nodup) :
    ((visitParts below parts).map Prod.fst).Nodup := by
  induction parts with
  | nil => exact List.nodup_nil
  | cons part rest ih =>
      rw [List.map_cons, List.nodup_cons] at hturns
      obtain ⟨hpart, hrest⟩ := List.forall_mem_cons.mp hbelow
      rw [visitParts, List.flatMap_cons, ← visitParts, List.map_append, List.nodup_append]
      refine ⟨?_, ih hturns.2 hrest, ?_⟩
      · have hplaces : (((below part).map Prod.fst).map (part.turn :: ·)).Nodup :=
          List.Nodup.map (List.cons_injective) hpart
        rw [List.map_map] at hplaces ⊢
        exact hplaces
      · intro place hhere other hothers heq
        obtain ⟨visit, hvisit, rfl⟩ := List.mem_map.mp hhere
        obtain ⟨inner, -, rfl⟩ := List.mem_map.mp hvisit
        obtain ⟨⟨there, call⟩, hthere, rfl⟩ := List.mem_map.mp hothers
        obtain ⟨sibling, hsibling, below, rfl, -⟩ := mem_visitParts_iff.mp hthere
        have hturn : part.turn = sibling.turn := (List.cons.inj heq).1
        exact hturns.1 (hturn ▸ List.mem_map_of_mem hsibling)

/-- The call that is due at a place, and then the itineraries of its parts. -/
theorem Itinerary.node (hturns : ((answers.parts stance value).map Part.turn).Nodup)
    (hbelow : ∀ part ∈ answers.parts stance value,
      Itinerary answers part.stance part.value (below part)) :
    Itinerary answers stance value
      (visitHere answers stance value ++ visitParts below (answers.parts stance value)) := by
  refine ⟨fun place call => ?_, ?_, ?_⟩
  · rw [List.mem_append, mem_visitHere_iff, mem_visitParts_iff]
    constructor
    · rintro (⟨rfl, hcall⟩ | ⟨part, hpart, rest, rfl, hmem⟩)
      · exact ⟨stance, value, .here stance value, hcall⟩
      · obtain ⟨last, target, hreaches, hcall⟩ := ((hbelow part hpart).mem_iff rest call).mp hmem
        exact ⟨last, target, .step hpart hreaches, hcall⟩
    · rintro ⟨last, target, hreaches, hcall⟩
      cases hreaches with
      | here => exact Or.inl ⟨rfl, hcall⟩
      | @step _ _ _ _ part rest hpart hrest =>
          have hmem := ((hbelow part hpart).mem_iff rest call).mpr ⟨last, target, hrest, hcall⟩
          exact Or.inr ⟨part, hpart, rest, rfl, hmem⟩
  · rw [List.map_append, List.nodup_append]
    refine ⟨?_, nodup_places_visitParts hturns fun part hpart => (hbelow part hpart).nodup, ?_⟩
    · rw [visitHere]
      cases answers.call? stance value <;> simp
    · intro place hhere other hparts heq
      obtain ⟨⟨here, call⟩, hmem, rfl⟩ := List.mem_map.mp hhere
      obtain ⟨⟨there, otherCall⟩, hother, rfl⟩ := List.mem_map.mp hparts
      obtain ⟨part, -, rest, hthere, -⟩ := mem_visitParts_iff.mp hother
      obtain ⟨hnil, -⟩ := mem_visitHere_iff.mp hmem
      exact List.cons_ne_nil part.turn rest (hthere.symm.trans (heq.symm.trans hnil))
  · rw [List.pairwise_append]
    refine ⟨?_, ?_, ?_⟩
    · rw [visitHere]
      cases answers.call? stance value <;> simp
    · rw [visitParts, List.pairwise_flatMap]
      refine ⟨fun part hpart => ?_, ?_⟩
      · rw [List.pairwise_map]
        exact (hbelow part hpart).ordered.imp fun hbefore => .inside hpart hbefore
      · rw [List.pairwise_iff_forall_sublist]
        intro part other hparts first hfirst second hsecond
        obtain ⟨visit, -, rfl⟩ := List.mem_map.mp hfirst
        obtain ⟨otherVisit, -, rfl⟩ := List.mem_map.mp hsecond
        exact .beside hparts _ _
    · rintro ⟨place, call⟩ hhere ⟨otherPlace, other⟩ hparts
      obtain ⟨rfl, -⟩ := mem_visitHere_iff.mp hhere
      obtain ⟨part, -, rest, rfl, -⟩ := mem_visitParts_iff.mp hparts
      exact .above stance value part.turn rest

end Node

section Unique

theorem not_sublist_swap {α : Type} {first second : α} {list : List α} (hlist : list.Nodup)
    (hsublist : [first, second].Sublist list) : ¬[second, first].Sublist list := by
  induction list with
  | nil => exact nofun
  | cons head rest ih =>
      obtain ⟨hhead, hrest⟩ := List.nodup_cons.mp hlist
      intro hswapped
      cases hsublist with
      | cons _ hbelow =>
          cases hswapped with
          | cons _ hother => exact ih hrest hbelow hother
          | cons_cons _ hother => exact hhead (hbelow.subset (by simp))
      | cons_cons _ hbelow =>
          cases hswapped with
          | cons _ hother => exact hhead (hother.subset (by simp))
          | cons_cons _ hother => exact hhead (hbelow.subset (by simp))

theorem Before.eq_cons {stance : Stance} {value : Value} {place other : Place}
    (hbefore : Before answers stance value place other) : ∃ turn rest, other = turn :: rest ∧
      (place = [] ∨ ∃ part ∈ answers.parts stance value, ∃ start, place = part.turn :: start ∧
        ((∃ sibling, sibling.turn = turn ∧ [part, sibling].Sublist (answers.parts stance value)) ∨
          part.turn = turn ∧ Before answers part.stance part.value start rest)) := by
  cases hbefore with
  | @above _ _ turn rest => exact ⟨turn, rest, rfl, Or.inl rfl⟩
  | @beside _ _ part sibling hparts start rest =>
      have hpart : part ∈ answers.parts stance value := hparts.subset (List.mem_cons_self ..)
      exact ⟨_, rest, rfl, Or.inr ⟨part, hpart, start, rfl, Or.inl ⟨sibling, rfl, hparts⟩⟩⟩
  | @inside _ _ part start rest hpart hbelow =>
      exact ⟨_, rest, rfl, Or.inr ⟨part, hpart, start, rfl, Or.inr ⟨rfl, hbelow⟩⟩⟩

theorem Before.asymm_of_parts {stance : Stance} {value : Value}
    (hturns : ((answers.parts stance value).map Part.turn).Nodup)
    (hparts : ∀ part ∈ answers.parts stance value, ∀ place other,
      Before answers part.stance part.value place other →
        ¬Before answers part.stance part.value other place)
    (place other : Place) (hbefore : Before answers stance value place other) :
    ¬Before answers stance value other place := by
  have hrow : ∀ {part sibling : Part}, [part, sibling].Sublist (answers.parts stance value) →
      [part.turn, sibling.turn].Sublist ((answers.parts stance value).map Part.turn) :=
    fun hsublist => hsublist.map Part.turn
  have hdiffer : ∀ {part sibling : Part}, [part, sibling].Sublist (answers.parts stance value) →
      part.turn ≠ sibling.turn := fun hsublist => by simpa using hturns.sublist (hrow hsublist)
  intro hafter
  obtain ⟨turn, rest, rfl, hempty | ⟨part, hpart, start, rfl, hhere⟩⟩ := hbefore.eq_cons
  · obtain ⟨_, _, hcons, -⟩ := hafter.eq_cons
    exact List.cons_ne_nil _ _ (hcons.symm.trans hempty)
  obtain ⟨_, _, hplace, hempty | ⟨later, hlater, _, hother, hthere⟩⟩ := hafter.eq_cons
  · exact List.cons_ne_nil _ _ hempty
  obtain ⟨rfl, rfl⟩ := List.cons.inj hplace
  obtain ⟨rfl, rfl⟩ := List.cons.inj hother
  rcases hhere with ⟨sibling, hsibling, hfirst⟩ | ⟨hsame, hbelow⟩
  · rcases hthere with ⟨last, hlast, hsecond⟩ | ⟨hsame, -⟩
    · have hswapped := hrow hsecond
      rw [hlast, ← hsibling] at hswapped
      exact not_sublist_swap hturns (hrow hfirst) hswapped
    · exact hdiffer hfirst (hsame.symm.trans hsibling.symm)
  · obtain rfl : part = later := List.inj_on_of_nodup_map hturns hpart hlater hsame
    rcases hthere with ⟨sibling, hsibling, hsecond⟩ | ⟨-, habove⟩
    · exact hdiffer hsecond hsibling.symm
    · exact hparts part hpart _ _ hbelow habove

theorem Before.asymm {value : Value} (hvalue : answers.Unfolds value) {stance : Stance}
    (hstance : stance.DistinctKeys) : ∀ place other, Before answers stance value place other →
      ¬Before answers stance value other place :=
  Answers.Unfolds.parts_induction
    (motive := fun stance value => ∀ place other, Before answers stance value place other →
      ¬Before answers stance value other place)
    (fun _ _ hturns => Before.asymm_of_parts hturns) hvalue hstance

/-- A place has one itinerary at most. -/
theorem Itinerary.unique {value : Value} (hvalue : answers.Unfolds value) {stance : Stance}
    (hstance : stance.DistinctKeys) {visits others : List Visit}
    (hvisits : Itinerary answers stance value visits)
    (hothers : Itinerary answers stance value others) : visits = others := by
  let order : Visit → Visit → Prop := fun first second =>
    Before answers stance value first.1 second.1
  have horder : Std.Asymm order := ⟨fun _ _ => Before.asymm hvalue hstance _ _⟩
  refine List.Pairwise.eq_of_mem_iff (r := order) hvisits.ordered hothers.ordered fun visit => ?_
  exact (hvisits.mem_iff visit.1 visit.2).trans (hothers.mem_iff visit.1 visit.2).symm

end Unique

end TreeProjection
