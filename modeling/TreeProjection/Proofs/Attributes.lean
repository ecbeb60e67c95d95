import Mathlib.Data.Option.Defs
import Mathlib.Tactic.Common
import TreeProjection.Projection
import TreeProjection.Proofs.SelectorShape

/-!
# The attributes that a selector picks

A selector picks an attribute that it names, with the child that it nests there, and picks bare
whatever its wildcard admits; the key `*` it never picks. What it keeps of a mapping are the
attributes that it picks, as far as it names them itself or the mapping has them
(`mem_attributes_iff`); keys that it does not admit make no difference (`attributes_filter_admits`).
-/

namespace TreeProjection

namespace Selector

/-- The attribute is named with the child, or admitted by the wildcard. -/
def Picks (selector : Selector) (key : String) (child : Option Selector) : Prop :=
  key ≠ wildcard ∧ ((key, child) ∈ selector.entries ∨
    child = none ∧ selector.hasWildcard = true ∧ selector.contains key = false)

def admits (selector : Selector) (key : String) : Bool :=
  key ≠ wildcard && (selector.contains key || selector.hasWildcard)

variable {selector : Selector} {key : String} {child : Option Selector}

theorem contains_of_mem_entries (hmem : (key, child) ∈ selector.entries) :
    selector.contains key = true :=
  Table.contains_iff_mem_keys.mpr (Table.mem_keys_of_mem hmem)

theorem contains_of_perm {other : Selector} (hkeys : selector.keys.Perm other.keys) :
    selector.contains = other.contains := by
  funext key
  rw [Bool.eq_iff_iff, contains, contains, Table.contains_iff_mem_keys,
    Table.contains_iff_mem_keys]
  exact hkeys.mem_iff

theorem Picks.admits (hpicks : selector.Picks key child) : selector.admits key = true := by
  obtain ⟨hstar, hnamed | ⟨-, hwild, -⟩⟩ := hpicks
  · simp [Selector.admits, hstar, contains_of_mem_entries hnamed]
  · simp [Selector.admits, hstar, hwild]

theorem mem_named_iff :
    (key, child) ∈ selector.named ↔ (key, child) ∈ selector.entries ∧ key ≠ wildcard := by
  simp [named]

theorem mem_admitted_iff {present : List String} :
    (key, child) ∈ selector.admitted present ↔ child = none ∧ selector.hasWildcard = true ∧
      key ∈ present ∧ key ≠ wildcard ∧ selector.contains key = false := by
  rw [admitted]
  by_cases hwild : selector.hasWildcard = true
  · rw [if_pos hwild, List.mem_map]
    constructor
    · rintro ⟨other, hother, heq⟩
      obtain ⟨rfl, rfl⟩ := Prod.mk.inj heq
      simpa [hwild] using hother
    · rintro ⟨rfl, -, hpresent, hstar, hnew⟩
      exact ⟨key, by simp [hpresent, hstar, hnew], rfl⟩
  · simp [hwild]

/-- The attributes of a mapping are those that are named, and the keys of the mapping that the
wildcard admits. -/
theorem mem_attributes_iff {present : List String} :
    (key, child) ∈ selector.attributes present ↔ selector.Picks key child ∧
      (selector.contains key = true ∨ key ∈ present) := by
  rw [attributes, List.mem_append, mem_named_iff, mem_admitted_iff, Picks]
  constructor
  · rintro (⟨hmem, hstar⟩ | ⟨hchild, hwild, hpresent, hstar, hnew⟩)
    · exact ⟨⟨hstar, Or.inl hmem⟩, Or.inl (contains_of_mem_entries hmem)⟩
    · exact ⟨⟨hstar, Or.inr ⟨hchild, hwild, hnew⟩⟩, Or.inr hpresent⟩
  · rintro ⟨⟨hstar, hmem | ⟨hchild, hwild, hnew⟩⟩, hpresent⟩
    · exact Or.inl ⟨hmem, hstar⟩
    · have hlisted : key ∈ present := hpresent.resolve_left (by simp [hnew])
      exact Or.inr ⟨hchild, hwild, hlisted, hstar, hnew⟩

/-- No attribute is kept twice. -/
theorem distinct_attributes (hselector : Table.Distinct selector.entries) {present : List String}
    (hpresent : present.Nodup) : Table.Distinct (selector.attributes present) := by
  rw [Table.Distinct, Table.keys, attributes, List.map_append, List.nodup_append]
  refine ⟨hselector.sublist (List.filter_sublist.map Prod.fst), ?_, ?_⟩
  · rw [admitted]
    by_cases hwild : selector.hasWildcard = true
    · rw [if_pos hwild, List.map_map]
      exact (List.map_id _).symm ▸ hpresent.filter _
    · rw [if_neg hwild]
      exact List.nodup_nil
  · rintro key hnamed other hadmitted rfl
    obtain ⟨⟨_, child⟩, hentry, rfl⟩ := List.mem_map.mp hnamed
    obtain ⟨⟨_, bare⟩, hbare, hkey⟩ := List.mem_map.mp hadmitted
    obtain rfl : _ = _ := hkey
    obtain ⟨-, -, -, -, hnew⟩ := mem_admitted_iff.mp hbare
    have hlisted := contains_of_mem_entries (mem_named_iff.mp hentry).1
    exact absurd hlisted (by simp [hnew])

/-- An attribute that is kept is found with the child that it is kept with. -/
theorem get?_attributes_of_mem (hselector : Table.Distinct selector.entries) {present : List String}
    (hmem : (key, child) ∈ selector.attributes present) :
    Table.get? (selector.attributes present) key = some child := by
  obtain ⟨⟨hstar, hpicked⟩, hpresent⟩ := mem_attributes_iff.mp hmem
  have hnamed : Table.get? selector.named key = Table.get? selector.entries key := by
    have hfilter := Table.get?_filter selector.entries (fun key => key ≠ wildcard) key
    rwa [if_pos (by simpa using hstar)] at hfilter
  rw [attributes, Table.get?_append, hnamed]
  rcases hpicked with hentry | ⟨rfl, hwild, hnew⟩
  · rw [hselector.get?_eq_some hentry, Option.some_or]
  · have hnone : Table.get? selector.entries key = none := by
      simpa [contains, Table.contains] using hnew
    have hlisted : key ∈ present := hpresent.resolve_left (by simp [hnew])
    rw [hnone, Option.none_or, admitted, if_pos hwild, Table.get?_uniform]
    simp [hlisted, hstar, hnew]

theorem filter_keys_named (selector : Selector) : (Table.keys selector.named).filter
    (fun key => key ≠ wildcard ∧ ¬selector.contains key) = [] := by
  rw [List.filter_eq_nil_iff]
  intro key hkey
  obtain ⟨⟨_, child⟩, hentry, rfl⟩ := List.mem_map.mp hkey
  simp [contains_of_mem_entries (mem_named_iff.mp hentry).1]

/-- Of a mapping with the named keys and further ones that the wildcard admits, all keys are
kept. -/
theorem keys_attributes_named_append {further : List String}
    (hwildcard : further ≠ [] → selector.hasWildcard = true)
    (hfurther : ∀ key ∈ further, key ≠ wildcard ∧ selector.contains key = false) :
    Table.keys (selector.attributes (Table.keys selector.named ++ further)) =
      Table.keys selector.named ++ further := by
  rw [attributes, Table.keys_append, admitted]
  congr 1
  by_cases hwild : selector.hasWildcard = true
  · have hall : further.filter (fun key => key ≠ wildcard ∧ ¬selector.contains key) = further := by
      rw [List.filter_eq_self]
      intro key hkey
      obtain ⟨hstar, hnew⟩ := hfurther key hkey
      simp [hstar, hnew]
    rw [if_pos hwild, List.filter_append, filter_keys_named, hall, List.nil_append]
    simp [Table.keys, Function.comp_def]
  · have hnone : further = [] := by
      by_contra hsome
      exact hwild (hwildcard hsome)
    rw [if_neg hwild, hnone, Table.keys_nil]

/-- What is kept of the attributes that are kept are these again. -/
theorem attributes_keys_attributes (selector : Selector) (present : List String) :
    selector.attributes (Table.keys (selector.attributes present)) =
      selector.attributes present := by
  rw [attributes, attributes]
  congr 1
  rw [admitted, admitted]
  by_cases hwild : selector.hasWildcard = true
  · have hkeys : Table.keys ((present.filter fun key => key ≠ wildcard ∧
        ¬selector.contains key).map fun key => (key, (none : Option Selector))) =
        present.filter fun key => key ≠ wildcard ∧ ¬selector.contains key := by
      simp [Table.keys, Function.comp_def]
    rw [if_pos hwild, if_pos hwild, Table.keys_append, List.filter_append, filter_keys_named, hkeys,
      List.nil_append, List.filter_filter]
    simp
  · rw [if_neg hwild, if_neg hwild]

theorem attributes_filter_admits (selector : Selector) (present : List String) :
    selector.attributes (present.filter selector.admits) = selector.attributes present := by
  rw [attributes, attributes, admitted, admitted]
  by_cases hwild : selector.hasWildcard = true
  · rw [if_pos hwild, if_pos hwild, List.filter_filter]
    congr 2
    refine List.filter_congr fun key _ => ?_
    by_cases hstar : key = wildcard <;> simp [Selector.admits, hstar, hwild]
  · rw [if_neg hwild, if_neg hwild]

/-! ### Children -/

/-- What is nested below a key, if anything is. -/
def child? (selector : Selector) (key : String) : Option Selector := (selector.get? key).join

theorem Picks.child?_eq (hpicks : selector.Picks key child)
    (hselector : Table.Distinct selector.entries) : selector.child? key = child := by
  obtain ⟨-, hnamed | ⟨rfl, -, hunnamed⟩⟩ := hpicks
  · rw [child?, get?, hselector.get?_eq_some hnamed, Option.join_some]
  · have hnone : Table.get? selector.entries key = none := by
      simpa [contains, Table.contains] using hunnamed
    rw [child?, get?, hnone, Option.join_none]

/-- The same key, with children that are both missing or related. -/
def EntryRel (R : Selector → Selector → Prop) (entry other : String × Option Selector) : Prop :=
  other.1 = entry.1 ∧ Option.Rel R entry.2 other.2

end Selector

def Mode.DistinctKeys : Mode → Prop
  | .select selector => selector.DistinctKeys
  | .summary => True

namespace Selector.DistinctKeys

variable {selector : Selector} (hselector : selector.DistinctKeys)
include hselector

theorem distinct_entries : Table.Distinct selector.entries := by
  obtain ⟨entries⟩ := selector
  exact (Selector.distinctKeys_iff.mp hselector).1

theorem ofChild {key : String} {child : Option Selector} (hpicks : selector.Picks key child) :
    (Mode.ofChild child).DistinctKeys := by
  cases child with
  | none => exact trivial
  | some child =>
      obtain ⟨entries⟩ := selector
      obtain ⟨-, hnamed | ⟨hbare, -⟩⟩ := hpicks
      · exact (Selector.distinctKeys_iff.mp hselector).2 key child hnamed
      · exact absurd hbare (by simp)

end Selector.DistinctKeys

end TreeProjection
