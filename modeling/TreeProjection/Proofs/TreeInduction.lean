import Mathlib.Tactic.Common
import TreeProjection.Json
import TreeProjection.Proofs.SelectorShape
import TreeProjection.Value

/-!
# Induction over selectors, values and documents

The parts of these trees stand in lists, so induction over them comes with what is known of every
member of those lists, and what is said of a value by recursion is said of every member likewise.
-/

namespace TreeProjection

@[elab_as_elim]
theorem Selector.induction {motive : Selector → Prop}
    (step : ∀ selector, (∀ key child, (key, some child) ∈ selector.entries → motive child) →
      motive selector) : ∀ selector, motive selector
  | ⟨entries⟩ => step ⟨entries⟩ fun _ child _ => Selector.induction step child
termination_by selector => sizeOf selector
decreasing_by exact Selector.sizeOf_child_lt ‹_›

@[elab_as_elim]
theorem Value.induction {motive : Value → Prop} (leaf : ∀ atom, motive (.leaf atom))
    (sequence : ∀ items, (∀ item ∈ items, motive item) → motive (.sequence items))
    (mapping : ∀ entries, (∀ entry ∈ entries, motive entry.2) → motive (.mapping entries))
    (dual : ∀ left right, motive left → motive right → motive (.dual left right))
    (lazy : ∀ node, motive (.lazy node)) (object : ∀ node, motive (.object node)) :
    ∀ value, motive value
  | .leaf atom => leaf atom
  | .sequence items =>
      sequence items fun item _ => Value.induction leaf sequence mapping dual lazy object item
  | .mapping entries =>
      mapping entries fun entry _ => Value.induction leaf sequence mapping dual lazy object entry.2
  | .dual left right =>
      dual left right (Value.induction leaf sequence mapping dual lazy object left)
        (Value.induction leaf sequence mapping dual lazy object right)
  | .lazy node => lazy node
  | .object node => object node
termination_by value => value.height
decreasing_by
  · have := Value.height_le_itemsHeight ‹_ ∈ items›
    rw [Value.height]
    omega
  · have := Value.height_le_entriesHeight ‹_ ∈ entries›
    rw [Value.height]
    omega
  all_goals
    rw [Value.height]
    omega

@[elab_as_elim]
theorem Json.induction {motive : Json → Prop} (null : motive .null)
    (bool : ∀ value, motive (.bool value)) (number : ∀ value, motive (.number value))
    (string : ∀ text, motive (.string text))
    (array : ∀ items, (∀ item ∈ items, motive item) → motive (.array items))
    (object : ∀ members, (∀ member ∈ members, motive member.2) → motive (.object members)) :
    ∀ document, motive document
  | .null => null
  | .bool value => bool value
  | .number value => number value
  | .string text => string text
  | .array items =>
      array items fun item _ => Json.induction null bool number string array object item
  | .object members =>
      object members fun member _ => Json.induction null bool number string array object member.2
decreasing_by
  · have hlt := List.sizeOf_lt_of_mem ‹_ ∈ items›
    rw [Json.array.sizeOf_spec]
    omega
  · obtain ⟨key, item⟩ := member
    have hlt := List.sizeOf_lt_of_mem ‹_ ∈ members›
    rw [Prod.mk.sizeOf_spec] at hlt
    rw [Json.object.sizeOf_spec]
    dsimp only
    omega

/-! ### The members of a value -/

namespace Value

variable {items : List Value} {entries : List (String × Value)}

theorem itemsHeight_le_iff {bound : Nat} :
    itemsHeight items ≤ bound ↔ ∀ item ∈ items, item.height ≤ bound := by
  induction items with
  | nil => simp [itemsHeight]
  | cons item rest ih => rw [itemsHeight, Nat.max_le, ih, List.forall_mem_cons]

theorem entriesHeight_le_iff {bound : Nat} :
    entriesHeight entries ≤ bound ↔ ∀ entry ∈ entries, entry.2.height ≤ bound := by
  induction entries with
  | nil => simp [entriesHeight]
  | cons entry rest ih => rw [entriesHeight, Nat.max_le, ih, List.forall_mem_cons]

theorem itemsDistinct_iff : ItemsDistinct items ↔ ∀ item ∈ items, item.DistinctKeys := by
  induction items with
  | nil => simp [ItemsDistinct]
  | cons item rest ih => rw [ItemsDistinct, ih, List.forall_mem_cons]

theorem entriesDistinct_iff :
    EntriesDistinct entries ↔ ∀ entry ∈ entries, entry.2.DistinctKeys := by
  induction entries with
  | nil => simp [EntriesDistinct]
  | cons entry rest ih => rw [EntriesDistinct, ih, List.forall_mem_cons]

theorem itemsPlain_iff : itemsPlain items = true ↔ ∀ item ∈ items, item.isPlain = true := by
  induction items with
  | nil => simp [itemsPlain]
  | cons item rest ih => rw [itemsPlain, Bool.and_eq_true, ih, List.forall_mem_cons]

theorem entriesPlain_iff :
    entriesPlain entries = true ↔ ∀ entry ∈ entries, entry.2.isPlain = true := by
  induction entries with
  | nil => simp [entriesPlain]
  | cons entry rest ih => rw [entriesPlain, Bool.and_eq_true, ih, List.forall_mem_cons]

/-- What holds of null and of all that a mapping holds, holds of each attribute. -/
theorem item_of_forall {p : Value → Prop} (hnull : p .null)
    (hentries : ∀ entry ∈ entries, p entry.2) (key : String) :
    p ((Table.get? entries key).getD .null) := by
  cases hitem : Table.get? entries key with
  | none => exact hnull
  | some item => exact hentries _ (Table.mem_of_get?_eq_some hitem)

theorem height_item_le (entries : List (String × Value)) (key : String) :
    ((Table.get? entries key).getD .null).height ≤ entriesHeight entries :=
  item_of_forall (p := fun item => item.height ≤ entriesHeight entries) (by simp [null, height])
    (fun _ hentry => height_le_entriesHeight hentry) key

end Value

end TreeProjection
