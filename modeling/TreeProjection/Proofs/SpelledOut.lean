import Mathlib.Tactic.Common
import TreeProjection.Projection
import TreeProjection.Proofs.TreeInduction

/-!
# Projecting what is spelled out

In a value without dual-view nodes, lazy nodes and objects there is nothing to ask a world for.
Projecting it comes to an end in every world, leaves the world as it is and reports nothing
(`project_spelledOut`); what comes out is a function of the mode and the value alone, `Mode.keep`.
-/

namespace TreeProjection

/-- Holds neither dual-view nodes nor lazy nodes nor objects. -/
inductive Value.SpelledOut : Value → Prop where
  | leaf (atom : Leaf) : SpelledOut (.leaf atom)
  | sequence {items : List Value} (hitems : ∀ item ∈ items, SpelledOut item) :
      SpelledOut (.sequence items)
  | mapping {entries : List (String × Value)} (hentries : ∀ entry ∈ entries, SpelledOut entry.2) :
      SpelledOut (.mapping entries)

/-- What a mode keeps of a value that is spelled out. -/
def Mode.keep : Mode → Value → Value
  | .select selector, .sequence items => .sequence (items.map (keep (.select selector)))
  | .select selector, .mapping entries =>
      .mapping ((selector.attributes (Table.keys entries)).map fun entry =>
        (entry.1, match _ : Table.get? entries entry.1 with
          | some item => keep (.ofChild entry.2) item
          | none => .null))
  | _, value => value
termination_by _ value => value.height
decreasing_by
  · have := Value.height_le_itemsHeight ‹_ ∈ items›
    rw [Value.height]
    omega
  · have := Value.height_le_entriesHeight (Table.mem_of_get?_eq_some ‹_›)
    rw [Value.height]
    omega

namespace Mode

@[simp]
theorem keep_summary (value : Value) : Mode.summary.keep value = value := by
  simp [keep]

@[simp]
theorem keep_leaf (mode : Mode) (atom : Leaf) : mode.keep (.leaf atom) = .leaf atom := by
  simp [keep]

theorem keep_sequence (mode : Mode) (items : List Value) :
    mode.keep (.sequence items) = .sequence (items.map mode.keep) := by
  cases mode with
  | select selector => rw [keep]
  | summary => simp [funext keep_summary]

theorem keep_mapping (selector : Selector) (entries : List (String × Value)) :
    (Mode.select selector).keep (.mapping entries) =
      .mapping ((selector.attributes (Table.keys entries)).map fun entry =>
        (entry.1, (Mode.ofChild entry.2).keep
          ((Table.get? entries entry.1).getD .null))) := by
  rw [keep]
  congr 2
  funext entry
  congr 1
  split
  · rename_i item hitem
    rw [hitem, Option.getD_some]
  · rename_i hitem
    rw [hitem, Option.getD_none, Value.null, keep_leaf]

end Mode

namespace Eval

variable {σ ε α β : Type}

theorem forEach_eq_pure {f : α → Eval σ ε β} {g : α → β} {items : List α}
    (hitems : ∀ item ∈ items, f item = Pure.pure (g item)) :
    forEach f items = Pure.pure (items.map g) := by
  induction items with
  | nil => rfl
  | cons item rest ih =>
      have hrest : forEach f rest = Pure.pure (rest.map g) :=
        ih fun other hother => hitems other (List.mem_cons_of_mem _ hother)
      rw [forEach, hitems item (List.mem_cons_self ..), pure_bind, hrest, pure_bind, List.map_cons]

end Eval

variable {σ : Type} {world : World σ}

theorem Value.SpelledOut.unwrapObject_eq {value : Value} (hvalue : value.SpelledOut) :
    unwrapObject world value = (pure value : Eval σ Failure Value) := by
  cases hvalue <;> rfl

/-- The items of a sequence under an attribute go one by one, which makes no difference here. -/
theorem projectAttribute_eq_pure {again : Value → Eval σ Failure Value} {mode : Mode}
    {item : Value} (hitem : again item = pure (mode.keep item))
    (hitems : ∀ items, item = .sequence items →
      ∀ part ∈ items, again part = pure (mode.keep part)) :
    projectAttribute again item = pure (mode.keep item) := by
  cases item with
  | sequence items =>
      rw [projectAttribute, Eval.forEach_eq_pure (hitems items rfl), Eval.pure_bind,
        Mode.keep_sequence]
  | _ => exact hitem

/-- A value that is spelled out is projected to what the mode keeps of it, in every world and
without a trace. -/
theorem project_spelledOut {fuel : Nat} {mode : Mode} {value : Value} (hvalue : value.SpelledOut)
    (hfuel : value.height < fuel) : project world fuel mode value = pure (mode.keep value) := by
  induction fuel generalizing mode value with
  | zero => exact absurd hfuel (Nat.not_lt_zero _)
  | succ fuel ih =>
      cases mode with
      | summary =>
          rw [Mode.keep_summary]
          cases hvalue <;> rfl
      | select selector =>
          rw [project, projectStep, hvalue.unwrapObject_eq, Eval.pure_bind]
          cases hvalue with
          | leaf atom => rw [selectStep, Mode.keep_leaf]
          | sequence hitems =>
              rename_i items
              have hparts : ∀ item ∈ items, project world fuel (.select selector) item =
                  pure ((Mode.select selector).keep item) := by
                intro item hmem
                have hheight := Value.height_le_itemsHeight hmem
                rw [Value.height] at hfuel
                exact ih (hitems item hmem) (by omega)
              rw [selectStep, Eval.forEach_eq_pure hparts, Eval.pure_bind, Mode.keep_sequence]
          | mapping hentries =>
              rename_i entries
              rw [Value.height] at hfuel
              have hentry : ∀ entry ∈ selector.attributes (Table.keys entries),
                  projectAttribute (project world fuel (.ofChild entry.2))
                      ((Table.get? entries entry.1).getD .null) =
                    pure ((Mode.ofChild entry.2).keep
                      ((Table.get? entries entry.1).getD .null)) := by
                intro entry _
                have hspelled := Value.item_of_forall (.leaf .null) hentries entry.1
                have hheight := Value.height_item_le entries entry.1
                refine projectAttribute_eq_pure (ih hspelled (by omega)) ?_
                intro items hsequence part hpart
                rw [hsequence] at hspelled hheight
                rw [Value.height] at hheight
                have hpartHeight := Value.height_le_itemsHeight hpart
                cases hspelled with
                | sequence hitems => exact ih (hitems part hpart) (by omega)
              rw [selectStep, projectEntries, Mode.keep_mapping, Eval.forEach_eq_pure,
                Eval.pure_bind]
              intro entry hmem
              change projectAttribute (project world fuel (.ofChild entry.2)) _ >>= _ = _
              rw [hentry entry hmem, Eval.pure_bind]

end TreeProjection
