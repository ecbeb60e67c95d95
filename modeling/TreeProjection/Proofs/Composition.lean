import Mathlib.Tactic.Common
import TreeProjection.Projection

/-!
# What projections are made of

A projection is put together from a few parts: results, view reports, conversions and evaluations of
lazy nodes, one after the other. Whatever holds of these parts and is kept by `bind` holds of every
projection, whatever the world, the mode and the value (`Composable.project`).
-/

namespace TreeProjection

variable {σ ε α β : Type}

/-- A run of one computation after another either is that of the first, which failed, or continues
it. -/
theorem Eval.bind_eq_some {first : Eval σ ε α} {next : α → Eval σ ε β} {state : σ}
    {run : Run σ ε β} (hrun : (first >>= next) state = some run) :
    (∃ error, run.outcome = .error error ∧
        first state = some ⟨.error error, run.state, run.trace⟩) ∨
      ∃ result after trace rest, first state = some ⟨.ok result, after, trace⟩ ∧
        next result after = some rest ∧ run = { rest with trace := trace ++ rest.trace } := by
  change Eval.bind first next state = some run at hrun
  rw [Eval.bind] at hrun
  split at hrun
  · exact absurd hrun (by simp)
  · rename_i error after trace hfirst
    obtain rfl := Option.some.inj hrun
    exact Or.inl ⟨error, rfl, hfirst⟩
  · rename_i result after trace hfirst
    split at hrun
    · exact absurd hrun (by simp)
    · rename_i rest hnext
      exact Or.inr ⟨result, after, trace, rest, hfirst, hnext, (Option.some.inj hrun).symm⟩

section Evaluate

variable {world : World σ} {node : NodeRef} {state after : σ}

theorem evaluate_of_ok {value : Value} (hanswer : world.produce node state = (.ok value, after)) :
    evaluate world node state =
      some ⟨.ok value, after, [.logged .evaluating, .produced node (.ok value)]⟩ := by
  change Eval.bind (Eval.log .evaluating) (fun _ => Eval.bind (Eval.produce world node) _) state = _
  simp only [Eval.bind, Eval.log, Eval.produce, hanswer]
  rfl

theorem evaluate_of_error {failure : Failure}
    (hanswer : world.produce node state = (.error failure, after)) :
    evaluate world node state = some ⟨.error failure, after, [.logged .evaluating,
      .produced node (.error failure), .logged (.producerFailed failure.text)]⟩ := by
  change Eval.bind (Eval.log .evaluating) (fun _ => Eval.bind (Eval.produce world node) _) state = _
  simp only [Eval.bind, Eval.log, Eval.produce, hanswer]
  rfl

end Evaluate

/-- Holds of the parts of projections, and of what is put together from parts of which it holds. -/
structure Composable (world : World σ) (P : {α : Type} → Eval σ Failure α → Prop) : Prop where
  exhausted {α : Type} : P (Eval.exhausted : Eval σ Failure α)
  pure {α : Type} (result : α) : P (Pure.pure result : Eval σ Failure α)
  bind {α β : Type} {first : Eval σ Failure α} {next : α → Eval σ Failure β} (hfirst : P first)
    (hnext : ∀ result, P (next result)) : P (first >>= next)
  detailView : P (Eval.log .detailView)
  summaryView : P (Eval.log .summaryView)
  convert (node : NodeRef) : P (Eval.convert world node)
  evaluate (node : NodeRef) : P (evaluate world node)

namespace Composable

variable {world : World σ} {P : {α : Type} → Eval σ Failure α → Prop}
  {again : Mode → Value → Eval σ Failure Value}

theorem forEach (hP : Composable world P) {f : α → Eval σ Failure β} {items : List α}
    (hitems : ∀ item ∈ items, P (f item)) : P (Eval.forEach f items) := by
  induction items with
  | nil => exact hP.pure []
  | cons item rest ih =>
      have hrest : P (Eval.forEach f rest) :=
        ih fun other hother => hitems other (List.mem_cons_of_mem _ hother)
      rw [Eval.forEach]
      exact hP.bind (hitems item (List.mem_cons_self ..))
        fun _ => hP.bind hrest fun _ => hP.pure _

theorem unwrapObject (hP : Composable world P) (value : Value) :
    P (unwrapObject world value) := by
  cases value with
  | object node => exact hP.bind (hP.convert node) fun _ => hP.pure _
  | _ => exact hP.pure _

theorem projectAttribute (hP : Composable world P) {each : Value → Eval σ Failure Value}
    (heach : ∀ value, P (each value)) (value : Value) : P (projectAttribute each value) := by
  cases value with
  | sequence items => exact hP.bind (hP.forEach fun item _ => heach item) fun _ => hP.pure _
  | _ => exact heach _

theorem projectEntries (hP : Composable world P) (hagain : ∀ mode value, P (again mode value))
    (selector : Selector) (entries : List (String × Value)) :
    P (projectEntries again selector entries) :=
  hP.forEach fun _ _ => hP.bind (hP.projectAttribute (hagain _) _) fun _ => hP.pure _

theorem selectStep (hP : Composable world P) (hagain : ∀ mode value, P (again mode value))
    (selector : Selector) (value : Value) : P (selectStep world again selector value) := by
  cases value with
  | leaf atom => exact hP.pure _
  | sequence items => exact hP.bind (hP.forEach fun item _ => hagain _ item) fun _ => hP.pure _
  | mapping entries => exact hP.bind (hP.projectEntries hagain selector entries) fun _ => hP.pure _
  | dual left right => exact hP.bind hP.detailView fun _ => hagain _ right
  | lazy node => exact hP.bind (hP.evaluate node) fun _ => hagain _ _
  | object node => exact hP.pure _

theorem summaryStep (hP : Composable world P) (hagain : ∀ mode value, P (again mode value))
    (value : Value) : P (summaryStep world again value) := by
  cases value with
  | dual left right => exact hP.bind hP.summaryView fun _ => hagain _ left
  | lazy node => exact hP.bind (hP.evaluate node) fun _ => hagain _ _
  | _ => exact hP.pure _

/-- One step keeps the property if what the step leads to has it. -/
theorem projectStep (hP : Composable world P) (hagain : ∀ mode value, P (again mode value))
    (mode : Mode) (value : Value) : P (projectStep world again mode value) := by
  cases mode with
  | select selector => exact hP.bind (hP.unwrapObject value) (hP.selectStep hagain selector)
  | summary => exact hP.summaryStep hagain value

theorem project (hP : Composable world P) (fuel : Nat) (mode : Mode) (value : Value) :
    P (project world fuel mode value) := by
  induction fuel generalizing mode value with
  | zero => exact hP.exhausted
  | succ fuel ih => exact hP.projectStep ih mode value

end Composable

end TreeProjection
