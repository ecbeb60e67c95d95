import TreeProjection.Selector
import TreeProjection.Evaluation

/-!
# Projection

Projecting a value by a selector keeps what the selector names and evaluates what it has to look
into. A value is reached in one of two modes: `select`, with a selector that goes on, or `summary`,
below an attribute that was named bare or admitted by the wildcard.

With a selector
* an object is replaced by its plain form, once;
* a mapping keeps the attributes of the selector, in the selector's order, with null for those it
  does not have;
* a sequence is projected item by item;
* a lazy node is produced and its value projected;
* of a dual-view node the detail is projected.

Without one only lazy nodes are produced, and of dual-view nodes the summary is taken. A sequence
that stands directly under an attribute is projected item by item in either mode.

In a world without nodes every projection comes to an end (`total_project_closed`), so
`projectClosed` needs no fuel.
-/

namespace TreeProjection

inductive Mode where
  | select (selector : Selector)
  | summary

def Mode.ofChild : Option Selector → Mode
  | some child => .select child
  | none => .summary

variable {σ : Type}

/-- Replaces an object by its plain form, if it has one. -/
def unwrapObject (world : World σ) : Value → Eval σ Failure Value
  | .object node => do return (← Eval.convert world node).getD (.object node)
  | value => return value

/-- Asks a lazy node for its value; a failure is reported and ends the projection. -/
def evaluate (world : World σ) (node : NodeRef) : Eval σ Failure Value := do
  Eval.log .evaluating
  match ← Eval.produce world node with
  | .ok value => return value
  | .error failure =>
      Eval.log (.producerFailed failure.text)
      Eval.fail failure

/-- Applies a projection to the value of an attribute: to each item if that is a sequence. -/
def projectAttribute (each : Value → Eval σ Failure Value) : Value → Eval σ Failure Value
  | .sequence items => do return .sequence (← Eval.forEach each items)
  | value => each value

/-- The projection of a mapping: its attributes one after the other. -/
def projectEntries (again : Mode → Value → Eval σ Failure Value) (selector : Selector)
    (entries : List (String × Value)) : Eval σ Failure (List (String × Value)) :=
  Eval.forEach (fun (key, child) => do
    let item := (Table.get? entries key).getD .null
    return (key, ← projectAttribute (again (.ofChild child)) item))
    (selector.attributes (Table.keys entries))

/-- What a selector does with a value that is no object any more; `again` projects what it leads
to. -/
def selectStep (world : World σ) (again : Mode → Value → Eval σ Failure Value)
    (selector : Selector) : Value → Eval σ Failure Value
  | .leaf atom => return .leaf atom
  | .sequence items => do return .sequence (← Eval.forEach (again (.select selector)) items)
  | .mapping entries => do return .mapping (← projectEntries again selector entries)
  | .dual _ right => do
      Eval.log .detailView
      again (.select selector) right
  | .lazy node => do again (.select selector) (← evaluate world node)
  | .object node => return .object node

/-- What happens to a value where no selector goes on. -/
def summaryStep (world : World σ) (again : Mode → Value → Eval σ Failure Value) :
    Value → Eval σ Failure Value
  | .leaf atom => return .leaf atom
  | .sequence items => return .sequence items
  | .mapping entries => return .mapping entries
  | .dual left _ => do
      Eval.log .summaryView
      again .summary left
  | .lazy node => do again .summary (← evaluate world node)
  | .object node => return .object node

def projectStep (world : World σ) (again : Mode → Value → Eval σ Failure Value) :
    Mode → Value → Eval σ Failure Value
  | .select selector, value => do selectStep world again selector (← unwrapObject world value)
  | .summary, value => summaryStep world again value

/-- The projection of a value that is reached in a mode. -/
def project (world : World σ) : Nat → Mode → Value → Eval σ Failure Value
  | 0 => fun _ _ => Eval.exhausted
  | fuel + 1 => projectStep world (project world fuel)

/-- The projection of a value by a selector. -/
def select (world : World σ) (fuel : Nat) (selector : Selector) (value : Value) :
    Eval σ Failure Value :=
  project world fuel (.select selector) value

/-- What a value passes on where no selector goes on. -/
def summarize (world : World σ) (fuel : Nat) (value : Value) : Eval σ Failure Value :=
  project world fuel .summary value

def World.closed : World Unit where
  produce _ _ := (.error ⟨"no such node"⟩, ())
  convert _ _ := (none, ())

theorem total_evaluate_closed {α : Type} (node : NodeRef) (next : Value → Eval Unit Failure α) :
    (evaluate World.closed node >>= next).Total := fun _ => rfl

/-- In a world without nodes a projection ends if it has more fuel than the value is high. -/
theorem total_project_closed {fuel : Nat} {mode : Mode} {value : Value}
    (hfuel : value.height < fuel) : (project World.closed fuel mode value).Total := by
  induction fuel generalizing mode value with
  | zero => exact absurd hfuel (Nat.not_lt_zero _)
  | succ fuel ih =>
    have hattribute (child : Option Selector) (item : Value) (hitem : item.height < fuel) :
        (projectAttribute (project World.closed fuel (.ofChild child)) item).Total := by
      cases item with
      | sequence items =>
        refine Eval.total_bind (Eval.total_forEach fun item hmem => ih ?_) fun _ => ?_
        · have := Value.height_le_itemsHeight hmem
          rw [Value.height] at hitem
          omega
        · exact Eval.total_pure _
      | _ => exact ih hitem
    have hselect (selector : Selector) (value : Value) (hvalue : value.height < fuel + 1) :
        (selectStep World.closed (project World.closed fuel) selector value).Total := by
      cases value with
      | leaf | object => exact Eval.total_pure _
      | lazy node => exact total_evaluate_closed node _
      | dual left right =>
        refine Eval.total_bind (Eval.total_log _) fun _ => ih ?_
        rw [Value.height] at hvalue
        omega
      | sequence items =>
        refine Eval.total_bind (Eval.total_forEach fun item hmem => ih ?_) fun _ => ?_
        · have := Value.height_le_itemsHeight hmem
          rw [Value.height] at hvalue
          omega
        · exact Eval.total_pure _
      | mapping entries =>
        refine Eval.total_bind (Eval.total_forEach fun entry _ => ?_) fun _ => Eval.total_pure _
        refine Eval.total_bind (hattribute _ _ ?_) fun _ => Eval.total_pure _
        rw [Value.height] at hvalue
        cases hfound : Table.get? entries entry.1 with
        | none =>
          rw [Option.getD_none, Value.null, Value.height]
          omega
        | some item =>
          have := Value.height_le_entriesHeight (Table.mem_of_get?_eq_some hfound)
          rw [Option.getD_some]
          omega
    cases mode with
    | summary =>
      cases value with
      | leaf | object | sequence | mapping => exact Eval.total_pure _
      | lazy node => exact total_evaluate_closed node _
      | dual left right =>
        refine Eval.total_bind (Eval.total_log _) fun _ => ih ?_
        rw [Value.height] at hfuel
        omega
    | select selector =>
      cases value with
      | object node => exact fun _ => rfl
      | _ =>
        change (pure _ >>= selectStep World.closed (project World.closed fuel) selector).Total
        rw [Eval.pure_bind]
        exact hselect selector _ hfuel

/-- The projection of a value in the world without nodes. -/
def projectClosed (mode : Mode) (value : Value) : Run Unit Failure Value :=
  (project World.closed (value.height + 1) mode value ()).get
    (total_project_closed (Nat.lt_succ_self _) ())

end TreeProjection
