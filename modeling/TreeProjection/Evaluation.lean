import TreeProjection.Value
import TreeProjection.Log

/-!
# Evaluation

A `World` says what lazy nodes and objects give when they are asked, and keeps a state of its own:
a node may answer differently each time. An `Eval` is a computation over such a world that may
fail, and that records its calls and log entries in the order in which they happen. Chains of nodes
need not end, so a computation is cut off when it runs out of fuel: it then has no run.

`Eval.Total` says that a computation has a run from every state.
-/

namespace TreeProjection

structure Failure where
  text : String
deriving DecidableEq

/-- What lazy nodes produce and objects convert to, given the state of the world. -/
structure World (σ : Type) where
  produce : NodeRef → σ → Except Failure Value × σ
  convert : NodeRef → σ → Option Value × σ

/-- What a computation did: a log entry, or a call of a node with what it gave. -/
inductive Step where
  | logged (entry : LogEntry)
  | produced (node : NodeRef) (outcome : Except Failure Value)
  | converted (node : NodeRef) (plain : Option Value)

namespace Step

def entry? : Step → Option LogEntry
  | .logged entry => some entry
  | _ => none

def isCall : Step → Bool
  | .logged _ => false
  | _ => true

end Step

def logOf (trace : List Step) : List LogEntry := trace.filterMap Step.entry?

def callsOf (trace : List Step) : List Step := trace.filter Step.isCall

/-- How a computation ended, the state it left and what it did. -/
structure Run (σ ε α : Type) where
  outcome : Except ε α
  state : σ
  trace : List Step

/-- A computation in a world; there is no run if the fuel does not last. -/
def Eval (σ ε α : Type) : Type := σ → Option (Run σ ε α)

namespace Eval

variable {σ ε α β : Type}

def pure (result : α) : Eval σ ε α := fun state => some ⟨.ok result, state, []⟩

def fail (error : ε) : Eval σ ε α := fun state => some ⟨.error error, state, []⟩

def exhausted : Eval σ ε α := fun _ => none

/-- Goes on with the result; a failure ends the computation. -/
def bind (first : Eval σ ε α) (next : α → Eval σ ε β) : Eval σ ε β := fun state =>
  match first state with
  | none => none
  | some ⟨.error error, after, trace⟩ => some ⟨.error error, after, trace⟩
  | some ⟨.ok result, after, trace⟩ =>
      match next result after with
      | none => none
      | some run => some { run with trace := trace ++ run.trace }

instance : Monad (Eval σ ε) where
  pure := Eval.pure
  bind := Eval.bind

def log (entry : LogEntry) : Eval σ ε Unit := fun state =>
  some ⟨.ok (), state, [.logged entry]⟩

def logAll (entries : List LogEntry) : Eval σ ε Unit := fun state =>
  some ⟨.ok (), state, entries.map .logged⟩

/-- Asks a lazy node. Its failure is a result here, so that it can be reported. -/
def produce (world : World σ) (node : NodeRef) : Eval σ ε (Except Failure Value) := fun state =>
  let answer := world.produce node state
  some ⟨.ok answer.1, answer.2, [.produced node answer.1]⟩

def convert (world : World σ) (node : NodeRef) : Eval σ ε (Option Value) := fun state =>
  let answer := world.convert node state
  some ⟨.ok answer.1, answer.2, [.converted node answer.1]⟩

/-- The results for each item in order, up to the first failure. -/
def forEach (f : α → Eval σ ε β) : List α → Eval σ ε (List β)
  | [] => return []
  | item :: rest => do
      let result ← f item
      let results ← forEach f rest
      return result :: results

theorem pure_bind (result : α) (next : α → Eval σ ε β) :
    (Pure.pure result >>= next) = next result := by
  funext state
  change (match next result state with
    | none => none
    | some run => some { run with trace := [] ++ run.trace }) = next result state
  cases next result state <;> rfl

/-- Has a run from every state. -/
def Total (eval : Eval σ ε α) : Prop := ∀ state, (eval state).isSome = true

theorem total_pure (result : α) : Total (Pure.pure result : Eval σ ε α) := fun _ => rfl

theorem total_fail (error : ε) : Total (fail error : Eval σ ε α) := fun _ => rfl

theorem total_log (entry : LogEntry) : Total (log entry : Eval σ ε Unit) := fun _ => rfl

theorem total_convert (world : World σ) (node : NodeRef) :
    Total (convert world node : Eval σ ε _) := fun _ => rfl

theorem total_bind {first : Eval σ ε α} {next : α → Eval σ ε β} (hfirst : Total first)
    (hnext : ∀ result, Total (next result)) : Total (first >>= next) := by
  intro state
  change (bind first next state).isSome = true
  have hrun := hfirst state
  unfold bind
  split
  · simp_all
  · rfl
  · rename_i result after trace _
    have := hnext result after
    split
    · simp_all
    · rfl

theorem total_forEach {f : α → Eval σ ε β} {items : List α}
    (hitems : ∀ item ∈ items, Total (f item)) : Total (forEach f items) := by
  induction items with
  | nil => exact total_pure _
  | cons item rest ih =>
    refine total_bind (hitems item (List.mem_cons_self ..)) fun _ => ?_
    have hrest : ∀ other ∈ rest, Total (f other) :=
      fun other hother => hitems other (List.mem_cons_of_mem _ hother)
    exact total_bind (ih hrest) fun _ => total_pure _

end Eval

end TreeProjection
