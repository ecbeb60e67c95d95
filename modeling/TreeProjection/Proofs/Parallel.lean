import Mathlib.Data.List.Forall2
import Mathlib.Data.Option.Defs
import Mathlib.Tactic.Common
import TreeProjection.Proofs.Composition

/-!
# Two computations side by side

Two computations, each in a world of its own, go in parallel if from every state they either both
run out of fuel or come to the same end: the same state, and the same error or related results. On
the way they report the same and put the same questions to their worlds, in the same states
(`Eval.Parallel`). What two worlds answer may differ; in one and the same world the traces are equal
(`eq_of_corresponds`).
-/

namespace TreeProjection

variable {σ ε α β γ δ : Type}

/-- The same report, or what two worlds answer to one question in one state. -/
inductive Step.Corresponds (world twin : World σ) : Step → Step → Prop where
  | logged (entry : LogEntry) : Corresponds world twin (.logged entry) (.logged entry)
  | produced (node : NodeRef) (state : σ) :
      Corresponds world twin (.produced node (world.produce node state).1)
        (.produced node (twin.produce node state).1)
  | converted (node : NodeRef) (state : σ) :
      Corresponds world twin (.converted node (world.convert node state).1)
        (.converted node (twin.convert node state).1)

section Traces

variable {world twin : World σ} {trace changed : List Step}

theorem logOf_eq_of_corresponds
    (htrace : List.Forall₂ (Step.Corresponds world twin) trace changed) :
    logOf trace = logOf changed := by
  induction htrace with
  | nil => rfl
  | cons hstep _ ih =>
      cases hstep with
      | logged entry => exact congrArg (entry :: ·) ih
      | produced | converted => exact ih

theorem eq_of_corresponds (htrace : List.Forall₂ (Step.Corresponds world world) trace changed) :
    trace = changed := by
  induction htrace with
  | nil => rfl
  | cons hstep _ ih => cases hstep <;> rw [ih]

end Traces

inductive OutcomeRel (R : α → β → Prop) : Except ε α → Except ε β → Prop where
  | ok {result : α} {other : β} (hresult : R result other) : OutcomeRel R (.ok result) (.ok other)
  | error (error : ε) : OutcomeRel R (.error error) (.error error)

structure Run.Parallel (world twin : World σ) (R : α → β → Prop) (first : Run σ ε α)
    (second : Run σ ε β) : Prop where
  outcome : OutcomeRel R first.outcome second.outcome
  state : first.state = second.state
  trace : List.Forall₂ (Step.Corresponds world twin) first.trace second.trace

namespace Eval

def Parallel (world twin : World σ) (R : α → β → Prop) (first : Eval σ ε α)
    (second : Eval σ ε β) : Prop :=
  ∀ state, Option.Rel (Run.Parallel world twin R) (first state) (second state)

variable {world twin : World σ} {R : α → β → Prop} {Q : γ → δ → Prop}

theorem parallel_exhausted :
    Parallel world twin R (exhausted : Eval σ ε α) (exhausted : Eval σ ε β) :=
  fun _ => .none

theorem parallel_pure {result : α} {other : β} (hresult : R result other) :
    Parallel world twin R (Pure.pure result : Eval σ ε α) (Pure.pure other) :=
  fun _ => .some ⟨.ok hresult, rfl, .nil⟩

theorem parallel_log (entry : LogEntry) :
    Parallel world twin Eq (log entry : Eval σ ε Unit) (log entry) :=
  fun _ => .some ⟨.ok rfl, rfl, .cons (.logged entry) .nil⟩

theorem parallel_bind {first : Eval σ ε α} {second : Eval σ ε β} {next : α → Eval σ ε γ}
    {following : β → Eval σ ε δ} (hfirst : Parallel world twin R first second)
    (hnext : ∀ result other, R result other →
      Parallel world twin Q (next result) (following other)) :
    Parallel world twin Q (first >>= next) (second >>= following) := by
  intro state
  change Option.Rel _ (bind first next state) (bind second following state)
  have hruns := hfirst state
  rw [bind, bind]
  generalize first state = begun at hruns
  generalize second state = otherBegun at hruns
  cases hruns with
  | none => exact .none
  | @some run otherRun hrun =>
      obtain ⟨outcome, after, trace⟩ := run
      obtain ⟨otherOutcome, otherAfter, otherTrace⟩ := otherRun
      obtain ⟨houtcome, hafter, htrace⟩ := hrun
      cases hafter
      cases houtcome with
      | error error => exact .some ⟨.error error, rfl, htrace⟩
      | @ok result other hresult =>
          have hrest := hnext result other hresult after
          dsimp only
          generalize next result after = ended at hrest
          generalize following other after = otherEnded at hrest
          cases hrest with
          | none => exact .none
          | some hrun => exact .some ⟨hrun.outcome, hrun.state, List.rel_append htrace hrun.trace⟩

theorem parallel_map (f : α → β) {first second : Eval σ ε α}
    (hfirst : Parallel world twin Eq first second) :
    Parallel world twin Eq (do return f (← first)) (do return f (← second)) := by
  apply parallel_bind hfirst
  rintro result _ rfl
  exact parallel_pure rfl

theorem parallel_forEach {f : α → Eval σ ε γ} {g : β → Eval σ ε γ} {items : List α}
    {others : List β} (hitems : List.Forall₂ R items others)
    (heach : ∀ item other, R item other → Parallel world twin Eq (f item) (g other)) :
    Parallel world twin Eq (forEach f items) (forEach g others) := by
  induction hitems with
  | nil => exact parallel_pure rfl
  | cons hitem _ ih =>
      rw [forEach, forEach]
      refine parallel_bind (heach _ _ hitem) fun result other hresult => ?_
      refine parallel_bind ih fun results others hresults => ?_
      rw [hresult, hresults]
      exact parallel_pure rfl

theorem parallel_convert {R : Option Value → Option Value → Prop} {node : NodeRef}
    (hanswer : ∀ state, (world.convert node state).2 = (twin.convert node state).2 ∧
      R (world.convert node state).1 (twin.convert node state).1) :
    Parallel world twin R (convert world node : Eval σ ε _) (convert twin node) := by
  intro state
  obtain ⟨hstate, hplain⟩ := hanswer state
  exact .some ⟨.ok hplain, hstate, .cons (.converted node state) .nil⟩

theorem parallel_evaluate {R : Value → Value → Prop} {node : NodeRef}
    (hanswer : ∀ state, (world.produce node state).2 = (twin.produce node state).2 ∧
      OutcomeRel R (world.produce node state).1 (twin.produce node state).1) :
    Parallel world twin R (evaluate world node) (evaluate twin node) := by
  intro state
  obtain ⟨hstate, houtcome⟩ := hanswer state
  have hcall : Step.Corresponds world twin _ _ := .produced node state
  cases hfirst : world.produce node state with
  | mk outcome after =>
      cases hsecond : twin.produce node state with
      | mk otherOutcome otherAfter =>
          rw [hfirst, hsecond] at hstate houtcome hcall
          obtain rfl : after = otherAfter := hstate
          cases houtcome with
          | ok hvalue =>
              rw [evaluate_of_ok hfirst, evaluate_of_ok hsecond]
              exact .some ⟨.ok hvalue, rfl, .cons (.logged _) (.cons hcall .nil)⟩
          | error failure =>
              rw [evaluate_of_error hfirst, evaluate_of_error hsecond]
              exact .some ⟨.error failure, rfl,
                .cons (.logged _) (.cons hcall (.cons (.logged _) .nil))⟩

end Eval

end TreeProjection
