import Mathlib.Tactic.Common
import TreeProjection.Proofs.Composition

/-!
# How a failure ends a projection

A projection fails only with a lazy node, and with the first one that does. Every trace that a
projection leaves is orderly (`orderly_project`): it goes through the world's own answers, each
producer call is reported in front of it, and behind the call that fails there is nothing but the
report of its failure. What this says about calls and log entries is `project_error_iff`.
-/

namespace TreeProjection

namespace Step

/-- The error of a producer call that failed. -/
def failure? : Step → Option Failure
  | .produced _ (.error failure) => some failure
  | _ => none

end Step

variable {σ α β : Type}

/-- Asked for the calls of a trace one after the other, the world answers as the trace has it, and
is led from the first state to the last. -/
inductive World.Follows (world : World σ) : σ → List Step → σ → Prop where
  | nil (state : σ) : Follows world state [] state
  | logged {state last : σ} {rest : List Step} (entry : LogEntry)
      (hrest : Follows world state rest last) : Follows world state (.logged entry :: rest) last
  | produced {state after last : σ} {node : NodeRef} {outcome : Except Failure Value}
      {rest : List Step} (hanswer : world.produce node state = (outcome, after))
      (hrest : Follows world after rest last) :
      Follows world state (.produced node outcome :: rest) last
  | converted {state after last : σ} {node : NodeRef} {plain : Option Value} {rest : List Step}
      (hanswer : world.convert node state = (plain, after))
      (hrest : Follows world after rest last) :
      Follows world state (.converted node plain :: rest) last

theorem World.Follows.append {world : World σ} {state middle last : σ} {trace rest : List Step}
    (htrace : world.Follows state trace middle) (hrest : world.Follows middle rest last) :
    world.Follows state (trace ++ rest) last := by
  induction htrace with
  | nil => exact hrest
  | logged entry _ ih => exact .logged entry (ih hrest)
  | produced hanswer _ ih => exact .produced hanswer (ih hrest)
  | converted hanswer _ ih => exact .converted hanswer (ih hrest)

/-! ### Traces -/

/-- A trace in which every producer call succeeded. -/
inductive Undisturbed : List Step → Prop where
  | nil : Undisturbed []
  | detailView {rest : List Step} (hrest : Undisturbed rest) :
      Undisturbed (.logged .detailView :: rest)
  | summaryView {rest : List Step} (hrest : Undisturbed rest) :
      Undisturbed (.logged .summaryView :: rest)
  | converted {rest : List Step} (node : NodeRef) (plain : Option Value)
      (hrest : Undisturbed rest) : Undisturbed (.converted node plain :: rest)
  | produced {rest : List Step} (node : NodeRef) (value : Value) (hrest : Undisturbed rest) :
      Undisturbed (.logged .evaluating :: .produced node (.ok value) :: rest)

/-- The end of a trace that a failure cuts off. -/
def abortion (node : NodeRef) (failure : Failure) : List Step :=
  [.logged .evaluating, .produced node (.error failure), .logged (.producerFailed failure.text)]

/-- The traces that go with an outcome. -/
def Orderly : Except Failure α → List Step → Prop
  | .ok _, trace => Undisturbed trace
  | .error failure, trace =>
      ∃ before node, Undisturbed before ∧ trace = before ++ abortion node failure

theorem Undisturbed.append {first second : List Step} (hfirst : Undisturbed first)
    (hsecond : Undisturbed second) : Undisturbed (first ++ second) := by
  induction hfirst with
  | nil => exact hsecond
  | detailView _ ih => exact .detailView ih
  | summaryView _ ih => exact .summaryView ih
  | converted node plain _ ih => exact .converted node plain ih
  | produced node value _ ih => exact .produced node value ih

theorem Undisturbed.append_orderly {outcome : Except Failure α} {first second : List Step}
    (hfirst : Undisturbed first) (hsecond : Orderly outcome second) :
    Orderly outcome (first ++ second) := by
  cases outcome with
  | ok result => exact hfirst.append hsecond
  | error failure =>
      obtain ⟨before, node, hbefore, rfl⟩ := hsecond
      exact ⟨first ++ before, node, hfirst.append hbefore, (List.append_assoc ..).symm⟩

/-! ### Every projection is orderly -/

variable {world : World σ}

/-- Every run leaves an orderly trace of what the world answered. -/
def Eval.Orderly (world : World σ) (eval : Eval σ Failure α) : Prop :=
  ∀ state run, eval state = some run →
    world.Follows state run.trace run.state ∧ TreeProjection.Orderly run.outcome run.trace

theorem Eval.orderly_bind {first : Eval σ Failure α} {next : α → Eval σ Failure β}
    (hfirst : first.Orderly world) (hnext : ∀ result, (next result).Orderly world) :
    (first >>= next).Orderly world := by
  intro state run hrun
  rcases bind_eq_some hrun with
    ⟨failure, houtcome, hfailed⟩ | ⟨result, after, trace, rest, hdone, hrest, rfl⟩
  · obtain ⟨hfollows, horderly⟩ := hfirst state _ hfailed
    rw [houtcome]
    exact ⟨hfollows, horderly⟩
  · -- The first part succeeded, so its trace may stand in front of whatever follows.
    obtain ⟨hfollows, hundisturbed⟩ := hfirst state _ hdone
    obtain ⟨hfollowsRest, horderly⟩ := hnext result after rest hrest
    exact ⟨hfollows.append hfollowsRest, Undisturbed.append_orderly hundisturbed horderly⟩

theorem Eval.orderly_log {entry : LogEntry} (hentry : Undisturbed [.logged entry]) :
    (Eval.log entry : Eval σ Failure Unit).Orderly world := by
  intro state run hrun
  obtain rfl := Option.some.inj hrun
  exact ⟨.logged entry (.nil state), hentry⟩

theorem Eval.orderly_convert (node : NodeRef) :
    (Eval.convert world node : Eval σ Failure _).Orderly world := by
  intro state run hrun
  obtain rfl := Option.some.inj hrun
  exact ⟨.converted rfl (.nil _), .converted node _ .nil⟩

theorem Eval.orderly_evaluate (node : NodeRef) : (evaluate world node).Orderly world := by
  intro state run hrun
  cases hanswer : world.produce node state with
  | mk outcome after =>
      cases outcome with
      | ok value =>
          rw [evaluate_of_ok hanswer] at hrun
          obtain rfl := Option.some.inj hrun
          exact ⟨.logged _ (.produced hanswer (.nil after)), .produced node value .nil⟩
      | error failure =>
          rw [evaluate_of_error hanswer] at hrun
          obtain rfl := Option.some.inj hrun
          exact ⟨.logged _ (.produced hanswer (.logged _ (.nil after))), [], node, .nil, rfl⟩

theorem composable_orderly (world : World σ) : Composable world (Eval.Orderly world) where
  exhausted := fun _ _ hrun => absurd hrun (by simp [Eval.exhausted])
  pure result := by
    intro state run hrun
    obtain rfl := Option.some.inj hrun
    exact ⟨.nil state, .nil⟩
  bind := Eval.orderly_bind
  detailView := Eval.orderly_log (.detailView .nil)
  summaryView := Eval.orderly_log (.summaryView .nil)
  convert := Eval.orderly_convert
  evaluate := Eval.orderly_evaluate

theorem orderly_project (world : World σ) (fuel : Nat) (mode : Mode) (value : Value) :
    (project world fuel mode value).Orderly world :=
  (composable_orderly world).project fuel mode value

/-! ### What an orderly trace looks like -/

/-- Each producer call stands right behind a report of its own. -/
structure Reported (steps : List Step) : Prop where
  start : ∀ node outcome, steps[0]? ≠ some (.produced node outcome)
  behind : ∀ i, steps[i]? = some (.logged .evaluating) ↔
    ∃ node outcome, steps[i + 1]? = some (.produced node outcome)

/-- Neither a producer call that failed nor the report of a failure. -/
def Step.Harmless (step : Step) : Prop :=
  step.failure? = none ∧ ∀ text, step ≠ .logged (.producerFailed text)

theorem reported_nil : Reported [] := by
  constructor <;> simp

theorem Reported.cons {step : Step} {rest : List Step} (hrest : Reported rest)
    (hreport : step ≠ .logged .evaluating) (hcall : ∀ node outcome, step ≠ .produced node outcome) :
    Reported (step :: rest) := by
  refine ⟨fun node outcome hfirst => hcall node outcome (Option.some.inj hfirst), fun i => ?_⟩
  cases i with
  | zero =>
      rw [List.getElem?_cons_zero, List.getElem?_cons_succ]
      exact ⟨fun hfirst => absurd (Option.some.inj hfirst) hreport,
        fun ⟨node, outcome, hnext⟩ => absurd hnext (hrest.start node outcome)⟩
  | succ i =>
      rw [List.getElem?_cons_succ, List.getElem?_cons_succ]
      exact hrest.behind i

theorem Reported.call {rest : List Step} (hrest : Reported rest) (node : NodeRef)
    (outcome : Except Failure Value) :
    Reported (.logged .evaluating :: .produced node outcome :: rest) := by
  refine ⟨by simp, fun i => ?_⟩
  match i with
  | 0 => simp
  | 1 => simpa using hrest.start
  | i + 2 => simpa using hrest.behind i

theorem Undisturbed.append_reported {trace rest : List Step} (htrace : Undisturbed trace)
    (hrest : Reported rest) : Reported (trace ++ rest) := by
  induction htrace with
  | nil => exact hrest
  | detailView _ ih => exact ih.cons (by simp) (by simp)
  | summaryView _ ih => exact ih.cons (by simp) (by simp)
  | converted _ _ _ ih => exact ih.cons (by simp) (by simp)
  | produced node value _ ih => exact ih.call node (.ok value)

theorem Undisturbed.harmless {trace : List Step} (htrace : Undisturbed trace) :
    ∀ step ∈ trace, step.Harmless := by
  induction htrace with
  | nil => simp
  | produced node value _ ih => simpa [Step.Harmless, Step.failure?] using ih
  | _ => simpa [Step.Harmless, Step.failure?] using ‹∀ step ∈ _, Step.Harmless step›

theorem Orderly.reported {outcome : Except Failure α} {trace : List Step}
    (horderly : Orderly outcome trace) : Reported trace := by
  cases outcome with
  | ok result =>
      rw [← List.append_nil trace]
      exact Undisturbed.append_reported horderly reported_nil
  | error failure =>
      obtain ⟨before, node, hbefore, rfl⟩ := horderly
      have hreport : Reported [.logged (.producerFailed failure.text)] :=
        reported_nil.cons (by simp) (by simp)
      exact hbefore.append_reported (hreport.call node (.error failure))

/-- Whatever harmless steps are not and one step of each abortion is, some step of the trace is
exactly if there is an error. -/
theorem Orderly.error_iff_exists {outcome : Except Failure α} {trace : List Step}
    (horderly : Orderly outcome trace) {p : Step → Prop}
    (hharmless : ∀ step, step.Harmless → ¬p step)
    (habortion : ∀ node failure, ∃ step ∈ abortion node failure, p step) :
    (∃ failure, outcome = .error failure) ↔ ∃ step ∈ trace, p step := by
  cases outcome with
  | ok result =>
      have hnone : ∀ step ∈ trace, ¬p step :=
        fun step hmem => hharmless step (Undisturbed.harmless horderly step hmem)
      simpa using hnone
  | error failure =>
      obtain ⟨before, node, -, rfl⟩ := horderly
      obtain ⟨step, hmem, hp⟩ := habortion node failure
      exact iff_of_true ⟨failure, rfl⟩ ⟨step, List.mem_append_right _ hmem, hp⟩

theorem Orderly.error_iff_call {outcome : Except Failure α} {trace : List Step}
    (horderly : Orderly outcome trace) :
    (∃ failure, outcome = .error failure) ↔ ∃ call ∈ callsOf trace, call.failure? ≠ none := by
  rw [horderly.error_iff_exists (p := fun step => step.isCall = true ∧ step.failure? ≠ none)]
  · simp [callsOf, and_assoc]
  · exact fun step hharmless hfailed => hfailed.2 hharmless.1
  · exact fun node failure =>
      ⟨.produced node (.error failure), by simp [abortion], rfl, by simp [Step.failure?]⟩

theorem Orderly.error_iff_report {outcome : Except Failure α} {trace : List Step}
    (horderly : Orderly outcome trace) :
    (∃ failure, outcome = .error failure) ↔ ∃ text, .producerFailed text ∈ logOf trace := by
  rw [horderly.error_iff_exists (p := fun step => ∃ text, step = .logged (.producerFailed text))]
  · constructor
    · rintro ⟨_, hmem, text, rfl⟩
      exact ⟨text, List.mem_filterMap.mpr ⟨_, hmem, rfl⟩⟩
    · rintro ⟨text, hmem⟩
      obtain ⟨step, hstep, hentry⟩ := List.mem_filterMap.mp hmem
      cases step with
      | logged entry => exact ⟨_, hstep, text, congrArg Step.logged (Option.some.inj hentry)⟩
      | _ => exact absurd hentry (by simp [Step.entry?])
  · exact fun step hharmless ⟨text, heq⟩ => hharmless.2 text heq
  · exact fun node failure => ⟨_, by simp [abortion], failure.text, rfl⟩

/-- **Failures.** A run ends with an error exactly if one of its calls failed, and exactly if its
log reports a failure. No other call failed then and nothing is called or reported any more behind
the report of the failure, whose error is the one that the run ends with. Every producer call of a
run is reported in front of it, and the world has answered the calls as the trace has it. -/
theorem project_error_iff {fuel : Nat} {mode : Mode} {value : Value} {state : σ}
    {run : Run σ Failure Value} (hrun : project world fuel mode value state = some run) :
    world.Follows state run.trace run.state ∧ Reported run.trace ∧
      ((∃ failure, run.outcome = .error failure) ↔
        ∃ call ∈ callsOf run.trace, call.failure? ≠ none) ∧
      ((∃ failure, run.outcome = .error failure) ↔
        ∃ text, .producerFailed text ∈ logOf run.trace) ∧
      ∀ failure, run.outcome = .error failure → ∃ before node,
        run.trace = before ++ abortion node failure ∧ (∀ step ∈ before, step.Harmless) ∧
          callsOf run.trace = callsOf before ++ [.produced node (.error failure)] ∧
          logOf run.trace = logOf before ++ [.evaluating, .producerFailed failure.text] := by
  obtain ⟨hfollows, horderly⟩ := orderly_project world fuel mode value state run hrun
  refine ⟨hfollows, horderly.reported, horderly.error_iff_call, horderly.error_iff_report, ?_⟩
  intro failure houtcome
  rw [houtcome] at horderly
  obtain ⟨before, node, hbefore, htrace⟩ := horderly
  refine ⟨before, node, htrace, hbefore.harmless, ?_, ?_⟩
  · rw [htrace, callsOf, List.filter_append]
    rfl
  · rw [htrace, logOf, List.filterMap_append]
    rfl

theorem project_error_iff_sample :
    let node : NodeRef := ⟨0, "shared"⟩
    let world : World Nat :=
      { produce := fun _ asked =>
          (if asked = 0 then .ok .null else .error ⟨"down"⟩, asked + 1)
        convert := fun _ asked => (none, asked) }
    let value : Value := .sequence
      [.lazy node, .mapping [("a", .sequence [.lazy node, .lazy node])], .lazy node]
    let run : Run Nat Failure Value := ⟨.error ⟨"down"⟩, 2,
      [.logged .evaluating, .produced node (.ok .null)] ++ abortion node ⟨"down"⟩⟩
    project world 3 (.select ⟨[("a", none)]⟩) value 0 = some run ∧
      world.Follows 0 run.trace 2 ∧ Reported run.trace ∧
      ∃ call ∈ callsOf run.trace, call.failure? ≠ none := by
  intro node world value run
  have hrun : project world 3 (.select ⟨[("a", none)]⟩) value 0 = some run := rfl
  obtain ⟨hfollows, hreported, hcall, -, -⟩ := project_error_iff hrun
  exact ⟨hrun, hfollows, hreported, hcall.mp ⟨⟨"down"⟩, rfl⟩⟩

end TreeProjection
