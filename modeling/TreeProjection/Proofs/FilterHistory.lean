import Mathlib.Tactic.Common
import TreeProjection.Filter
import TreeProjection.Proofs.Composition
import TreeProjection.Proofs.SelectorRoundTrip

/-!
# Filters and what was done with them

Whether a named filter has to parse its source depends on how it was made and on what was done with
it since, and on nothing else: it is pristine if it was compiled, or copied from a pristine filter,
and has not been used (`FilterCommand.Pristine`). At every moment of a session the pristine filters
are those that hold no selector; all others hold the one that their source stands for
(`Session.describes`). So a filter answers as if it had just been parsed, and the parse is reported
by the first use of a pristine filter and by nothing else (`answers_of_session`).
-/

namespace TreeProjection

/-! ### What a history says about a filter -/

namespace FilterCommand

/-- Makes a new filter under the name. -/
def Creates : FilterCommand → String → Prop
  | .compile name _, wanted => name = wanted
  | .clone _ copy, wanted => copy = wanted
  | _, _ => False

/-- Shows the filter of the name, or filters with it. -/
def Uses : FilterCommand → String → Prop
  | .display name, wanted => name = wanted
  | .apply name _, wanted => name = wanted
  | _, _ => False

/-- By a history of commands, the latest first, the filter of this name was made without a parsed
selector and has not been used since. -/
inductive Pristine : List FilterCommand → String → Prop where
  | compiled {history : List FilterCommand} (name text : String) :
      Pristine (.compile name text :: history) name
  | cloned {history : List FilterCommand} {original : String} (copy : String)
      (horiginal : Pristine history original) : Pristine (.clone original copy :: history) copy
  | kept {history : List FilterCommand} {command : FilterCommand} {name : String}
      (hcreates : ¬command.Creates name) (huses : ¬command.Uses name)
      (hpristine : Pristine history name) : Pristine (command :: history) name

/-- The text that the filter of a name was compiled from, or that it was copied with. -/
def sourceOf? : List FilterCommand → String → Option String
  | [], _ => none
  | .compile name text :: history, wanted =>
      if name = wanted then some text else sourceOf? history wanted
  | .clone original copy :: history, wanted =>
      sourceOf? history (if copy = wanted then original else wanted)
  | _ :: history, wanted => sourceOf? history wanted

variable {command : FilterCommand} {history : List FilterCommand} {name : String}

theorem sourceOf?_of_not_creates (hcreates : ¬command.Creates name) :
    sourceOf? (command :: history) name = sourceOf? history name := by
  cases command with
  | compile other text =>
      have hne : other ≠ name := hcreates
      rw [sourceOf?, if_neg hne]
  | clone original copy =>
      have hne : copy ≠ name := hcreates
      rw [sourceOf?, if_neg hne]
  | _ => rfl

theorem pristine_iff_of_not_creates (hcreates : ¬command.Creates name) :
    Pristine (command :: history) name ↔ ¬command.Uses name ∧ Pristine history name := by
  constructor
  · intro hpristine
    cases hpristine with
    | compiled => exact absurd rfl hcreates
    | cloned => exact absurd rfl hcreates
    | kept _ huses hbefore => exact ⟨huses, hbefore⟩
  · rintro ⟨huses, hbefore⟩
    exact .kept hcreates huses hbefore

theorem pristine_clone_iff {original copy : String} :
    Pristine (.clone original copy :: history) copy ↔ Pristine history original := by
  constructor
  · intro hpristine
    cases hpristine with
    | cloned _ horiginal => exact horiginal
    | kept hcreates => exact absurd rfl hcreates
  · exact .cloned copy

theorem not_creates_of_uses (huses : command.Uses name) (other : String) :
    ¬command.Creates other := by
  cases command with
  | display | apply => exact id
  | _ => exact False.elim huses

theorem not_pristine_of_uses (huses : command.Uses name) :
    ¬Pristine (command :: history) name := by
  rw [pristine_iff_of_not_creates (not_creates_of_uses huses name)]
  exact fun hpristine => hpristine.1 huses

end FilterCommand

open FilterCommand

/-! ### Sessions -/

variable {σ : Type} {world : World σ}

/-- The filters and the state of the world after the commands of a history, which began without
filters. A command that fails is done as well. -/
inductive Session (world : World σ) : List FilterCommand → Table Filter → σ → Prop where
  | start (state : σ) : Session world [] [] state
  | step {history : List FilterCommand} {filters next : Table Filter} {state : σ} {fuel : Nat}
      {command : FilterCommand} {eval : Eval σ Failure FilterAnswer}
      {run : Run σ Failure FilterAnswer} (hbefore : Session world history filters state)
      (hperform : command.perform world fuel filters = some (next, eval))
      (hrun : eval state = some run) : Session world (command :: history) next run.state

/-- The filter of this name is as the history has it: it holds no selector while it is pristine, and
afterwards the one that its source stands for. -/
structure Filter.FitsIn (history : List FilterCommand) (name : String) (filter : Filter) :
    Prop where
  source : sourceOf? history name = some filter.source
  cached : Pristine history name ∧ filter.cached = none ∨
    ¬Pristine history name ∧ filter.cached = some (Selector.parse filter.source)

/-- The filters are those that the history names, each as the history has it. -/
def Describes (history : List FilterCommand) (filters : Table Filter) : Prop :=
  ∀ name, Table.get? filters name = none ∧ sourceOf? history name = none ∨
    ∃ filter, Table.get? filters name = some filter ∧ filter.FitsIn history name

namespace Filter.FitsIn

variable {history : List FilterCommand} {command : FilterCommand} {name : String} {filter : Filter}

theorem selector_eq (hfilter : filter.FitsIn history name) :
    filter.selector = Selector.parse filter.source := by
  rcases hfilter.cached with ⟨-, hcached⟩ | ⟨-, hcached⟩ <;> rw [selector, hcached] <;> rfl

theorem cached_eq_none_iff (hfilter : filter.FitsIn history name) :
    filter.cached = none ↔ Pristine history name := by
  rcases hfilter.cached with ⟨hpristine, hcached⟩ | ⟨hpristine, hcached⟩ <;>
    simp [hpristine, hcached]

theorem used (hfilter : filter.FitsIn history name) (huses : command.Uses name) :
    filter.used.FitsIn (command :: history) name := by
  refine ⟨?_, Or.inr ⟨not_pristine_of_uses huses, ?_⟩⟩
  · rw [sourceOf?_of_not_creates (not_creates_of_uses huses name)]
    exact hfilter.source
  · exact congrArg some hfilter.selector_eq

theorem kept (hfilter : filter.FitsIn history name) (hcreates : ¬command.Creates name)
    (huses : ¬command.Uses name) : filter.FitsIn (command :: history) name := by
  refine ⟨?_, ?_⟩
  · rw [sourceOf?_of_not_creates hcreates]
    exact hfilter.source
  · rw [pristine_iff_of_not_creates hcreates]
    simpa [huses] using hfilter.cached

theorem cloned (hfilter : filter.FitsIn history name) (copy : String) :
    filter.FitsIn (.clone name copy :: history) copy := by
  refine ⟨?_, ?_⟩
  · rw [sourceOf?, if_pos rfl]
    exact hfilter.source
  · rw [pristine_clone_iff]
    exact hfilter.cached

end Filter.FitsIn

theorem Filter.fitsIn_compile (history : List FilterCommand) (name text : String) :
    (Filter.compile text).FitsIn (.compile name text :: history) name :=
  ⟨by rw [sourceOf?, if_pos rfl]; rfl, Or.inl ⟨.compiled name text, rfl⟩⟩

namespace Describes

variable {history : List FilterCommand} {filters : Table Filter} {command : FilterCommand}
  {name : String}

theorem nil : Describes [] [] := fun _ => Or.inl ⟨rfl, rfl⟩

theorem fitsIn {filter : Filter} (hdescribes : Describes history filters)
    (hfilter : Table.get? filters name = some filter) : filter.FitsIn history name := by
  rcases hdescribes name with ⟨hnone, -⟩ | ⟨other, hother, hfits⟩
  · rw [hfilter] at hnone
    exact absurd hnone (by simp)
  · rw [hfilter] at hother
    rwa [Option.some.inj hother]

theorem kept (hdescribes : Describes history filters) (hcreates : ¬command.Creates name)
    (huses : ¬command.Uses name) :
    Table.get? filters name = none ∧ sourceOf? (command :: history) name = none ∨
      ∃ filter, Table.get? filters name = some filter ∧
        filter.FitsIn (command :: history) name := by
  rcases hdescribes name with ⟨hnone, hsource⟩ | ⟨filter, hfilter, hfits⟩
  · exact Or.inl ⟨hnone, by rw [sourceOf?_of_not_creates hcreates, hsource]⟩
  · exact Or.inr ⟨filter, hfilter, hfits.kept hcreates huses⟩

/-- A command that neither makes nor uses another filter changes the one it stores only. -/
theorem insert (hdescribes : Describes history filters) {filter : Filter}
    (hfits : filter.FitsIn (command :: history) name)
    (hothers : ∀ other, name ≠ other → ¬command.Creates other ∧ ¬command.Uses other) :
    Describes (command :: history) (Table.insert filters name filter) := by
  intro other
  rw [Table.get?_insert]
  by_cases heq : name = other
  · subst heq
    rw [if_pos rfl]
    exact Or.inr ⟨filter, rfl, hfits⟩
  · rw [if_neg heq]
    exact hdescribes.kept (hothers other heq).1 (hothers other heq).2

theorem perform {next : Table Filter} {fuel : Nat} {eval : Eval σ Failure FilterAnswer}
    (hdescribes : Describes history filters)
    (hperform : command.perform world fuel filters = some (next, eval)) :
    Describes (command :: history) next := by
  cases command with
  | compile name text =>
      obtain ⟨rfl, -⟩ := Prod.mk.inj (Option.some.inj hperform)
      exact hdescribes.insert (Filter.fitsIn_compile history name text) fun other hne =>
        ⟨hne, id⟩
  | clone name copy =>
      obtain ⟨filter, hfilter, heq⟩ := Option.bind_eq_some_iff.mp hperform
      obtain ⟨rfl, -⟩ := Prod.mk.inj (Option.some.inj heq)
      exact hdescribes.insert ((hdescribes.fitsIn hfilter).cloned copy) fun other hne => ⟨hne, id⟩
  | source name =>
      obtain ⟨filter, -, heq⟩ := Option.bind_eq_some_iff.mp hperform
      obtain ⟨rfl, -⟩ := Prod.mk.inj (Option.some.inj heq)
      exact fun other => hdescribes.kept id id
  | display name =>
      obtain ⟨filter, hfilter, heq⟩ := Option.bind_eq_some_iff.mp hperform
      obtain ⟨rfl, -⟩ := Prod.mk.inj (Option.some.inj heq)
      exact hdescribes.insert ((hdescribes.fitsIn hfilter).used rfl) fun other hne => ⟨id, hne⟩
  | apply name value =>
      obtain ⟨filter, hfilter, heq⟩ := Option.bind_eq_some_iff.mp hperform
      obtain ⟨rfl, -⟩ := Prod.mk.inj (Option.some.inj heq)
      exact hdescribes.insert ((hdescribes.fitsIn hfilter).used rfl) fun other hne => ⟨id, hne⟩

end Describes

theorem Session.describes {history : List FilterCommand} {filters : Table Filter} {state : σ}
    (hsession : Session world history filters state) : Describes history filters := by
  induction hsession with
  | start => exact .nil
  | step _ hperform _ ih => exact ih.perform hperform

/-! ### Reports of a parse -/

/-- One of the two entries that tell of a parse. -/
def LogEntry.tellsParse : LogEntry → Bool
  | .parsed _ _ => true
  | .cached _ => true
  | _ => false

def parsesOf (trace : List Step) : List LogEntry := (logOf trace).filter LogEntry.tellsParse

theorem parsesOf_append (first second : List Step) :
    parsesOf (first ++ second) = parsesOf first ++ parsesOf second := by
  rw [parsesOf, logOf, List.filterMap_append, List.filter_append]
  rfl

theorem composable_parsesOf (world : World σ) : Composable world
    fun {α} (eval : Eval σ Failure α) =>
      ∀ state run, eval state = some run → parsesOf run.trace = [] where
  exhausted := fun _ _ hrun => absurd hrun (by simp [Eval.exhausted])
  pure result := by
    intro state run hrun
    obtain rfl := Option.some.inj hrun
    rfl
  bind := by
    intro α β first next hfirst hnext state run hrun
    rcases Eval.bind_eq_some hrun with
      ⟨failure, -, hfailed⟩ | ⟨result, after, trace, rest, hdone, hrest, rfl⟩
    · exact hfirst state _ hfailed
    · have hbegun : parsesOf trace = [] := hfirst state _ hdone
      rw [parsesOf_append, hbegun, hnext result after rest hrest, List.append_nil]
  detailView := by
    intro state run hrun
    obtain rfl := Option.some.inj hrun
    rfl
  summaryView := by
    intro state run hrun
    obtain rfl := Option.some.inj hrun
    rfl
  convert node := by
    intro state run hrun
    obtain rfl := Option.some.inj hrun
    rfl
  evaluate node := by
    intro state run hrun
    cases hanswer : world.produce node state with
    | mk outcome after =>
        cases outcome with
        | ok value =>
            rw [evaluate_of_ok hanswer] at hrun
            obtain rfl := Option.some.inj hrun
            rfl
        | error failure =>
            rw [evaluate_of_error hanswer] at hrun
            obtain rfl := Option.some.inj hrun
            rfl

theorem parsesOf_select {fuel : Nat} {selector : Selector} {value : Value} {state : σ}
    {run : Run σ Failure Value} (hrun : select world fuel selector value state = some run) :
    parsesOf run.trace = [] :=
  (composable_parsesOf world).project fuel (.select selector) value state run hrun

/-! ### What commands answer -/

theorem Eval.map_run {ε α β : Type} (f : α → β) (first : Eval σ ε α) (state : σ) :
    (do return f (← first) : Eval σ ε β) state =
      (first state).map fun run => ⟨run.outcome.map f, run.state, run.trace⟩ := by
  change Eval.bind first (fun result => Eval.pure (f result)) state = _
  rw [Eval.bind]
  cases first state with
  | none => rfl
  | some run =>
      obtain ⟨outcome, after, trace⟩ := run
      cases outcome with
      | error error => rfl
      | ok result => simp [Eval.pure, Except.map]

section Answers

variable {history : List FilterCommand} {filters : Table Filter} {name : String} {filter : Filter}
  {state : σ} {run : Run σ Failure FilterAnswer}

theorem perform_display (world : World σ) (fuel : Nat)
    (hfilter : Table.get? filters name = some filter) :
    ∃ next eval, (FilterCommand.display name).perform world fuel filters = some (next, eval) ∧
      ∀ state, eval state =
        some ⟨.ok (.selector filter.selector), state, filter.useLog.map .logged⟩ := by
  refine ⟨_, _, by rw [FilterCommand.perform, hfilter]; rfl, fun state => ?_⟩
  change some (Run.mk _ _ (filter.useLog.map .logged ++ [])) = _
  rw [List.append_nil]

theorem perform_apply (world : World σ) (fuel : Nat) (value : Value)
    (hfilter : Table.get? filters name = some filter) :
    ∃ next eval, (FilterCommand.apply name value).perform world fuel filters =
        some (next, eval) ∧
      ∀ state, eval state = (select world fuel filter.selector value state).map fun run =>
        ⟨run.outcome.map .value, run.state, filter.useLog.map .logged ++ run.trace⟩ := by
  refine ⟨_, _, by rw [FilterCommand.perform, hfilter]; rfl, fun state => ?_⟩
  rw [Eval.map_run, Filter.run_eq, Option.map_map]
  rfl

theorem Filter.FitsIn.parsesOf_useLog (hfits : filter.FitsIn history name) :
    parsesOf (filter.useLog.map .logged) = if filter.cached = none then
      [.parsed filter.source (Selector.parse filter.source).size,
        .cached (Selector.parse filter.source).depth] else [] := by
  rcases hfits.cached with ⟨-, hcached⟩ | ⟨-, hcached⟩
  · rw [if_pos hcached, Filter.useLog, hcached]
    by_cases hempty : Selector.trailing filter.source = "" <;>
      simp [Selector.parseLog, hempty, parsesOf, logOf, Step.entry?, LogEntry.tellsParse]
  · rw [if_neg (by simp [hcached]), Filter.useLog, hcached]
    rfl

variable {command : FilterCommand} {fuel : Nat} {next : Table Filter}
  {eval : Eval σ Failure FilterAnswer}

theorem exists_filter_of_uses (hperform : command.perform world fuel filters = some (next, eval))
    (huses : command.Uses name) : ∃ filter, Table.get? filters name = some filter := by
  cases command with
  | display other =>
      obtain rfl : other = name := huses
      obtain ⟨filter, hfilter, -⟩ := Option.bind_eq_some_iff.mp hperform
      exact ⟨filter, hfilter⟩
  | apply other value =>
      obtain rfl : other = name := huses
      obtain ⟨filter, hfilter, -⟩ := Option.bind_eq_some_iff.mp hperform
      exact ⟨filter, hfilter⟩
  | _ => exact False.elim huses

theorem parsesOf_eq_of_uses (hfilter : Table.get? filters name = some filter)
    (hperform : command.perform world fuel filters = some (next, eval))
    (hrun : eval state = some run) (huses : command.Uses name) :
    parsesOf run.trace = parsesOf (filter.useLog.map .logged) := by
  cases command with
  | display other =>
      obtain rfl : other = name := huses
      obtain ⟨_, _, hother, heval⟩ := perform_display world fuel hfilter
      obtain ⟨-, rfl⟩ := Prod.mk.inj (Option.some.inj (hperform.symm.trans hother))
      rw [heval] at hrun
      rw [← Option.some.inj hrun]
  | apply other value =>
      obtain rfl : other = name := huses
      obtain ⟨_, _, hother, heval⟩ := perform_apply world fuel value hfilter
      obtain ⟨-, rfl⟩ := Prod.mk.inj (Option.some.inj (hperform.symm.trans hother))
      rw [heval, Option.map_eq_some_iff] at hrun
      obtain ⟨selected, hselected, rfl⟩ := hrun
      rw [parsesOf_append, parsesOf_select hselected, List.append_nil]
  | _ => exact False.elim huses

theorem trace_eq_nil_of_not_uses
    (hperform : command.perform world fuel filters = some (next, eval))
    (hrun : eval state = some run) (hnot : ∀ name, ¬command.Uses name) : run.trace = [] := by
  cases command with
  | compile name text =>
      obtain ⟨-, rfl⟩ := Prod.mk.inj (Option.some.inj hperform)
      rw [← Option.some.inj hrun]
  | clone name copy =>
      obtain ⟨filter, -, heq⟩ := Option.bind_eq_some_iff.mp hperform
      obtain ⟨-, rfl⟩ := Prod.mk.inj (Option.some.inj heq)
      rw [← Option.some.inj hrun]
  | source name =>
      obtain ⟨filter, -, heq⟩ := Option.bind_eq_some_iff.mp hperform
      obtain ⟨-, rfl⟩ := Prod.mk.inj (Option.some.inj heq)
      rw [← Option.some.inj hrun]
  | display name => exact absurd rfl (hnot name)
  | apply name value => exact absurd rfl (hnot name)

end Answers

/-- **Parsed once, never stale.** After any session, a filter holds no selector if it was made
without one and not used since; else it holds what its source stands for. It answers as that
selector does, and shows it. The parse is reported by a use of a filter that holds no selector, with
its source and depth, and by no other command; a copy holds a selector if what it was copied from
did, and a use of it changes no other filter. -/
theorem answers_of_session {history : List FilterCommand} {filters : Table Filter} {state : σ}
    (hsession : Session world history filters state) :
    (∀ name filter, Table.get? filters name = some filter →
      sourceOf? history name = some filter.source ∧
      (filter.cached = none ∧ Pristine history name ∨
        filter.cached = some (Selector.parse filter.source) ∧ ¬Pristine history name) ∧
      filter.describe = "<TreeFilter " ++ (Selector.parse filter.source).render ++ ">") ∧
    (∀ name source, sourceOf? history name = some source → ∀ fuel,
      (∃ next eval, (FilterCommand.source name).perform world fuel filters = some (next, eval) ∧
        eval state = some ⟨.ok (.source source), state, []⟩) ∧
      (∀ copy, ∃ next eval,
        (FilterCommand.clone name copy).perform world fuel filters = some (next, eval) ∧
          eval state = some ⟨.ok .done, state, []⟩) ∧
      (∃ next eval, (FilterCommand.display name).perform world fuel filters = some (next, eval) ∧
        (eval state).map Run.effect = some (.ok (.selector (Selector.parse source)), state, [])) ∧
      ∀ value, ∃ next eval,
        (FilterCommand.apply name value).perform world fuel filters = some (next, eval) ∧
          (eval state).map Run.effect =
            (select world fuel (Selector.parse source) value state).map fun run =>
              (run.outcome.map .value, run.state, callsOf run.trace)) ∧
    (∀ (command : FilterCommand) (fuel : Nat) (next : Table Filter)
        (eval : Eval σ Failure FilterAnswer) (run : Run σ Failure FilterAnswer),
      command.perform world fuel filters = some (next, eval) → eval state = some run →
      (∀ name source, command.Uses name → Pristine history name →
        sourceOf? history name = some source → parsesOf run.trace =
          [.parsed source (Selector.parse source).size, .cached (Selector.parse source).depth]) ∧
      ((∀ name, command.Uses name → ¬Pristine history name) → parsesOf run.trace = [])) ∧
    (∀ name copy, Pristine (.clone name copy :: history) copy ↔ Pristine history name) ∧
    ∀ (command : FilterCommand) (name : String),
      command.Uses name → ¬Pristine (command :: history) name ∧
      ∀ other, other ≠ name → (Pristine (command :: history) other ↔ Pristine history other) := by
  have hdescribes := hsession.describes
  refine ⟨?_, ?_, ?_, fun name copy => pristine_clone_iff, ?_⟩
  · intro name filter hfilter
    have hfits := hdescribes.fitsIn hfilter
    refine ⟨hfits.source, ?_, by rw [Filter.describe, hfits.selector_eq]⟩
    exact hfits.cached.imp And.symm And.symm
  · intro name source hsource fuel
    obtain ⟨filter, hfilter, hfits⟩ : ∃ filter, Table.get? filters name = some filter ∧
        filter.FitsIn history name := by
      rcases hdescribes name with ⟨-, hnone⟩ | hfits
      · rw [hsource] at hnone
        exact absurd hnone (by simp)
      · exact hfits
    obtain rfl : filter.source = source := Option.some.inj (hfits.source.symm.trans hsource)
    refine ⟨?_, ?_, ?_, ?_⟩
    · exact ⟨_, _, by rw [FilterCommand.perform, hfilter]; rfl, rfl⟩
    · exact fun copy => ⟨_, _, by rw [FilterCommand.perform, hfilter]; rfl, rfl⟩
    · obtain ⟨next, eval, hperform, heval⟩ := perform_display world fuel hfilter
      refine ⟨next, eval, hperform, ?_⟩
      have hcalls := callsOf_logged_append filter.useLog []
      rw [List.append_nil] at hcalls
      rw [heval, Option.map_some, Run.effect, hfits.selector_eq, hcalls]
      rfl
    · intro value
      obtain ⟨next, eval, hperform, heval⟩ := perform_apply world fuel value hfilter
      refine ⟨next, eval, hperform, ?_⟩
      rw [heval, Option.map_map, hfits.selector_eq]
      simp only [Function.comp_def, Run.effect, callsOf_logged_append]
  · intro command fuel next eval run hperform hrun
    refine ⟨?_, ?_⟩
    · intro name source huses hpristine hsource
      obtain ⟨filter, hfilter⟩ := exists_filter_of_uses hperform huses
      have hfits := hdescribes.fitsIn hfilter
      obtain rfl : filter.source = source := Option.some.inj (hfits.source.symm.trans hsource)
      rw [parsesOf_eq_of_uses hfilter hperform hrun huses, hfits.parsesOf_useLog,
        if_pos (hfits.cached_eq_none_iff.mpr hpristine)]
    · intro hused
      by_cases huses : ∃ name, command.Uses name
      · obtain ⟨name, huses⟩ := huses
        obtain ⟨filter, hfilter⟩ := exists_filter_of_uses hperform huses
        have hfits := hdescribes.fitsIn hfilter
        have hcached : filter.cached ≠ none :=
          fun hnone => hused name huses (hfits.cached_eq_none_iff.mp hnone)
        rw [parsesOf_eq_of_uses hfilter hperform hrun huses, hfits.parsesOf_useLog,
          if_neg hcached]
      · rw [trace_eq_nil_of_not_uses hperform hrun (not_exists.mp huses)]
        rfl
  · intro command name huses
    refine ⟨not_pristine_of_uses huses, fun other hne => ?_⟩
    rw [pristine_iff_of_not_creates (not_creates_of_uses huses other)]
    have hother : ¬command.Uses other := by
      cases command with
      | display | apply => exact fun heq => hne (heq.symm.trans huses)
      | _ => exact False.elim huses
    exact and_iff_right hother

theorem answers_of_session_sample :
    let history : List FilterCommand :=
      [.clone "g" "h", .apply "g" .null, .clone "f" "g", .compile "f" "a[b]"]
    let filters : Table Filter := [("f", Filter.compile "a[b]"),
      ("g", (Filter.compile "a[b]").used), ("h", (Filter.compile "a[b]").used)]
    Session .closed history filters () ∧
      (∃ next eval run, (FilterCommand.display "f").perform .closed 1 filters = some (next, eval) ∧
        eval () = some run ∧ Pristine history "f" ∧
          parsesOf run.trace = [.parsed "a[b]" 1, .cached 2]) ∧
      ∃ next eval run, (FilterCommand.display "h").perform .closed 1 filters = some (next, eval) ∧
        eval () = some run ∧ ¬Pristine history "h" ∧ parsesOf run.trace = [] := by
  intro history filters
  have hsession : Session .closed history filters () := by
    have hcompiled : Session .closed [.compile "f" "a[b]"] [("f", Filter.compile "a[b]")] () :=
      .step (.start ()) (show FilterCommand.perform .closed 0 _ _ = some (_, _) from rfl) rfl
    have hcloned : Session .closed [.clone "f" "g", .compile "f" "a[b]"]
        [("f", Filter.compile "a[b]"), ("g", Filter.compile "a[b]")] () :=
      .step hcompiled (show FilterCommand.perform .closed 0 _ _ = some (_, _) from rfl) rfl
    have hused : Session .closed [.apply "g" .null, .clone "f" "g", .compile "f" "a[b]"]
        [("f", Filter.compile "a[b]"), ("g", (Filter.compile "a[b]").used)] () :=
      .step hcloned (show FilterCommand.perform .closed 1 _ _ = some (_, _) from rfl) rfl
    exact .step hused (show FilterCommand.perform .closed 0 _ _ = some (_, _) from rfl) rfl
  obtain ⟨hfilters, -, hreports, -, -⟩ := answers_of_session hsession
  obtain ⟨-, hcached, -⟩ := hfilters "f" _ rfl
  have hfirst : Pristine history "f" := (hcached.resolve_right fun hused => absurd hused.1 nofun).2
  have hcopy : ¬Pristine history "h" := by
    obtain ⟨-, hcached, -⟩ := hfilters "h" _ rfl
    exact (hcached.resolve_left fun hunused => absurd hunused.1 nofun).2
  refine ⟨hsession, ⟨_, _, _, rfl, rfl, hfirst, ?_⟩, ⟨_, _, _, rfl, rfl, hcopy, ?_⟩⟩
  · exact (hreports (.display "f") 1 _ _ _ rfl rfl).1 "f" "a[b]" rfl hfirst rfl
  · refine (hreports (.display "h") 1 _ _ _ rfl rfl).2 ?_
    rintro _ rfl
    exact hcopy

end TreeProjection
