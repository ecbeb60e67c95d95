import TreeProjection.Selector.Text
import TreeProjection.Projection

/-!
# Compiled filters

A filter is a selector text that is parsed at its first use and then kept parsed. Only that first
use reports the parse. A copy takes over what has been parsed so far and goes its own way from
there.

`FilterCommand.perform` works on a table of named filters: every filter in it answers as a freshly
parsed one would, whatever was done before.
-/

namespace TreeProjection

/-- What parsing a selector text reports. -/
def Selector.parseLog (text : String) : List LogEntry :=
  let trailing := Selector.trailing text
  (if trailing = "" then [] else [.ignoredTrailing trailing]) ++
    [.parsed text (Selector.parse text).size]

/-- A selector text and, once it has been used, the selector that it stands for. -/
structure Filter where
  source : String
  cached : Option Selector

namespace Filter

def compile (source : String) : Filter := ⟨source, none⟩

/-- The selector of a filter, parsed if it has not been. -/
def selector (filter : Filter) : Selector := filter.cached.getD (Selector.parse filter.source)

/-- The filter after a use. -/
def used (filter : Filter) : Filter := { filter with cached := some filter.selector }

/-- What a use reports before anything else. -/
def useLog (filter : Filter) : List LogEntry :=
  match filter.cached with
  | some _ => []
  | none =>
      Selector.parseLog filter.source ++ [.cached (Selector.parse filter.source).depth]

def describe (filter : Filter) : String := "<TreeFilter " ++ filter.selector.render ++ ">"

variable {σ : Type}

/-- The projection of a value by the filter's selector. -/
def run (world : World σ) (fuel : Nat) (filter : Filter) (value : Value) :
    Eval σ Failure Value := do
  Eval.logAll filter.useLog
  select world fuel filter.selector value

end Filter

inductive FilterCommand where
  | compile (name source : String)
  | clone (name copy : String)
  | source (name : String)
  | display (name : String)
  | apply (name : String) (value : Value)

inductive FilterAnswer where
  | done
  | source (text : String)
  | selector (selector : Selector)
  | value (value : Value)

/-- Performs a command; there is no answer if it names no filter. The table afterwards does not
depend on how the command ends. -/
def FilterCommand.perform {σ : Type} (world : World σ) (fuel : Nat) (filters : Table Filter) :
    FilterCommand → Option (Table Filter × Eval σ Failure FilterAnswer)
  | .compile name text =>
      some (Table.insert filters name (Filter.compile text), return .done)
  | .clone name copy => do
      let filter ← Table.get? filters name
      return (Table.insert filters copy filter, return .done)
  | .source name => do
      let filter ← Table.get? filters name
      return (filters, return .source filter.source)
  | .display name => do
      let filter ← Table.get? filters name
      return (Table.insert filters name filter.used, do
        Eval.logAll filter.useLog
        return .selector filter.selector)
  | .apply name value => do
      let filter ← Table.get? filters name
      return (Table.insert filters name filter.used, do
        return .value (← filter.run world fuel value))

end TreeProjection
