/-!
# Log entries

What filtering reports about its own work. Each entry has a level, a fixed message and its fields
as text.
-/

namespace TreeProjection

inductive LogLevel where
  | trace
  | debug
deriving DecidableEq

inductive LogEntry where
  /-- A selector text goes on behind its end. -/
  | ignoredTrailing (trailing : String)
  | parsed (source : String) (attributes : Nat)
  /-- A compiled filter has parsed its source. -/
  | cached (depth : Nat)
  | evaluating
  | producerFailed (error : String)
  /-- A dual-view node was reached with a selector. -/
  | detailView
  /-- A dual-view node was reached without a selector. -/
  | summaryView
  | applying (filter : String)
deriving DecidableEq

namespace LogEntry

def level : LogEntry → LogLevel
  | .evaluating | .detailView | .summaryView => .trace
  | _ => .debug

def message : LogEntry → String
  | .ignoredTrailing _ => "ignoring selector text after unmatched ']'"
  | .parsed _ _ => "parsed selector"
  | .cached _ => "selector cached"
  | .evaluating => "evaluating lazy node"
  | .producerFailed _ => "lazy producer failed"
  | .detailView => "dual-view node selected, using detail view"
  | .summaryView => "dual-view node not selected, using summary view"
  | .applying _ => "applying selector"

def fields : LogEntry → List (String × String)
  | .ignoredTrailing trailing => [("trailing", trailing)]
  | .parsed source attributes => [("source", source), ("attributes", toString attributes)]
  | .cached depth => [("depth", toString depth)]
  | .producerFailed error => [("error", error)]
  | .applying filter => [("filter", filter)]
  | .evaluating | .detailView | .summaryView => []

end LogEntry

end TreeProjection
