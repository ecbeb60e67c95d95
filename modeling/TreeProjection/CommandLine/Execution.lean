import TreeProjection.CommandLine.Arguments
import TreeProjection.Filter
import TreeProjection.Json.Reader
import TreeProjection.Json.Outline
import TreeProjection.Value.Json

/-!
# Execution

`execute` filters a document and renders the result. The document is read before the selector is
parsed, so a text that is no document is refused without a word in the log.
-/

namespace TreeProjection.CommandLine

inductive ExecutionError where
  | invalidDocument (error : Json.DocumentError)
  | filterFailed (selector : String) (failure : Failure)
  | notPlain (error : ConversionError)

def ExecutionError.message : ExecutionError → String
  | .invalidDocument error => "invalid JSON input: " ++ error.message
  | .filterFailed selector failure => "filtering with `" ++ selector ++ "` failed: " ++ failure.text
  | .notPlain error => error.message

/-- What came out, and what was reported on the way. -/
structure Execution where
  outcome : Except ExecutionError String
  log : List LogEntry

/-- A document in the format and style that the options ask for. -/
def renderAs (palette : Json.Palette) (options : Options) (document : Json) : String :=
  match options.format with
  | .json => document.render (if options.compact then .compact else .pretty)
  | .text => document.renderOutline palette

/-- The output for a projected value, behind the selector if that is to be shown. -/
def present (palette : Json.Palette) (options : Options) (filter : Filter) (value : Value) :
    Except ExecutionError String :=
  match value.toJsonClosed.outcome with
  | .error error => .error (.notPlain error)
  | .ok document =>
      .ok ((if options.showSelector then filter.describe ++ "\n" else "") ++
        renderAs palette options document)

/-- Filters the document of a text by the selector of the options. -/
def execute (palette : Json.Palette) (options : Options) (input : String) : Execution :=
  match Json.parse input with
  | .error error => ⟨.error (.invalidDocument error), []⟩
  | .ok document =>
      let filter := Filter.compile options.selector
      let run := projectClosed (.select filter.selector) (.ofJson document)
      let outcome := match run.outcome with
        | .error failure => .error (.filterFailed filter.source failure)
        | .ok value => present palette options filter value
      ⟨outcome, filter.useLog ++ .applying filter.describe :: logOf run.trace⟩

end TreeProjection.CommandLine
