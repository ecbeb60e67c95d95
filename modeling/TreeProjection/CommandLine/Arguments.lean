/-!
# Arguments

The program takes one selector and some options. Arguments are read from left to right. A value
that follows its option as an argument of its own is looked at when the next argument has been
recognised, so an argument that is not known is reported first; a value attached to its option is
looked at at once. A missing selector is reported last.
-/

namespace TreeProjection.CommandLine

inductive OutputFormat where
  | json
  | text
deriving DecidableEq

structure Options where
  selector : String
  input : Option String
  format : OutputFormat
  compact : Bool
  showSelector : Bool
  noColour : Bool
  verbosity : Nat
deriving DecidableEq

inductive UsageError where
  | unknownArgument
  | missingSelector
  | invalidValue
  | repeatedOption
  | unexpectedValue
  | helpWanted
  | versionWanted
deriving DecidableEq

structure Settings where
  selector : Option String
  input : Option String
  format : Option OutputFormat
  compact : Bool
  showSelector : Bool
  noColour : Bool
  verbosity : Nat

def Settings.initial : Settings := ⟨none, none, none, false, false, false, 0⟩

inductive Switch where
  | compact
  | showSelector
  | noColour
  | verbose
  | help
  | version

inductive ValueOption where
  | input
  | format

inductive OptionName where
  | switch (switch : Switch)
  | valued (option : ValueOption)

/-- The option with a long name. Names are not abbreviated. -/
def OptionName.ofLong? (name : List Char) : Option OptionName :=
  match String.ofList name with
  | "input" => some (.valued .input)
  | "format" => some (.valued .format)
  | "compact" => some (.switch .compact)
  | "show-selector" => some (.switch .showSelector)
  | "no-color" => some (.switch .noColour)
  | "verbose" => some (.switch .verbose)
  | "help" => some (.switch .help)
  | "version" => some (.switch .version)
  | _ => none

def OptionName.ofShort? : Char → Option OptionName
  | 'i' => some (.valued .input)
  | 'v' => some (.switch .verbose)
  | 'h' => some (.switch .help)
  | 'V' => some (.switch .version)
  | _ => none

def OutputFormat.ofName? : String → Option OutputFormat
  | "json" => some .json
  | "text" => some .text
  | _ => none

/-- The most often that a repeated `verbose` counts. -/
def greatestVerbosity : Nat := 255

namespace Settings

/-- Only `verbose` may be repeated. -/
def turnOn (settings : Settings) : Switch → Except UsageError Settings
  | .compact =>
      if settings.compact then .error .repeatedOption else .ok { settings with compact := true }
  | .showSelector =>
      if settings.showSelector then .error .repeatedOption
      else .ok { settings with showSelector := true }
  | .noColour =>
      if settings.noColour then .error .repeatedOption else .ok { settings with noColour := true }
  | .verbose => .ok { settings with verbosity := min (settings.verbosity + 1) greatestVerbosity }
  | .help => .error .helpWanted
  | .version => .error .versionWanted

/-- A path must not be empty, and a format must be known. -/
def set (settings : Settings) (value : String) : ValueOption → Except UsageError Settings
  | .input =>
      if settings.input.isSome then .error .repeatedOption
      else if value = "" then .error .invalidValue
      else .ok { settings with input := some value }
  | .format =>
      if settings.format.isSome then .error .repeatedOption
      else
        match OutputFormat.ofName? value with
        | none => .error .invalidValue
        | some format => .ok { settings with format := some format }

def finish (settings : Settings) : Except UsageError Options :=
  match settings.selector with
  | none => .error .missingSelector
  | some selector => .ok {
      selector
      input := settings.input
      format := settings.format.getD .json
      compact := settings.compact
      showSelector := settings.showSelector
      noColour := settings.noColour
      verbosity := settings.verbosity }

end Settings

inductive Pending where
  | nothing
  /-- The option has no value yet. -/
  | value (option : ValueOption)
  /-- The value has not been looked at yet. -/
  | check (option : ValueOption) (value : String)

structure Progress where
  settings : Settings
  pending : Pending

namespace Progress

def settle (progress : Progress) : Except UsageError Settings :=
  match progress.pending with
  | .nothing => .ok progress.settings
  | .value _ => .error .invalidValue
  | .check option value => progress.settings.set value option

def turnOn (progress : Progress) (switch : Switch) : Except UsageError Progress := do
  return ⟨← (← progress.settle).turnOn switch, .nothing⟩

def attach (progress : Progress) (option : ValueOption) (value : List Char) :
    Except UsageError Progress := do
  return ⟨← (← progress.settle).set (String.ofList value) option, .nothing⟩

def await (progress : Progress) (option : ValueOption) : Except UsageError Progress := do
  return ⟨← progress.settle, .value option⟩

def position (progress : Progress) (argument : String) : Except UsageError Progress :=
  if progress.settings.selector.isSome then
    .error .unknownArgument
  else do
    return ⟨{ (← progress.settle) with selector := some argument }, .nothing⟩

/-- Takes an argument that is no option: a value that is waited for, or the selector. -/
def plain (progress : Progress) (argument : String) : Except UsageError Progress :=
  match progress.pending with
  | .value option => .ok ⟨progress.settings, .check option argument⟩
  | _ => progress.position argument

/-- Takes what follows `--`: a long name, and a value behind the first equals sign. -/
def long (progress : Progress) (text : List Char) : Except UsageError Progress :=
  let name := text.takeWhile (· ≠ '=')
  match OptionName.ofLong? name, text.drop name.length with
  | none, _ => .error .unknownArgument
  | some (.switch switch), [] => progress.turnOn switch
  | some (.switch _), _ :: _ => .error .unexpectedValue
  | some (.valued option), [] => progress.await option
  | some (.valued option), _ :: value => progress.attach option value

/-- Takes what follows `-`: short names, the last of which may have its value attached. -/
def short (progress : Progress) : List Char → Except UsageError Progress
  | [] => .ok progress
  | c :: rest =>
      match OptionName.ofShort? c, rest with
      | none, _ => .error .unknownArgument
      | some (.switch switch), _ => do (← progress.turnOn switch).short rest
      | some (.valued option), [] => progress.await option
      | some (.valued option), '=' :: value => progress.attach option value
      | some (.valued option), value => progress.attach option value

/-- Takes the arguments in order. Behind `--` no argument is an option. -/
def readAll (ended : Bool) (progress : Progress) : List String → Except UsageError Progress
  | [] => .ok progress
  | argument :: rest =>
      if ended then do
        (← progress.position argument).readAll true rest
      else
        match argument.toList with
        | ['-', '-'] => progress.readAll true rest
        | '-' :: '-' :: text => do (← progress.long text).readAll false rest
        | '-' :: c :: text => do (← progress.short (c :: text)).readAll false rest
        | _ => do (← progress.plain argument).readAll false rest

end Progress

def parseArguments (arguments : List String) : Except UsageError Options := do
  let progress ← Progress.readAll false ⟨.initial, .nothing⟩ arguments
  (← progress.settle).finish

end TreeProjection.CommandLine
