import TreeProjection.CommandLine.Environment
import TreeProjection.CommandLine.Execution

/-!
# The program

What the program answers, apart from reading and writing themselves: `UsageError.answer` if its
arguments start no work, and `Options.answer` once the content of its input is known. An answer that
reports an error has no output.
-/

namespace TreeProjection.CommandLine

inductive Origin where
  | standardInput
  | file (path : String)
deriving DecidableEq

/-- The path `-`, also with further steps that lead nowhere, stands for the standard input. -/
def Origin.ofPath (path : String) : Origin :=
  match path.toList with
  | '-' :: rest =>
      if rest.isEmpty || (rest.head? == some '/' &&
          (rest.splitOnP (· == '/')).all (fun step => step.isEmpty || step == ['.'])) then
        .standardInput
      else
        .file path
  | _ => .file path

def Options.origin (options : Options) : Origin :=
  match options.input with
  | none => .standardInput
  | some path => .ofPath path

inductive ReadFailure where
  | notFound
  | isDirectory
  /-- The path goes on behind a file. -/
  | notDirectory
  | nameTooLong
  /-- The path holds a character that ends the names of files. -/
  | nulInPath
  | notText
  | other (reason : String)
deriving DecidableEq

def ReadFailure.reason : ReadFailure → String
  | .notFound => "No such file or directory (os error 2)"
  | .isDirectory => "Is a directory (os error 21)"
  | .notDirectory => "Not a directory (os error 20)"
  | .nameTooLong => "File name too long (os error 36)"
  | .nulInPath => "file name contained an unexpected NUL byte"
  | .notText => "stream did not contain valid UTF-8"
  | .other reason => reason

/-- What makes a path useless before any file is looked for. -/
def pathFailure? (path : String) : Option ReadFailure :=
  if path.toList.contains '\x00' then some .nulInPath else none

def Origin.describe : Origin → String
  | .standardInput => "stdin"
  | .file path => path

def Origin.failureMessage (origin : Origin) (failure : ReadFailure) : String :=
  "failed to read " ++ origin.describe ++ ": " ++ failure.reason

def decodeText (bytes : ByteArray) : Except ReadFailure String :=
  match String.fromUTF8? bytes with
  | some text => .ok text
  | none => .error .notText

/-- The text at an origin, or the message for the failure to read it. -/
def readText (origin : Origin) (content : Except ReadFailure ByteArray) : Except String String :=
  match content.bind decodeText with
  | .ok text => .ok text
  | .error failure => .error (origin.failureMessage failure)

/-- What the program leaves behind: its exit code, its output, and the error that it reports. -/
structure Answer where
  exitCode : UInt8
  output : String
  message : Option String
deriving DecidableEq

def versionText : String := "tree-filter 0.3.0\n"

def helpText : String :=
  "Command-line interface for filtering JSON documents with tree-filter selectors\n" ++
  "\n" ++
  "Usage: tree-filter [OPTIONS] <SELECTOR>\n" ++
  "\n" ++
  "Arguments:\n" ++
  "  <SELECTOR>  Selector, e.g. `name,environments[id,last_deploy]`\n" ++
  "\n" ++
  "Options:\n" ++
  "  -i, --input <FILE>     JSON document to read; stdin when omitted or `-`\n" ++
  "      --format <FORMAT>  [default: json] [possible values: json, text]\n" ++
  "      --compact          Single-line JSON output\n" ++
  "      --show-selector    Print the parsed selector before the result\n" ++
  "      --no-color         Disable coloured text output\n" ++
  "  -v, --verbose...       Raise log verbosity (-v info, -vv debug, -vvv trace)\n" ++
  "  -h, --help             Print help\n" ++
  "  -V, --version          Print version\n"

/-- The answer to arguments that start no work. Only a wish for information is no error. -/
def UsageError.answer : UsageError → Answer
  | .versionWanted => ⟨0, versionText, none⟩
  | .helpWanted => ⟨0, helpText, none⟩
  | _ => ⟨2, "", none⟩

def Answer.brokenOff : Answer := ⟨101, "", none⟩

def Options.answer (environment : Environment) (options : Options)
    (content : Except ReadFailure ByteArray) : Answer :=
  let failed (message : String) : Answer :=
    ⟨1, "", if environment.reporting = .reported then some message else none⟩
  if environment.reporting = .brokenOff then .brokenOff
  else
    match readText options.origin content with
    | .error message => failed message
    | .ok text =>
        match (execute (environment.palette options) options text).outcome with
        | .error error => failed error.message
        | .ok output => ⟨0, output ++ "\n", none⟩

end TreeProjection.CommandLine
