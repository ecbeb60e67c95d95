import TreeProjection.CommandLine.Program

/-!
# The command line

Reads the input that the arguments name and leaves the rest to the library.
-/

namespace TreeProjection.CommandLine

def readEnvironment : IO Environment := do
  let settings ← Environment.settingNames.mapM fun name => do
    return (← IO.getEnv name).map fun value => (name, value)
  return ⟨settings.filterMap id, ← (← IO.getStdout).isTty⟩

/-- The number of an error of the system, which some of its calls give with a minus sign. -/
def systemNumber (code : UInt32) : Nat := min code.toNat (0 - code).toNat

def readFailure (error : IO.Error) : ReadFailure :=
  match error with
  | .noFileOrDirectory .. => .notFound
  | .inappropriateType _ code _ => if systemNumber code = 20 then .notDirectory else .isDirectory
  | .invalidArgument _ code _ =>
      if systemNumber code = 36 then .nameTooLong else .other (toString error)
  | other => .other (toString other)

def readFile (path : String) : IO (Except ReadFailure ByteArray) := do
  if let some failure := pathFailure? path then
    return .error failure
  try
    return .ok (← IO.FS.readBinFile path)
  catch error =>
    return .error (readFailure error)

partial def readStream (stream : IO.FS.Stream) (sofar : ByteArray) : IO ByteArray := do
  let more ← stream.read 65536
  if more.isEmpty then return sofar else readStream stream (sofar ++ more)

def readContent : Origin → IO (Except ReadFailure ByteArray)
  | .standardInput => do return .ok (← readStream (← IO.getStdin) .empty)
  | .file path => readFile path

/-- Reads what the arguments ask for, if they ask for anything. -/
def answerTo (arguments : List String) : IO Answer := do
  match parseArguments arguments with
  | .error error => return error.answer
  | .ok options => return options.answer (← readEnvironment) (← readContent options.origin)

end TreeProjection.CommandLine

open TreeProjection.CommandLine in
def main (arguments : List String) : IO UInt32 := do
  let answer ← answerTo arguments
  (← IO.getStdout).putStr answer.output
  if let some message := answer.message then
    (← IO.getStderr).putStrLn ("ERROR tree-filter failed: " ++ message)
  return answer.exitCode.toUInt32
