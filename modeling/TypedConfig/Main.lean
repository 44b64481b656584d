import TypedConfig.CommandLine.Commands

/-!
The program: it reads the arguments, the standard input and the files that they name, and writes
the outcome.
-/

namespace TypedConfig.CommandLine

def filesOf : Command → List String
  | .run (.parse file) _ _ => file.toList
  | .run (.check files) _ _ => files
  | _ => []

def readsStandard : Command → Bool
  | .run (.parse file) _ _ => file.isNone
  | .run (.check files) _ _ => files.isEmpty
  | _ => false

/-- Why the system did not give a file. -/
def readFault : IO.Error → ReadFault
  | .noFileOrDirectory .. => .notFound
  | .inappropriateType .. => .isDirectory
  | error => .other (toString error)

def readFile (name : String) : IO (String × Except ReadFault ByteArray) := do
  try
    let content ← IO.FS.readBinFile name
    pure (name, .ok content)
  catch error => pure (name, .error (readFault error))

/-- Runs the program on its arguments and gives the exit code. -/
def runProgram (arguments : List String) : IO UInt32 := do
  let command := Command.ofArguments arguments
  let standard ← if readsStandard command then (← IO.getStdin).readBinToEnd else pure .empty
  let files ← (filesOf command).mapM readFile
  let file name := (files.lookup name).getD (.error .notFound)
  let outcome := command.outcome ⟨standard, file⟩
  (← IO.getStdout).putStr outcome.output
  (← IO.getStderr).putStr outcome.errors
  pure (UInt32.ofNat outcome.code)

end TypedConfig.CommandLine

def main (arguments : List String) : IO UInt32 :=
  TypedConfig.CommandLine.runProgram arguments
