import HeadUnitLink.CommandLine.Program

/-!
# The executable

Runs the program with the files of the system, the environment and the
standard streams.
-/

namespace HeadUnitLink

/-- The fault that a refusal of the system stands for.  The system numbers a
directory in the place of a file with 21, or with minus 21. -/
def faultOfSystem (e : IO.Error) : FileFault :=
  match e with
  | .noFileOrDirectory _ _ _ => .notFound
  | .permissionDenied _ _ _ => .permissionDenied
  | .inappropriateType _ number _ =>
    if number = 21 ∨ number = 0 - 21 then .isDirectory else .notDirectory
  | e => .system (toString e)

/-- Reads a file of the system. -/
def readSystemFile (path : String) : IO (Except FileFault Bytes) := do
  match ← (IO.FS.readBinFile path).toBaseIO with
  | .ok content => return .ok content.toList
  | .error e => return .error (faultOfSystem e)

/-- Writes a file of the system. -/
def saveSystemFile (path : String) (content : Bytes) : IO Saving := do
  match ← (IO.FS.Handle.mk path .write).toBaseIO with
  | .error e => return .notCreated (faultOfSystem e)
  | .ok handle =>
    let write : IO Unit := do
      handle.write (ByteArray.mk content.toArray)
      handle.flush
    match ← write.toBaseIO with
    | .error e => return .notWritten (faultOfSystem e)
    | .ok () => return .saved

/-- Runs a plan with the files of the system. -/
def runOnSystem : Plan → IO Outcome
  | .done outcome => return outcome
  | .read path next => do runOnSystem (next (← readSystemFile path))
  | .save path content next => do runOnSystem (next (← saveSystemFile path content))

/-- Runs the program with the arguments of the system, and gives its exit code. -/
def runProgram (arguments : List String) : IO UInt32 := do
  let stdout ← IO.getStdout
  let environment : Environment :=
    { settings := ← IO.getEnv "SDLINK_CONFIG", logLevel := ← IO.getEnv "SDLINK_LOG_LEVEL" }
  let format : Format := if ← stdout.isTty then .table else .json
  let build : Build := { target := "unknown", profile := "unknown" }
  let outcome ← runOnSystem (Program.plan { build, environment, format } arguments)
  stdout.write (ByteArray.mk outcome.output.toArray)
  stdout.flush
  IO.eprint outcome.diagnostics
  return UInt32.ofNat outcome.code.toNat

end HeadUnitLink

def main (arguments : List String) : IO UInt32 :=
  HeadUnitLink.runProgram arguments
