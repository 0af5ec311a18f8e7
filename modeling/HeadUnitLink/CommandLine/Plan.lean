import HeadUnitLink.Bytes
import HeadUnitLink.CommandLine.Error

/-!
# Commands and files

A `Plan` is what a command has still to do: it ends with an outcome, asks for
the content of a file, or asks for a file to be written.  The answer decides
how it goes on, so a plan says in which order files are used and names no
file that it does not use.  Whoever runs a plan supplies the files.
-/

namespace HeadUnitLink

/-- What a finished command leaves behind. -/
structure Outcome where
  code : ExitCode
  /-- What is printed. -/
  output : Bytes
  /-- What is reported besides. -/
  diagnostics : String
  deriving DecidableEq, Repr

namespace Outcome

/-- Success with this to print. -/
def printing (text : String) : Outcome :=
  { code := .success, output := text.toUTF8.toList, diagnostics := "" }

/-- The end of a command that gives up. -/
def ofError (cause : CommandError) : Outcome :=
  { code := cause.exitCode, output := [], diagnostics := "error: " ++ cause.message ++ "\n" }

end Outcome

/-- How the writing of a file went. -/
inductive Saving where
  | saved
  | notCreated (fault : FileFault)
  | notWritten (fault : FileFault)
  deriving DecidableEq, Repr

/-- What a command has still to do. -/
inductive Plan where
  | done (outcome : Outcome)
  /-- Read a file. -/
  | read (path : String) (next : Except FileFault Bytes → Plan)
  /-- Write a file in place of any older one. -/
  | save (path : String) (content : Bytes) (next : Saving → Plan)

namespace Plan

/-- Give up. -/
def fail (cause : CommandError) : Plan := done (.ofError cause)

/-- Read a file and go on with its content. -/
def withFile (path : String) (next : Bytes → Plan) : Plan :=
  read path fun
    | .ok content => next content
    | .error fault => fail (.unreadable path fault)

/-- Go on with a result, if there is one. -/
def withResult {α : Type} (result : Except CommandError α) (next : α → Plan) : Plan :=
  match result with
  | .ok a => next a
  | .error cause => fail cause

end Plan

end HeadUnitLink
