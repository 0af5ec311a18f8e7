import HeadUnitLink.CommandLine.Command
import HeadUnitLink.CommandLine.Plan
import HeadUnitLink.Report.Rows
import HeadUnitLink.Text.HexInput

/-!
# Listing a capture

The capture is given in hexadecimal digits or in a file.  Its frames are
listed, or its messages.  Damage does not stop the listing: it is reported
afterwards, and the exit code tells of it.
-/

namespace HeadUnitLink

namespace Capture

/-- The listing of a capture.  Neither payloads nor messages may have more than
`limit` bytes. -/
def listing (c : Capture) (limit : Nat) (format : Format) (reassemble : Bool) : String :=
  if reassemble then Report.messages format (c.messages limit)
  else Report.frames format c.frames

/-- How the listing of a capture ends. -/
def outcome (c : Capture) (limit : Nat) (format : Format) (reassemble : Bool) : Outcome :=
  let listed := Outcome.printing (c.listing limit format reassemble)
  let skipped := c.skipped
  if skipped = 0 then listed
  else
    { listed with
      code := .dataInvalid
      diagnostics := s!"warning: skipped {skipped} undecodable byte(s)\n" }

end Capture

namespace Plan

/-- Lists the capture that these bytes are. -/
def listCapture (limit : Nat) (format : Format) (reassemble : Bool) (bytes : Bytes) : Plan :=
  match Capture.ofSource limit [.bytes bytes] with
  | .error cause => fail (.captureStream cause)
  | .ok capture => done (capture.outcome limit format reassemble)

/-- Lists a capture. -/
def decode (config : Config) (format : Format) (input : CaptureInput) (reassemble : Bool) :
    Plan :=
  let list := listCapture config.maxMessageSize format reassemble
  match input with
  | .hex text => withResult ((Hex.ofInput text).mapError .captureText) list
  | .file path =>
    read path fun
      | .ok content => list content
      | .error .isDirectory => fail (.captureFile .isDirectory)
      | .error fault => fail (.unopened path fault)

end Plan

end HeadUnitLink
