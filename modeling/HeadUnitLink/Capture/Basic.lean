import HeadUnitLink.Message.Assembler
import HeadUnitLink.Stream.Event

/-!
# Captures

A capture is a recorded stream.  `Capture.ofSource` reads it to its end: every
frame with its number and the place at which it starts, how many bytes were
stepped over, and how many bytes are left at the end as an incomplete frame.
`Capture.messages` puts the messages of the capture together.

The number of a frame counts the frames before it.  Its place is the sum of what
came before it, frames and skipped bytes.
-/

namespace HeadUnitLink

/-- A frame of a capture. -/
structure PlacedFrame where
  /-- The number of frames before the frame. -/
  index : Nat
  /-- The number of bytes before the frame. -/
  offset : Nat
  frame : Frame
  deriving DecidableEq, Repr

/-- A message of a capture. -/
structure CapturedMessage where
  message : Message
  /-- Has the message cut short another one? -/
  interrupting : Bool
  deriving DecidableEq, Repr

/-- What a recorded stream holds. -/
structure Capture where
  frames : List PlacedFrame
  /-- The number of bytes that were stepped over. -/
  skipped : Nat
  /-- The number of bytes of an incomplete frame at the end. -/
  trailing : Nat
  deriving DecidableEq, Repr

namespace Capture

/-- The frames among events that start at an offset, behind `index` other
frames. -/
def place (index offset : Nat) : List StreamEvent → List PlacedFrame
  | [] => []
  | .frame frame :: rest =>
    { index, offset, frame } :: place (index + 1) (offset + frame.wireSize) rest
  | event :: rest => place index (offset + event.size) rest

/-- The number of bytes that events step over. -/
def skippedBytes : List StreamEvent → Nat
  | [] => 0
  | event :: rest => event.skipped + skippedBytes rest

/-- Reads a stream of frames with at most `limit` payload bytes.  The first
failed read ends it. -/
def ofSource (limit : Nat) (source : Source) : Except IoFault Capture :=
  let (events, last) := (FrameReader.ofSource limit source).events
  match events.findSome? StreamEvent.fault? with
  | some cause => .error cause
  | none =>
    .ok { frames := place 0 0 events, skipped := skippedBytes events
          trailing := last.buffer.length }

/-- The messages that frames complete, in order. -/
def reassemble (a : Assembler) : List Frame → List CapturedMessage
  | [] => []
  | frame :: rest =>
    match a.handle frame with
    | (.ok (.message message), a) => { message, interrupting := false } :: reassemble a rest
    | (.ok (.interrupted message _), a) => { message, interrupting := true } :: reassemble a rest
    | (_, a) => reassemble a rest

/-- The messages of a capture, of at most `limit` bytes each. -/
def messages (c : Capture) (limit : Nat) : List CapturedMessage :=
  reassemble (Assembler.empty limit) (c.frames.map PlacedFrame.frame)

end Capture

end HeadUnitLink
