import HeadUnitLink.Message.Basic
import HeadUnitLink.Session.Control

/-!
# What an engine tells the application

An engine answers requests directly.  Everything else reaches the application
as a notice: messages, control events, errors in what was received, and the
sign that a heartbeat timer may start again.
-/

namespace HeadUnitLink

/-- Where an error in what was received was found. -/
inductive Stage where
  /-- A frame was stepped over because its header is malformed. -/
  | malformedHeader
  /-- The start of the next frame is searched for. -/
  | unreadableHeader
  /-- A single frame cut a fragmented message short. -/
  | interruption
  /-- A data frame does not fit the messages under way. -/
  | reassembly
  /-- A control frame reports or is a refusal. -/
  | control
  deriving DecidableEq, Repr

/-- The name of a stage. -/
def Stage.message : Stage → String
  | malformedHeader => "malformed frame header"
  | unreadableHeader => "unreadable frame header"
  | interruption => "reassembly interrupted"
  | reassembly => "message reassembly failed"
  | control => "control frame rejected"

/-- One thing that an engine tells the application. -/
inductive Notice where
  /-- A message has arrived. -/
  | message (m : Message)
  /-- A control frame has arrived. -/
  | control (event : ControlEvent)
  /-- Frames were queued on a session, so its heartbeat timer may start
  again. -/
  | resetHeartbeat (session : UInt8)
  /-- Something is wrong with what was received. -/
  | error (stage : Stage) (cause : LinkError)
  deriving DecidableEq, Repr

end HeadUnitLink
