import HeadUnitLink.Config.Basic
import HeadUnitLink.Engine.Notice
import HeadUnitLink.Message.Assembler

/-!
# The receiving side of an engine

Received bytes come in chunks of any size.  A `Receiver` keeps the bytes that
are not yet a frame and works off every whole frame:

* a data frame goes to the assembler;
* a control frame updates the registry, and the start or end of a session or
  service gives up the messages under way on it;
* a malformed frame is stepped over as a whole if its declared length is
  within bounds, including bytes that have not arrived yet;
* after any other damage one byte at a time is stepped over until a frame can
  be read, and one notice is given for the whole search.

`Receiver.step?` is one such piece of work and `Receiver.receive` repeats it
for as long as it can be done.
-/

namespace HeadUnitLink

/-- Everything that received bytes can change. -/
structure Receiver where
  /-- The bytes that are not yet a frame. -/
  buffer : Bytes
  /-- How many bytes of a skipped frame have still to arrive. -/
  discard : Nat
  /-- Is the start of the next frame being searched for? -/
  resyncing : Bool
  assembler : Assembler
  registry : Registry
  /-- The version of the control frames that are sent. -/
  version : UInt8
  deriving DecidableEq, Repr

namespace Receiver

/-- A receiver that has received nothing. -/
def ofConfig (config : Config) : Receiver :=
  { buffer := [], discard := 0, resyncing := false
    assembler := Assembler.empty config.maxMessageSize, registry := Registry.empty
    version := minVersion }

/-! ## Frames -/

/-- A version brought into the range that is spoken. -/
def clampVersion (config : Config) (version : UInt8) : UInt8 :=
  if version < minVersion then minVersion
  else if config.maxVersion < version then config.maxVersion
  else version

/-- What an event changes besides the registry: a session or service that
starts or ends gives up its messages under way, and a started session sets the
version. -/
def follow (config : Config) (r : Receiver) : ControlEvent → Receiver
  | .sessionStarted session version _ =>
    { r with
      assembler := (r.assembler.discardSession session.id).2
      version := clampVersion config version }
  | .serviceEnded .rpc session _ =>
    { r with assembler := (r.assembler.discardSession session).2 }
  | .serviceEnded service session _ =>
    { r with assembler := (r.assembler.discard { session, service }).2 }
  | _ => r

/-- Takes in a control frame. -/
def routeControl (config : Config) (r : Receiver) (frame : Frame) : Receiver × List Notice :=
  match ControlEvent.ofFrame frame r.registry with
  | (.error e, registry) => ({ r with registry }, [.error .control e])
  | (.ok .ignored, registry) => ({ r with registry }, [])
  | (.ok event, registry) => (follow config { r with registry } event, [.control event])

/-- Takes in a frame. -/
def route (config : Config) (r : Receiver) (frame : Frame) : Receiver × List Notice :=
  match r.assembler.handle frame with
  | (.error e, assembler) => ({ r with assembler }, [.error .reassembly e])
  | (.ok (.message m), assembler) => ({ r with assembler }, [.message m])
  | (.ok (.interrupted m dropped), assembler) =>
    ({ r with assembler },
      [.error .interruption (.reassemblyInterrupted m.session m.service dropped), .message m])
  | (.ok (.control frame), assembler) => routeControl config { r with assembler } frame
  | (.ok .pending, assembler) => ({ r with assembler }, [])

/-! ## Damage -/

/-- How far a damaged frame reaches, if it can be stepped over as a whole. -/
def skipLength? (config : Config) (buffer : Bytes) : FrameError → Option Nat
  | .malformedHeader _ =>
    match Frame.declaredLength? buffer with
    | some length => if length ≤ Frame.skipLimit config.maxMessageSize then some length else none
    | none => none
  | _ => none

/-- Steps over a whole frame, of which some bytes may have still to arrive. -/
def skipFrame (r : Receiver) (length : Nat) : Receiver :=
  { r with
    buffer := r.buffer.drop length
    discard := if length ≤ r.buffer.length then r.discard else length - r.buffer.length
    resyncing := false }

/-- Steps over what could not be decoded. -/
def resync (config : Config) (r : Receiver) (e : FrameError) : Receiver × List Notice :=
  match skipLength? config r.buffer e with
  | some length => (r.skipFrame length, [.error .malformedHeader (.frame e)])
  | none =>
    ({ r with buffer := r.buffer.drop 1, resyncing := true },
      if r.resyncing then [] else [.error .unreadableHeader (.frame e)])

/-! ## The loop -/

/-- One piece of work on the buffer; `none` when more bytes are needed. -/
def step? (config : Config) (r : Receiver) : Option (Receiver × List Notice) :=
  match Frame.takeFrom config.maxMessageSize r.buffer with
  | (.ok none, _) => none
  | (.ok (some frame), buffer) =>
    some (route config { r with buffer, resyncing := false } frame)
  | (.error e, buffer) => some (resync config { r with buffer } e)

theorem step?_eq (config : Config) (r : Receiver) :
    r.step? config =
      match Frame.decode config.maxMessageSize r.buffer with
      | .ok none => none
      | .ok (some (frame, rest)) =>
        some (route config { r with buffer := rest, resyncing := false } frame)
      | .error e => some (resync config r e) := by
  unfold step?
  rw [Frame.takeFrom_eq]
  rcases Frame.decode config.maxMessageSize r.buffer with e | _ | ⟨frame, rest⟩
  · rfl
  · rfl
  · rfl

/-- A control frame leaves the buffer alone. -/
theorem buffer_routeControl (config : Config) (r : Receiver) (frame : Frame) :
    (routeControl config r frame).1.buffer = r.buffer := by
  unfold routeControl
  split
  · rfl
  · rfl
  · unfold follow
    split <;> rfl

/-- A frame that is taken in leaves the buffer alone. -/
theorem buffer_route (config : Config) (r : Receiver) (frame : Frame) :
    (route config r frame).1.buffer = r.buffer := by
  unfold route
  split
  · rfl
  · rfl
  · rfl
  · exact buffer_routeControl config _ _
  · rfl

/-- A frame that is stepped over is not empty. -/
theorem pos_of_skipLength? {config : Config} {buffer : Bytes} {e : FrameError} {length : Nat}
    (h : skipLength? config buffer e = some length) : 0 < length := by
  unfold skipLength? at h
  split at h
  · split at h
    · rename_i declared hdeclared
      split at h
      · obtain rfl := Option.some.inj h
        exact Frame.declaredLength?_pos hdeclared
      · exact absurd h (by simp)
    · exact absurd h (by simp)
  · exact absurd h (by simp)

/-- Every piece of work uses up bytes. -/
theorem length_buffer_step?_lt {config : Config} {r : Receiver}
    {next : Receiver × List Notice} (h : r.step? config = some next) :
    next.1.buffer.length < r.buffer.length := by
  rw [step?_eq] at h
  split at h
  · exact absurd h (by simp)
  · rename_i frame rest hdecode
    obtain rfl := Option.some.inj h
    rw [buffer_route]
    exact Frame.length_lt_of_decode hdecode
  · rename_i e hdecode
    have hpos := Frame.length_pos_of_decode_error hdecode
    obtain rfl := Option.some.inj h
    unfold resync
    split
    · rename_i length hskip
      have := pos_of_skipLength? hskip
      simp only [skipFrame, List.length_drop]
      omega
    · simp only [List.length_drop]
      omega

/-- Works until more bytes are needed; `notices` are those given before, last
first. -/
def drainOnto (config : Config) (notices : List Notice) (r : Receiver) :
    Receiver × List Notice :=
  match _h : r.step? config with
  | none => (r, notices)
  | some next => drainOnto config (next.2.reverse ++ notices) next.1
termination_by r.buffer.length
decreasing_by exact length_buffer_step?_lt _h

/-- Works until more bytes are needed. -/
def drain (config : Config) (r : Receiver) : Receiver × List Notice :=
  let (r, notices) := r.drainOnto config []
  (r, notices.reverse)

/-- Adds a chunk to the buffer, less the bytes of a skipped frame. -/
def feed (r : Receiver) (chunk : Bytes) : Receiver :=
  { r with buffer := r.buffer ++ chunk.drop r.discard, discard := r.discard - chunk.length }

/-- Takes in a chunk of received bytes. -/
def receive (config : Config) (r : Receiver) (chunk : Bytes) : Receiver × List Notice :=
  (r.feed chunk).drain config

end Receiver

end HeadUnitLink
