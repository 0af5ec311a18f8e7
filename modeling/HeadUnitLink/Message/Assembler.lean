import HeadUnitLink.Message.Basic
import HeadUnitLink.Message.Error
import HeadUnitLink.Wire.Role

/-!
# From frames back to messages

An `Assembler` keeps one open buffer for every session and service on which a
fragmented message is under way.

* A first frame opens the buffer of its key, in place of any older one.
* A consecutive frame adds to the buffer; the terminal one closes it and
  yields the message, with the id and version of the first frame.
* A single frame yields its message and closes the buffer of its key.
* A control frame passes through.

The declared length and count, and the counters of the pieces, are kept but
not enforced: what is yielded is what has arrived.  The number of buffered
bytes is limited.
-/

namespace HeadUnitLink

/-- What a fragmented message is told apart by. -/
structure MessageKey where
  session : UInt8
  service : Service
  deriving DecidableEq, Repr

/-- The key that a header belongs to. -/
def Header.key (h : Header) : MessageKey :=
  { session := h.session, service := h.service }

/-- A fragmented message under way. -/
structure PartialMessage where
  /-- The version of the first frame. -/
  version : UInt8
  /-- The message id of the first frame. -/
  messageId : UInt32
  /-- The length that the first frame declares. -/
  total : UInt32
  /-- The number of pieces that the first frame declares. -/
  count : UInt32
  /-- The number of pieces so far, a 32-bit word. -/
  received : UInt32
  /-- The counter that the next piece should have. -/
  nextSequence : UInt8
  /-- The pieces so far, one after the other. -/
  data : Bytes
  deriving DecidableEq, Repr

/-- What one frame brings about. -/
inductive Assembled where
  /-- A message is complete. -/
  | message (m : Message)
  /-- A single frame is complete and has cut short a message of which
  `dropped` bytes had arrived. -/
  | interrupted (m : Message) (dropped : Nat)
  /-- A control frame. -/
  | control (frame : Frame)
  /-- Nothing yet. -/
  | pending
  deriving DecidableEq, Repr

/-- The fragmented messages under way. -/
structure Assembler where
  /-- The open buffers, at most one for a key. -/
  buffers : List (MessageKey × PartialMessage)
  /-- The most bytes that a buffer may hold. -/
  maxMessageSize : Nat
  deriving DecidableEq, Repr

namespace Assembler

/-- No message is under way. -/
def empty (maxMessageSize : Nat) : Assembler :=
  { buffers := [], maxMessageSize }

/-- The open buffer of a key. -/
def get? (a : Assembler) (key : MessageKey) : Option PartialMessage :=
  a.buffers.lookup key

/-- Closes the buffer of a key. -/
def erase (a : Assembler) (key : MessageKey) : Assembler :=
  { a with buffers := a.buffers.filter fun entry => entry.1 ≠ key }

/-- Sets the buffer of a key. -/
def insert (a : Assembler) (key : MessageKey) (partialMessage : PartialMessage) : Assembler :=
  { a with buffers := (key, partialMessage) :: (a.erase key).buffers }

/-- The number of open buffers. -/
def openCount (a : Assembler) : Nat := a.buffers.length

/-- Is a message under way on this session and service? -/
def isAssembling (a : Assembler) (key : MessageKey) : Bool := (a.get? key).isSome

/-! ## Frames -/

/-- The message that a frame header and its data make. -/
def messageOf (header : Header) (messageId : UInt32) (data : Bytes) : Message :=
  { Message.plain header.service header.session header.version data with messageId }

/-- A single frame. -/
def single (a : Assembler) (frame : Frame) : Assembled × Assembler :=
  let header := frame.header
  let m := messageOf header header.messageId frame.payload
  match a.get? header.key with
  | some stale => (.interrupted m stale.data.length, a.erase header.key)
  | none => (.message m, a)

/-- A first frame.  An older buffer of the key is closed once the announcement
can be read. -/
def first (a : Assembler) (frame : Frame) : Except LinkError Assembled × Assembler :=
  let header := frame.header
  match FirstPayload.decode? frame.payload with
  | none => (.error (.malformedFirstFrame frame.payload.length), a)
  | some (total, count) =>
    if a.maxMessageSize < total.toNat then
      (.error (.messageTooLarge total.toNat a.maxMessageSize), a.erase header.key)
    else
      (.ok .pending, a.insert header.key {
        version := header.version, messageId := header.messageId
        total, count, received := 0, nextSequence := 1, data := [] })

/-- The counter that follows a counter: 255 is followed by 1. -/
def sequenceAfter (sequence : UInt8) : UInt8 :=
  UInt8.ofNat (sequence.toNat % 255 + 1)

/-- A consecutive frame. -/
def consecutive (a : Assembler) (frame : Frame) : Except LinkError Assembled × Assembler :=
  let header := frame.header
  match a.get? header.key with
  | none => (.error (.sequenceMismatch header.session header.service), a)
  | some buffer =>
    let size := buffer.data.length + frame.payload.length
    if a.maxMessageSize < size then
      (.error (.messageTooLarge size a.maxMessageSize), a.erase header.key)
    else
      let data := buffer.data ++ frame.payload
      if header.frameData ≠ terminalSequence then
        (.ok .pending, a.insert header.key { buffer with
          data, received := buffer.received + 1
          nextSequence := sequenceAfter header.frameData })
      else
        let m := messageOf header buffer.messageId data
        (.ok (.message { m with version := buffer.version }), a.erase header.key)

/-- Takes in one frame. -/
def handle (a : Assembler) (frame : Frame) : Except LinkError Assembled × Assembler :=
  match frame.header.frameType with
  | .control => (.ok (.control frame), a)
  | .single =>
    let (result, a) := a.single frame
    (.ok result, a)
  | .first => a.first frame
  | .consecutive => a.consecutive frame

/-! ## Giving messages up -/

/-- Closes every buffer of a session, and says how many there were. -/
def discardSession (a : Assembler) (session : UInt8) : Nat × Assembler :=
  let kept := a.buffers.filter fun entry => entry.1.session ≠ session
  (a.buffers.length - kept.length, { a with buffers := kept })

/-- Closes the buffer of a key, and says how many bytes it held. -/
def discard (a : Assembler) (key : MessageKey) : Option Nat × Assembler :=
  ((a.get? key).map fun buffer => buffer.data.length, a.erase key)

end Assembler

end HeadUnitLink
