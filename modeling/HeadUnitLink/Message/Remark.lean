import HeadUnitLink.Message.Assembler

/-!
# What is odd about a frame

An assembler takes in more than a sound sender would send: a message that is
never finished, pieces out of order, more or fewer pieces than declared.  Such a
frame is handled like any other, and what is odd about it is remarked on in the
log.
-/

namespace HeadUnitLink

/-- Something to remark on.  The key tells whose frame it was. -/
inductive Remark where
  /-- A single frame cuts short a message of which `dropped` bytes have
  arrived. -/
  | interrupted (key : MessageKey) (dropped : Nat)
  /-- A first frame takes the place of a message that is not finished. -/
  | replaced (key : MessageKey)
  /-- A piece has another counter than the next one should have. -/
  | outOfSequence (key : MessageKey) (expected got : UInt8)
  /-- A message ends with another length or number of pieces than declared. -/
  | disagrees (key : MessageKey) (total : UInt32) (length : Nat) (count received : UInt32)
  deriving DecidableEq, Repr

/-- Does the remark say that the pieces of a message are not those that were
sent?  A message that another one puts an end to may have been sound so far. -/
def Remark.IsDamage : Remark → Prop
  | outOfSequence .. | disagrees .. => True
  | interrupted .. | replaced .. => False

namespace Assembler

/-- The remark on a piece that is not the next one.  The last piece has no
counter of its own and may always come. -/
def sequenceRemarks (buffer : PartialMessage) (header : Header) : List Remark :=
  if header.frameData ≠ terminalSequence ∧ header.frameData ≠ buffer.nextSequence then
    [.outOfSequence header.key buffer.nextSequence header.frameData]
  else []

/-- The remark on a message that has come to its end. -/
def endRemarks (buffer : PartialMessage) (header : Header) : List Remark :=
  if buffer.data.length ≠ buffer.total.toNat ∨ buffer.received ≠ buffer.count then
    [.disagrees header.key buffer.total buffer.data.length buffer.count buffer.received]
  else []

/-- What there is to remark on about a piece for this buffer.  A piece that is
too much is an error and no end. -/
def consecutiveRemarks (limit : Nat) (buffer : PartialMessage) (frame : Frame) : List Remark :=
  let joined := { buffer with
    data := buffer.data ++ frame.payload, received := buffer.received + 1 }
  sequenceRemarks buffer frame.header ++
    if joined.data.length ≤ limit ∧ frame.header.frameData = terminalSequence then
      endRemarks joined frame.header
    else []

/-- What there is to remark on about a frame. -/
def remarks (a : Assembler) (frame : Frame) : List Remark :=
  let header := frame.header
  match a.get? header.key with
  | none => []
  | some buffer =>
    match header.frameType with
    | .control => []
    | .single => [.interrupted header.key buffer.data.length]
    | .first =>
      if (FirstPayload.decode? frame.payload).isSome then [.replaced header.key] else []
    | .consecutive => consecutiveRemarks a.maxMessageSize buffer frame

end Assembler

end HeadUnitLink
