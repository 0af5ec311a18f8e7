import HeadUnitLink.Message.Basic
import HeadUnitLink.Message.Error
import HeadUnitLink.Wire.Role

/-!
# From a message to the frames that carry it

A message that fits the budget of one frame travels as a single frame.  A
longer one is announced by a first frame, which declares its length and the
number of pieces, and follows in consecutive frames.  All pieces but the last
fill the budget, and the last one is marked by the counter 0.

* `pieces` cuts a byte string; `Message.consecutives` numbers the pieces.
* `Message.fragment` is the whole rule.
-/

namespace HeadUnitLink

/-- The byte string cut into pieces of `budget` bytes, the last one shorter if
need be; a budget of 0 counts as 1. -/
def pieces (budget : Nat) : Bytes → List Bytes
  | [] => []
  | b :: rest =>
    (b :: rest.take (budget - 1)) :: pieces budget (rest.drop (budget - 1))
termination_by bytes => bytes.length
decreasing_by
  simp only [List.length_drop, List.length_cons]
  omega

namespace Message

/-- The most bytes that a first frame can declare. -/
def maxFragmentedSize : Nat := 0xffffffff

/-- The frame that carries one piece of a message. -/
def consecutiveFrame (m : Message) (messageId : UInt32) (sequence : UInt8) (piece : Bytes) :
    Frame :=
  Frame.stamped (Header.consecutive m.service m.session 0 sequence messageId m.version) piece

/-- The frames that carry these pieces, counted from `index`; the last one has
the terminal counter. -/
def consecutives (m : Message) (messageId : UInt32) (index : Nat) : List Bytes → List Frame
  | [] => []
  | [last] => [m.consecutiveFrame messageId terminalSequence last]
  | piece :: rest =>
    m.consecutiveFrame messageId (sequenceNumber index) piece ::
      m.consecutives messageId (index + 1) rest

/-- The frame that carries a whole message. -/
def singleFrame (m : Message) (messageId : UInt32) : Frame :=
  Frame.stamped (Header.single m.service m.session 0 messageId m.version) m.wirePayload

/-- The frame that announces a message in pieces of at most `maxDataSize`
bytes. -/
def firstFrame (m : Message) (messageId : UInt32) (maxDataSize : Nat) : Frame :=
  let total := m.wirePayload.length
  Frame.stamped (Header.first m.service m.session messageId m.version)
    (FirstPayload.encode (UInt32.ofNat total) (UInt32.ofNat (frameCount total maxDataSize)))

/-- The frames that carry a message with at most `maxDataSize` payload bytes
in a data frame. -/
def fragment (m : Message) (messageId : UInt32) (maxDataSize : Nat) :
    Except LinkError (List Frame) :=
  let payload := m.wirePayload
  let budget := max maxDataSize 1
  if maxFragmentedSize < payload.length then
    .error (.messageTooLarge payload.length maxFragmentedSize)
  else
    match headerSize m.version with
    | .error e => .error (.frame e)
    | .ok _ =>
      if payload.length ≤ budget then .ok [m.singleFrame messageId]
      else
        .ok (m.firstFrame messageId maxDataSize ::
          m.consecutives messageId 0 (pieces budget payload))

end Message

end HeadUnitLink
