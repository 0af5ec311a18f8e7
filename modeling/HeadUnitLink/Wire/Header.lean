import HeadUnitLink.Wire.Kind
import HeadUnitLink.Wire.Error

/-!
# Frame headers

A header opens every frame:

| byte | content                                                    |
|------|------------------------------------------------------------|
| 0    | version (4 bits), compression flag (1), frame type (3)     |
| 1    | service                                                    |
| 2    | control kind, or the counter of a consecutive frame        |
| 3    | session                                                    |
| 4-7  | size of the payload                                        |
| 8-11 | message id, in versions 3 and 4 only                       |

`Header.appendTo` trusts every field but the version; `Header.encode` is what it
writes into an empty buffer.  `Header.decode` judges, in this order, the version,
the length, the frame type, the service and the control kind, and reports the
first that fails.
-/

namespace HeadUnitLink

/-- The lowest version with a header layout. -/
def minVersion : UInt8 := 1

/-- The highest version with a header layout. -/
def maxVersion : UInt8 := 4

/-- The size of a header without a message id. -/
def shortHeaderSize : Nat := 8

/-- The size of a header with a message id. -/
def longHeaderSize : Nat := 12

/-- The largest size of a header. -/
def maxHeaderSize : Nat := longHeaderSize

/-- The size of a header of this version, if the version has a layout. -/
def headerSize? (version : UInt8) : Option Nat :=
  if version = 1 ∨ version = 2 then some shortHeaderSize
  else if version = 3 ∨ version = 4 then some longHeaderSize
  else none

/-- The size of a header of this version. -/
def headerSize (version : UInt8) : Except FrameError Nat :=
  match headerSize? version with
  | some size => .ok size
  | none => .error (.unsupportedVersion version)

/-- Only the version is ever wrong with a header size. -/
theorem isDamage_of_headerSize {version : UInt8} {e : FrameError}
    (h : headerSize version = .error e) : e.isDamage = true := by
  unfold headerSize at h
  split at h
  · exact absurd h (by simp)
  · obtain rfl := Except.error.inj h
    rfl

/-- A header is never empty. -/
theorem headerSize?_pos {version : UInt8} {size : Nat} (h : headerSize? version = some size) :
    0 < size := by
  unfold headerSize? at h
  split at h
  · obtain rfl := Option.some.inj h
    decide
  · split at h
    · obtain rfl := Option.some.inj h
      decide
    · exact absurd h (by simp)

theorem headerSize_eq_ok_iff {version : UInt8} {size : Nat} :
    headerSize version = .ok size ↔ headerSize? version = some size := by
  unfold headerSize
  split
  · rename_i found hfound
    simp [hfound]
  · rename_i hnone
    simp [hnone]

/-- The header of a frame. -/
structure Header where
  version : UInt8
  compressed : Bool
  frameType : FrameType
  service : Service
  /-- The control kind of a control frame, the counter of a consecutive frame. -/
  frameData : UInt8
  session : UInt8
  /-- The size of the payload of this one frame. -/
  dataSize : UInt32
  /-- Travels in versions 3 and 4 only. -/
  messageId : UInt32
  deriving DecidableEq, Repr

namespace Header

/-- The control kind of a control frame, if its code is known. -/
def controlKind? (h : Header) : Option ControlKind :=
  if h.frameType = .control then ControlKind.ofByte? h.frameData else none

/-- Is this the last piece of a fragmented message? -/
def isTerminal (h : Header) : Bool :=
  h.frameType = .consecutive && h.frameData = 0

/-! ## Writing -/

/-- The first byte: version, compression flag and frame type. -/
def firstByte (h : Header) : UInt8 :=
  h.version * 16 + (if h.compressed then 8 else 0) + h.frameType.toByte

/-- The eight bytes that every version has. -/
def fixedBytes (h : Header) : Bytes :=
  h.firstByte :: h.service.toByte :: h.frameData :: h.session :: Word.toBytes h.dataSize

/-- Writes a header behind the bytes of a buffer.  Only the version can be
refused, and that leaves the buffer alone. -/
def appendTo (h : Header) (buffer : Bytes) : Except FrameError Unit × Bytes :=
  match headerSize h.version with
  | .error e => (.error e, buffer)
  | .ok size =>
    let fixed := buffer ++ h.fixedBytes
    (.ok (), if size = longHeaderSize then fixed ++ Word.toBytes h.messageId else fixed)

/-- The bytes of a header, written into an empty buffer. -/
def encode (h : Header) : Except FrameError Bytes :=
  match h.appendTo [] with
  | (.error e, _) => .error e
  | (.ok (), bytes) => .ok bytes

theorem encode_eq (h : Header) :
    h.encode =
      match headerSize h.version with
      | .error e => .error e
      | .ok size =>
        .ok (h.fixedBytes ++ if size = longHeaderSize then Word.toBytes h.messageId else []) := by
  unfold encode appendTo
  cases headerSize h.version with
  | error e => rfl
  | ok size =>
    simp only [List.nil_append]
    split
    · rfl
    · rw [List.append_nil]

/-- A header is put behind the bytes of a buffer as a whole or not at all. -/
theorem appendTo_eq (h : Header) (buffer : Bytes) :
    h.appendTo buffer =
      match h.encode with
      | .error e => (.error e, buffer)
      | .ok bytes => (.ok (), buffer ++ bytes) := by
  rw [encode_eq]
  unfold appendTo
  cases headerSize h.version with
  | error e => rfl
  | ok size =>
    simp only
    split
    · rw [List.append_assoc]
    · rw [List.append_nil]

/-! ## Reading -/

/-- The version that a first byte names. -/
def versionOf (first : UInt8) : UInt8 := first / 16

/-- The compression flag that a first byte carries. -/
def compressedOf (first : UInt8) : Bool := first / 8 % 2 = 1

/-- The code of the frame type that a first byte carries. -/
def typeCodeOf (first : UInt8) : UInt8 := first % 8

/-- The message id after the first eight bytes of a header of this size, and 0
where the layout has none. -/
def messageIdOf? (size : Nat) (tail : Bytes) : Option UInt32 :=
  if size = longHeaderSize then Word.leading? tail else some 0

/-- Judges the three codes of a header whose bytes are all there. -/
def ofFields (first service frameData session : UInt8) (dataSize messageId : UInt32) :
    Except FrameError Header :=
  match FrameType.ofByte? (typeCodeOf first) with
  | none => .error (.malformedHeader (.unknownFrameType (typeCodeOf first)))
  | some frameType =>
    match Service.ofByte? service with
    | none => .error (.malformedHeader (.unknownService service))
    | some service =>
      if frameType = .control ∧ ControlKind.ofByte? frameData = none then
        .error (.malformedHeader (.unknownControlKind frameData))
      else
        .ok {
          version := versionOf first
          compressed := compressedOf first
          frameType, service, frameData, session, dataSize, messageId }

/-- The header at the start of a byte string, whatever follows it. -/
def decode (bytes : Bytes) : Except FrameError Header :=
  match bytes with
  | [] => .error (.malformedHeader .empty)
  | first :: rest =>
    match headerSize (versionOf first) with
    | .error e => .error e
    | .ok size =>
      match rest with
      | service :: frameData :: session :: s₃ :: s₂ :: s₁ :: s₀ :: tail =>
        match messageIdOf? size tail with
        | none => .error (.malformedHeader (.truncatedMessageId bytes.length size))
        | some messageId =>
          ofFields first service frameData session (Word.ofBytes s₃ s₂ s₁ s₀) messageId
      | _ => .error (.malformedHeader (.truncated bytes.length size))

/-- The codes of a header are all that is judged. -/
theorem isDamage_of_ofFields {first service frameData session : UInt8}
    {dataSize messageId : UInt32} {e : FrameError}
    (h : ofFields first service frameData session dataSize messageId = .error e) :
    e.isDamage = true := by
  unfold ofFields at h
  split at h
  · obtain rfl := Except.error.inj h
    rfl
  · split at h
    · obtain rfl := Except.error.inj h
      rfl
    · split at h
      · obtain rfl := Except.error.inj h
        rfl
      · exact absurd h (by simp)

/-- Reading a header finds fault with its bytes only. -/
theorem isDamage_of_decode {bytes : Bytes} {e : FrameError} (h : decode bytes = .error e) :
    e.isDamage = true := by
  unfold decode at h
  split at h
  · obtain rfl := Except.error.inj h
    rfl
  · split at h
    · rename_i cause hsize
      obtain rfl := Except.error.inj h
      exact isDamage_of_headerSize hsize
    · split at h
      · split at h
        · obtain rfl := Except.error.inj h
          rfl
        · exact isDamage_of_ofFields h
      · obtain rfl := Except.error.inj h
        rfl

end Header

end HeadUnitLink
