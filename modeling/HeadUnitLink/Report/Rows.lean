import HeadUnitLink.Capture.Basic
import HeadUnitLink.Report.Layout
import HeadUnitLink.Text.CharClass
import HeadUnitLink.Text.Utf8

/-!
# Listings of frames and messages

What is shown of a frame and of a message of a capture.  A payload is shown as
text if it is UTF-8 and has no control character but line breaks; any other
payload is shown in hexadecimal digits, a long one by its first bytes and its
length.
-/

namespace HeadUnitLink.Report

open JsonText (Scalar)

/-- The most bytes that are shown in hexadecimal digits. -/
def previewBytes : Nat := 32

/-- Can this character be shown as it is? -/
def isShown (c : Char) : Bool := c = '\n' || !CharClass.isControl c

/-- The text that a payload is, if it can be shown as it is. -/
def shownText? (payload : Bytes) : Option String :=
  match Utf8.decode? payload with
  | some chars => if chars.all isShown then some (String.ofList chars) else none
  | none => none

/-- A payload as it is shown. -/
def preview (payload : Bytes) : String :=
  match shownText? payload with
  | some text => text
  | none =>
    if previewBytes < payload.length then
      Hex.encode (payload.take previewBytes) ++ s!".. ({payload.length} bytes)"
    else Hex.encode payload

/-! ## Frames -/

/-- What the third byte of a frame says. -/
def frameDataText (frame : Frame) : String :=
  let header := frame.header
  match header.frameType with
  | .control =>
    match header.controlKind? with
    | some kind => kind.name
    | none => "0x" ++ Hex.upperByte header.frameData
  | .consecutive => if header.isTerminal then "last" else toString header.frameData
  | .first =>
    match FirstPayload.decode? frame.payload with
    | some (total, count) => s!"total={total} count={count}"
    | none => "-"
  | .single => "-"

/-- A frame as a line of plain text. -/
def frameLine (item : PlacedFrame) : String :=
  let index := item.index
  let offset := item.offset
  let header := item.frame.header
  let version := header.version
  let session := header.session
  let size := header.dataSize
  let messageId := header.messageId
  s!"#{index} @{offset} v{version} " ++ header.frameType.name ++ " " ++ header.service.name ++
    s!" session={session} data=" ++ frameDataText item.frame ++
    s!" size={size} msg={messageId} payload=" ++ preview item.frame.payload

/-- What is shown of a frame. -/
def frameLayout : Layout PlacedFrame where
  columns := [
    ⟨"index", some "#", fun item => .count item.index⟩,
    ⟨"offset", some "OFFSET", fun item => .count item.offset⟩,
    ⟨"version", some "VER", fun item => .count item.frame.header.version.toNat⟩,
    ⟨"frame_type", some "TYPE", fun item => .text item.frame.header.frameType.name⟩,
    ⟨"service", some "SERVICE", fun item => .text item.frame.header.service.name⟩,
    ⟨"session_id", some "SESSION", fun item => .count item.frame.header.session.toNat⟩,
    ⟨"frame_data", some "DATA", fun item => .text (frameDataText item.frame)⟩,
    ⟨"data_size", some "SIZE", fun item => .count item.frame.header.dataSize.toNat⟩,
    ⟨"message_id", some "MSG ID", fun item => .count item.frame.header.messageId.toNat⟩,
    ⟨"compressed", none, fun item => .flag item.frame.header.compressed⟩,
    ⟨"payload", some "PAYLOAD", fun item => .text (preview item.frame.payload)⟩]
  line := frameLine

/-- A listing of frames. -/
def frames (format : Format) (items : List PlacedFrame) : String :=
  frameLayout.render format items

/-! ## Messages -/

/-- A message as a line of plain text. -/
def messageLine (item : CapturedMessage) : String :=
  let m := item.message
  let session := m.session
  let version := m.version
  let messageId := m.messageId
  let size := m.data.length
  m.service.name ++ s!" session={session} v{version} msg={messageId} size={size}" ++
    (if item.interrupting then " (interrupted)" else "") ++ " payload=" ++ preview m.data

/-- What is shown of a message. -/
def messageLayout : Layout CapturedMessage where
  columns := [
    ⟨"service", some "SERVICE", fun item => .text item.message.service.name⟩,
    ⟨"session_id", some "SESSION", fun item => .count item.message.session.toNat⟩,
    ⟨"version", some "VER", fun item => .count item.message.version.toNat⟩,
    ⟨"message_id", some "MSG ID", fun item => .count item.message.messageId.toNat⟩,
    ⟨"size", some "SIZE", fun item => .count item.message.data.length⟩,
    ⟨"interrupted", some "INTERRUPTED", fun item => .flag item.interrupting⟩,
    ⟨"payload", some "PAYLOAD", fun item => .text (preview item.message.data)⟩]
  line := messageLine

/-- A listing of messages. -/
def messages (format : Format) (items : List CapturedMessage) : String :=
  messageLayout.render format items

end HeadUnitLink.Report
