import HeadUnitLink.CommandLine.Command
import HeadUnitLink.CommandLine.Plan
import HeadUnitLink.Engine.Basic
import HeadUnitLink.Report.Rows
import HeadUnitLink.Stream.Writer
import HeadUnitLink.Text.HexInput

/-!
# Cutting a message into frames

The message goes through an engine of its own, and what the engine sends is
listed, written to a file, or printed as it is.
-/

namespace HeadUnitLink

/-! ## Through an engine -/

namespace Engine

/-- The bytes that a fresh engine sends for one message. -/
def bytesFor (config : Config) (m : Message) : Except CommandError Bytes :=
  match Engine.ofConfig config with
  | .error fault => .error (.engine fault)
  | .ok e =>
    match e.setVersion m.version with
    | (.error cause, _) => .error (.engineVersion cause)
    | (.ok (), e) =>
      match e.send m with
      | (.error cause, _, _) => .error (.refused cause)
      | (.ok _, e, _) => .ok e.settle.2.flatten

/-- The frames that sent bytes are. -/
def framesOf (wire : Bytes) : Except CommandError (List Frame) :=
  match Frame.decodeAll (sizeModulus - 1) wire with
  | (_, some cause, _) => .error (.damaged cause)
  | (frames, none, rest) =>
    if rest = [] then .ok frames else .error (.incomplete rest.length)

end Engine

/-! ## The command -/

namespace Plan

/-- Fetches the payload. -/
def withPayload (input : Option PayloadInput) (next : Bytes → Plan) : Plan :=
  match input with
  | none => fail .noPayload
  | some (.text content) => next content.toUTF8.toList
  | some (.hex text) => withResult ((Hex.ofInput text).mapError .payloadText) next
  | some (.file path) => withFile path next

/-- Fetches the message that is asked for. -/
def withMessage (request : FragmentRequest) (next : Message → Plan) : Plan :=
  withPayload request.payload fun data =>
    let m := Message.plain request.service request.session request.version data
    match request.bulkFile with
    | none => next m
    | some path =>
      if request.service ≠ .bulk then fail .bulkElsewhere
      else withFile path fun bulk => next { m with bulk := some bulk }

/-- Writes frames to a file, if one is named. -/
def saveFrames (out : Option String) (frames : List Frame) (next : Plan) : Plan :=
  match out with
  | none => next
  | some path =>
    let writer : FrameWriter := { limit := Frame.defaultMaxPayload, sink := Sink.accepting }
    let (result, writer) := writer.writeFrames frames
    save path writer.sink.accepted fun
      | .notCreated fault => fail (.uncreated path fault)
      | .notWritten fault => fail (.unwritten path fault)
      | .saved =>
        match result with
        | .error cause => fail (.unwritable path cause)
        | .ok _ => next

/-- What is printed of frames and of the bytes that they are. -/
def frameOutput (format : Format) (wire : Bytes) (frames : List Frame) : Bytes :=
  match format with
  | .raw => wire
  | _ => (Report.frames format (Capture.place 0 0 (frames.map .frame))).toUTF8.toList

/-- Cuts a message into frames. -/
def fragment (config : Config) (format : Format) (request : FragmentRequest) : Plan :=
  let config := { config with mtu := request.mtu.getD config.mtu }
  withMessage request fun m =>
    withResult (Engine.bytesFor config m) fun wire =>
      withResult (Engine.framesOf wire) fun frames =>
        saveFrames request.out frames <|
          done { code := .success, output := frameOutput format wire frames, diagnostics := "" }

end Plan

end HeadUnitLink
