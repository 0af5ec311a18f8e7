import HeadUnitLink.Proofs.Capture.Reading
import HeadUnitLink.Proofs.Engine.OneMessage
import HeadUnitLink.Proofs.Stream.Writing

/-!
# From a message to a file and back

A message goes through an engine of its own, its bytes are taken apart into
frames, the frames are written to a file, and the file is read as a capture.
The two halves meet at a list of frames that lose nothing, `Frame.Lossless`: the
engine makes such frames, and all that comes after keeps them.

* `Message.lossless_received` and `Message.length_le_of_budget`: what the engine
  makes.
* `Capture.ofSource_of_lossless`: what a capture of such frames holds.
* `Capture.reassemble_fragment`: what message it holds.
* `Message.RoundTrip` has a field for each station, and `Message.roundTrip_of_room`
  is the result.
-/

namespace HeadUnitLink

/-! ## Frames as they arrive -/

/-- What arrives of a frame is written with the bytes of the frame. -/
theorem Frame.encode_received {f : Frame} {bytes : Bytes} (hencode : f.encode = .ok bytes)
    (hread : f.header.Readable) : f.received.encode = .ok bytes := by
  have hdecode := decode_encode_append hencode hread (Nat.le_refl _) []
  obtain ⟨written, hwritten, hbytes⟩ := exists_encode_of_decode hdecode
  rw [List.append_nil, List.append_nil] at hbytes
  rw [hbytes]
  exact hwritten

namespace Message

variable {m : Message} {messageId : UInt32} {maxDataSize limit : Nat} {frames : List Frame}
  {encoded : List Bytes}

/-- The frames of a message are written with the same bytes once they have
arrived, and lose nothing then. -/
theorem lossless_received (hfragment : m.fragment messageId maxDataSize = .ok frames)
    (hencoded : frames.map Frame.encode = encoded.map .ok) :
    (frames.map Frame.received).map Frame.encode = encoded.map .ok ∧
      ∀ limit, (∀ f ∈ frames, f.payload.length ≤ limit) →
        ∀ f ∈ frames.map Frame.received, f.Lossless limit := by
  obtain ⟨-, ⟨size, hsize⟩, -⟩ := fragment_cases hfragment
  have hwritten : ∀ f ∈ frames, ∃ bytes, f.encode = .ok bytes ∧ f.received.encode = .ok bytes := by
    intro f hf
    obtain ⟨bytes, hbytes, -⟩ := exists_encode_of_fragment hsize hfragment hf
    exact ⟨bytes, hbytes, Frame.encode_received hbytes (readable_of_fragment hfragment hf)⟩
  constructor
  · rw [← hencoded, List.map_map]
    apply List.map_congr_left
    intro f hf
    obtain ⟨bytes, hbytes, hreceived⟩ := hwritten f hf
    exact hreceived.trans hbytes.symm
  · intro limit hlimit f hf
    obtain ⟨original, horiginal, rfl⟩ := List.mem_map.1 hf
    obtain ⟨bytes, -, hreceived⟩ := hwritten original horiginal
    have hread := readable_of_fragment hfragment horiginal
    have hshort := hlimit original horiginal
    refine ⟨⟨bytes, hreceived⟩, hread, hshort, ?_⟩
    intro hversion
    exact if_neg (UInt8.not_le.2 hversion)

/-- No frame of a message is longer than the message or the budget, announcements
apart. -/
theorem length_le_of_budget (hfragment : m.fragment messageId maxDataSize = .ok frames)
    (hbudget : 0 < maxDataSize) (hroom : min m.wirePayload.length maxDataSize ≤ limit)
    (hannounced : firstPayloadSize ≤ limit) {frame : Frame} (hframe : frame ∈ frames) :
    frame.payload.length ≤ limit := by
  have hmessage := (frame_of_fragment hfragment hframe).2
  obtain ⟨header, payload, rfl, -, hpiece⟩ := stamped_of_fragment hfragment hframe
  show payload.length ≤ limit
  have hwhole : payload.length ≤ max firstPayloadSize m.wirePayload.length := hmessage
  omega

end Message

/-! ## Lists of frames -/

/-- The bytes of frames that lose nothing are taken apart into these frames. -/
theorem Engine.framesOf_of_lossless {frames : List Frame} {encoded : List Bytes}
    (hframes : ∀ f ∈ frames, f.Lossless (sizeModulus - 1))
    (hencoded : frames.map Frame.encode = encoded.map .ok) :
    framesOf encoded.flatten = .ok frames := by
  have hdecode : Frame.decodeAll (sizeModulus - 1) encoded.flatten = (frames, none, []) := by
    unfold Frame.decodeAll
    rw [Frame.decodeAllOnto_of_lossless hframes hencoded, List.append_nil]
    simp only [List.reverse_reverse]
  unfold framesOf
  rw [hdecode]
  rfl

/-! ## The capture -/

namespace Capture

/-- However the bytes of frames that lose nothing are handed over, the capture has
these frames and nothing else. -/
theorem ofSource_of_lossless {limit : Nat} {frames : List Frame} {encoded : List Bytes}
    (hframes : ∀ f ∈ frames, f.Lossless limit)
    (hencoded : frames.map Frame.encode = encoded.map .ok) {source : Source}
    (hopen : source.Open) (hcontent : source.content = encoded.flatten)
    (hfaults : source.faults = []) :
    ofSource limit source =
      .ok { frames := place 0 0 (frames.map .frame), skipped := 0, trailing := 0 } := by
  obtain ⟨events, last, hreading, hcapture⟩ := exists_reading limit hopen hfaults
  have hsame : frames.map Frame.received = frames.map id :=
    List.map_congr_left fun f hf => (hframes f hf).received_eq
  have hwritten : Reading limit (FrameReader.reach limit) (encoded.flatten ++ [])
      ((frames.map Frame.received).map .frame) [] :=
    .of_encoded hencoded (fun f hf => (hframes f hf).readable)
      (fun f hf => (hframes f hf).length_le) rfl
  rw [List.append_nil, hsame, List.map_id, ← hcontent] at hwritten
  obtain ⟨rfl, rfl⟩ := hreading.unique hwritten
  rw [hcapture, skippedBytes_frames]
  rfl

/-- What is listed of what a frame brings about. -/
def captured? : Except LinkError Assembled → Option CapturedMessage
  | .ok (.message message) => some { message, interrupting := false }
  | .ok (.interrupted message _) => some { message, interrupting := true }
  | _ => none

/-- The messages of a capture are those that its frames bring about in an
assembler. -/
theorem reassemble_eq (a : Assembler) (frames : List Frame) :
    reassemble a frames = (a.handleAll frames).1.filterMap captured? := by
  induction frames generalizing a with
  | nil => rfl
  | cons frame rest ih =>
    rw [Assembler.handleAll, List.filterMap_cons, reassemble]
    cases a.handle frame with
    | mk result next =>
      cases result with
      | error cause => exact ih next
      | ok assembled =>
        cases assembled with
        | message m => exact congrArg _ (ih next)
        | interrupted m dropped => exact congrArg _ (ih next)
        | control f => exact ih next
        | pending => exact ih next

/-- The frames of a message are listed as this message, if there is room for
it. -/
theorem reassemble_fragment {m : Message} {messageId : UInt32} {maxDataSize limit : Nat}
    {frames : List Frame} (hfragment : m.fragment messageId maxDataSize = .ok frames)
    (hfits : m.wirePayload.length ≤ limit) :
    reassemble (Assembler.empty limit) frames =
      [{ message := m.assembled messageId, interrupting := false }] := by
  have hresults := (Assembler.handleAll_onKeyAll (Message.key_fragment hfragment)
    (Assembler.empty limit)).1
  have hnone : (Assembler.empty limit).get? m.key = none := rfl
  have hpending (count : Nat) : (List.replicate count
      (.ok .pending : Except LinkError Assembled)).filterMap captured? = [] := by
    rw [List.filterMap_eq_nil_iff]
    intro result hresult
    rw [List.eq_of_mem_replicate hresult]
    rfl
  rw [reassemble_eq, hresults, hnone]
  show (Assembler.onKeyAll limit none frames).1.filterMap captured? = _
  rw [Message.onKeyAll_fragment hfragment hfits none, List.filterMap_append, hpending]
  rfl

end Capture

/-! ## All stations -/

namespace Message

/-- What becomes of a message that goes through an engine of its own, of the bytes
that this sends, of the frames that these are and of the capture that the frames
make. -/
structure RoundTrip (config : Config) (m : Message) (wire : Bytes) (frames : List Frame) :
    Prop where
  /-- The settings are accepted. -/
  made : Engine.ofConfig config = .ok (Engine.fresh config)
  /-- The message is accepted, and its bytes are sent whatever the workers do. -/
  emitted : ∀ events t,
    events.filter EngineEvent.isCall = [.setVersion m.version, .send m] →
    (∀ job, .worker (.handOver job true) ∉ events) →
    (Transcript.start (Engine.fresh config)).run events = some t →
      events.length ≤ 2 + 3 * frames.length ∧ t.Emits m wire
  /-- They are also sent when the engine is left to itself. -/
  bytes_eq : Engine.bytesFor config m = .ok wire
  frames_eq : Engine.framesOf wire = .ok frames
  /-- A writer writes the same bytes. -/
  written : ∀ sink : Sink, sink.Willing →
    let writer : FrameWriter := { limit := Frame.defaultMaxPayload, sink }
    (writer.writeFrames frames).1 = .ok wire.length ∧
      (writer.writeFrames frames).2.sink.accepted = sink.accepted ++ wire
  /-- The capture has this message and nothing else, however it is read. -/
  captured : ∀ source : Source, source.Open → source.content = wire → source.faults = [] →
    ∃ capture, Capture.ofSource config.maxMessageSize source = .ok capture ∧
      capture.skipped = 0 ∧ capture.trailing = 0 ∧
      capture.messages config.maxMessageSize =
        [{ message :=
            { Message.plain m.service m.session m.version m.wirePayload with
              messageId := if 3 ≤ m.version then 1 else 0 }
           interrupting := false }]

/-- A message of a version that is spoken, for a session unless it is a remote call,
makes the round trip whole if the limits have room for it: that on messages for the
message and an announcement, that of the writer for the longest piece, and the
size field of an announcement for the whole length. -/
theorem roundTrip_of_room {config : Config} {m : Message} (hvalid : config.fault? = none)
    (hspoken : config.Spoken m.version) (hsession : m.service = .rpc ∨ m.session ≠ 0)
    (hlength : m.wirePayload.length < UInt32.size)
    (hfits : m.wirePayload.length ≤ config.maxMessageSize)
    (hannounced : firstPayloadSize ≤ config.maxMessageSize)
    (hwriter : min m.wirePayload.length config.maxDataSize ≤ Frame.defaultMaxPayload) :
    ∃ wire frames, RoundTrip config m wire frames := by
  obtain ⟨hmtu, -, hmax⟩ := Config.fault?_eq_none hvalid
  have hversion : minVersion ≤ m.version ∧ m.version ≤ maxVersion :=
    ⟨hspoken.1, UInt8.le_trans hspoken.2 hmax⟩
  obtain ⟨original, encoded, hfragment, hencoded⟩ :=
    exists_encoded hversion hlength 1 config.maxDataSize
  have hsendable : m.Sendable config encoded :=
    ⟨hspoken, hsession, original, hfragment, hencoded⟩
  have hsent := Engine.encodeEach_eq_ok_iff.1 hencoded
  obtain ⟨hwritten, hlossless⟩ := lossless_received hfragment hsent
  have hbudget : 0 < config.maxDataSize := Nat.sub_pos_of_lt hmtu
  have hwithin : ∀ limit, min m.wirePayload.length config.maxDataSize ≤ limit →
      firstPayloadSize ≤ limit → ∀ f ∈ original.map Frame.received, f.Lossless limit := by
    intro limit hroom hfirst
    apply hlossless limit
    intro f hf
    exact length_le_of_budget hfragment hbudget hroom hfirst hf
  have hcount : (original.map Frame.received).length = encoded.length := by
    have hlengths := congrArg List.length hsent
    simp only [List.length_map] at hlengths ⊢
    exact hlengths
  refine ⟨encoded.flatten, original.map Frame.received, ?_⟩
  constructor
  case made => exact Engine.ofConfig_eq_fresh hvalid
  case emitted =>
    intro events t hcalls hsink hrun
    rw [hcount]
    exact Transcript.emits_of_run hsendable hcalls hsink hrun
  case bytes_eq => exact Engine.bytesFor_eq hvalid hsendable
  case frames_eq =>
    have hword : UInt32.size ≤ sizeModulus - 1 := by decide
    exact Engine.framesOf_of_lossless (hwithin _ (by omega) (by decide)) hwritten
  case written =>
    intro sink hwilling
    have hall := hwithin Frame.defaultMaxPayload hwriter (by decide)
    apply FrameWriter.writeFrames_of_willing hwilling hwritten
    intro f hf
    exact (hall f hf).length_le
  case captured =>
    intro source hopen hcontent hfaults
    have hall := hwithin config.maxMessageSize (by omega) hannounced
    refine ⟨_, Capture.ofSource_of_lossless hall hwritten hopen hcontent hfaults, rfl, rfl, ?_⟩
    unfold Capture.messages
    rw [Capture.map_frame_place]
    exact Capture.reassemble_fragment (received_fragment hfragment) hfits

/-- Three bytes in pieces of two, sent by two workers and written to a file that
takes all. -/
theorem roundTrip_of_room_three_bytes :
    let config := { Config.default with mtu := 14, workers := 2 }
    let m := Message.plain .nav 1 3 [10, 20, 30]
    let wire : Bytes :=
      [0x32, 0x0B, 0, 1, 0, 0, 0, 8, 0, 0, 0, 1, 0, 0, 0, 3, 0, 0, 0, 2] ++
        [0x33, 0x0B, 1, 1, 0, 0, 0, 2, 0, 0, 0, 1, 10, 20] ++
        [0x33, 0x0B, 0, 1, 0, 0, 0, 1, 0, 0, 0, 1, 30]
    config.fault? = none ∧ config.Spoken m.version ∧ (m.service = .rpc ∨ m.session ≠ 0) ∧
      m.wirePayload.length < UInt32.size ∧ m.wirePayload.length ≤ config.maxMessageSize ∧
      firstPayloadSize ≤ config.maxMessageSize ∧
      min m.wirePayload.length config.maxDataSize ≤ Frame.defaultMaxPayload ∧
      let file : FrameWriter := { limit := Frame.defaultMaxPayload, sink := Sink.accepting }
      ∃ frames, m.RoundTrip config wire frames ∧
        (file.writeFrames frames).2.sink.accepted = wire := by
  intro config m wire
  have hvalid : config.fault? = none := by decide
  have hspoken : config.Spoken m.version := ⟨by decide, by decide⟩
  have hsession : m.service = .rpc ∨ m.session ≠ 0 := by decide
  have hlength : m.wirePayload.length < UInt32.size := by decide
  have hfits : m.wirePayload.length ≤ config.maxMessageSize := by decide
  have hannounced : firstPayloadSize ≤ config.maxMessageSize := by decide
  have hwriter : min m.wirePayload.length config.maxDataSize ≤ Frame.defaultMaxPayload := by
    decide
  refine ⟨hvalid, hspoken, hsession, hlength, hfits, hannounced, hwriter, ?_⟩
  intro file
  obtain ⟨found, frames, htrip⟩ :=
    roundTrip_of_room hvalid hspoken hsession hlength hfits hannounced hwriter
  have hbytes := congrArg Except.toOption htrip.bytes_eq
  have hwire : (Engine.bytesFor config m).toOption = some wire := by decide +kernel
  have hsame : found = wire := Option.some.inj (hbytes.symm.trans hwire)
  rw [hsame] at htrip
  exact ⟨frames, htrip, (htrip.written Sink.accepting Sink.willing_accepting).2⟩

end Message

end HeadUnitLink
