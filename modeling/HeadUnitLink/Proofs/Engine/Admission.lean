import HeadUnitLink.Proofs.Engine.Delivery
import HeadUnitLink.Proofs.Message.Lengths
import HeadUnitLink.Proofs.Wire.Codec

/-!
# Which messages a fresh engine admits

An engine has one limit and puts it to three uses: it bounds the payload of a
frame, the length that a first frame declares and the bytes of a buffer.  A
message within the limit passes the last two.  The first one also meets the
announcement, whose eight bytes are no part of the message, so a limit below
eight shuts out every message that comes in pieces.

* `Receiver.routeAll_of_data`: of data frames is told what comes of them in the
  assembler, and nothing else.
* `Frame.decode_of_overLimit`: a payload over the limit makes a frame
  unreadable as soon as its header is there.
* `Engine.admits_iff` puts both together: which messages get through, and what
  is told of the others.
-/

namespace HeadUnitLink

/-! ## Data frames -/

namespace Receiver

theorem routeAll_of_data {frames : List Frame}
    (hdata : ∀ frame ∈ frames, frame.header.frameType ≠ .control) (config : Config)
    (r : Receiver) :
    (routeAll config r frames).2 =
      (r.assembler.handleAll frames).1.flatMap Assembler.notices := by
  induction frames generalizing r with
  | nil => rfl
  | cons frame rest ih =>
    have hrest : ∀ other ∈ rest, other.header.frameType ≠ .control := by
      intro other hother
      exact hdata other (List.mem_cons_of_mem _ hother)
    rw [routeAll, Assembler.handleAll, route_of_data (hdata frame List.mem_cons_self),
      List.flatMap_cons, ih hrest]

end Receiver

/-! ## Payloads over the limit -/

/-- A payload over the limit makes a frame unreadable, whatever comes behind
its header. -/
theorem Frame.decode_of_overLimit {f : Frame} {bytes : Bytes} {limit : Nat}
    (hencode : f.encode = .ok bytes) (hread : f.header.Readable)
    (hover : limit < f.payload.length) (rest : Bytes) :
    decode limit (bytes ++ rest) = .error (.payloadTooLarge f.payload.length limit) := by
  obtain ⟨headerBytes, hheader, rfl, hdata⟩ := encode_eq_ok hencode
  obtain ⟨size, hsize, hbytes⟩ := Header.encode_eq_ok hheader
  have hdecode := Header.decode_encode hheader hread
  have hlength := Header.length_of_encode hheader
  rw [← (Header.firstByte_fields hsize).1] at hlength
  obtain ⟨tail, rfl⟩ : ∃ tail, headerBytes = f.header.firstByte :: tail := ⟨_, hbytes⟩
  have hdeclared : f.header.received.dataSize.toNat = f.payload.length := hdata
  have hrefused : decode limit (f.header.firstByte :: tail) =
      .error (.payloadTooLarge f.payload.length limit) := by
    rw [decode_of_headerSize hlength (Nat.le_refl _), hdecode]
    simp only [hdeclared]
    exact if_pos hover
  rw [List.append_assoc]
  apply decode_append_of_error hrefused

/-- The first that is told of a stream that opens with a payload over the
limit. -/
theorem Receiver.receive_overLimit {config : Config} {f : Frame} {bytes : Bytes}
    (hencode : f.encode = .ok bytes) (hread : f.header.Readable)
    (hover : config.maxMessageSize < f.payload.length) (rest : Bytes) :
    ∃ more, ((ofConfig config).receive config (bytes ++ rest)).2 =
      .error .unreadableHeader
        (.frame (.payloadTooLarge f.payload.length config.maxMessageSize)) :: more := by
  have hdecode : Frame.decode config.maxMessageSize
      ((ofConfig config).feed (bytes ++ rest)).buffer =
        .error (.payloadTooLarge f.payload.length config.maxMessageSize) :=
    Frame.decode_of_overLimit hencode hread hover rest
  unfold receive
  rw [drain_of_some (step_of_error hdecode)]
  exact ⟨_, rfl⟩

/-! ## The frames of a message -/

namespace Message

variable {m : Message} {messageId : UInt32} {maxDataSize : Nat} {frames : List Frame}

theorem readable_of_fragment (hfragment : m.fragment messageId maxDataSize = .ok frames)
    {frame : Frame} (hframe : frame ∈ frames) : frame.header.Readable := by
  intro hcontrol
  exact absurd hcontrol (frame_of_fragment hfragment hframe).1

/-- Every message that frames can carry has frames, and these can be
written. -/
theorem exists_encoded (hversion : minVersion ≤ m.version ∧ m.version ≤ maxVersion)
    (hlength : m.wirePayload.length < UInt32.size) (messageId : UInt32) (maxDataSize : Nat) :
    ∃ frames encoded, m.fragment messageId maxDataSize = .ok frames ∧
      Engine.encodeEach frames = .ok encoded := by
  obtain ⟨size, hsize⟩ := exists_headerSize?_iff.2 hversion
  have hdeclared : m.wirePayload.length ≤ maxFragmentedSize := Nat.le_of_lt_succ hlength
  obtain ⟨frames, hfragment⟩ : ∃ frames, m.fragment messageId maxDataSize = .ok frames := by
    rw [fragment_eq hsize hdeclared]
    split
    · exact ⟨_, rfl⟩
    · exact ⟨_, rfl⟩
  have hwritten : ∀ frame ∈ frames, ∃ bytes, frame.encode = .ok bytes := by
    intro frame hframe
    obtain ⟨bytes, hbytes, _⟩ := exists_encode_of_fragment hsize hfragment hframe
    exact ⟨bytes, hbytes⟩
  obtain ⟨encoded, hencoded⟩ := Frame.exists_encoded hwritten
  exact ⟨frames, encoded, hfragment, Engine.encodeEach_eq_ok_iff.2 hencoded⟩

/-- An empty assembler with room for a message makes it of the frames as they
arrive. -/
theorem handleAll_received (hfragment : m.fragment messageId maxDataSize = .ok frames)
    {limit : Nat} (hfits : m.wirePayload.length ≤ limit) :
    ((Assembler.empty limit).handleAll (frames.map Frame.received)).1.flatMap
        Assembler.notices = [.message (m.assembled (m.arrivalId messageId))] := by
  have hreceived := received_fragment hfragment
  have hresults := (Assembler.handleAll_onKeyAll (key_fragment hreceived)
    (Assembler.empty limit)).1
  have hnone : (Assembler.empty limit).get? m.key = none := rfl
  have hpending : ∀ count, (List.replicate count
      (.ok .pending : Except LinkError Assembled)).flatMap Assembler.notices = [] := by
    intro count
    rw [List.flatMap_eq_nil_iff]
    intro result hresult
    rw [List.eq_of_mem_replicate hresult]
    rfl
  rw [hresults, hnone]
  show ((Assembler.onKeyAll limit none (frames.map Frame.received)).1.flatMap _) = _
  rw [onKeyAll_fragment hreceived hfits none, List.flatMap_append, hpending]
  rfl

/-- A message whose frames are all within the limit is what a fresh receiver
tells of, and all that it tells. -/
theorem receive_encoded {config : Config} {encoded : List Bytes}
    (hfragment : m.fragment messageId maxDataSize = .ok frames)
    (hencoded : Engine.encodeEach frames = .ok encoded)
    (hfits : m.wirePayload.length ≤ config.maxMessageSize)
    (hframes : ∀ frame ∈ frames, frame.payload.length ≤ config.maxMessageSize) :
    ((Receiver.ofConfig config).receive config encoded.flatten).2 =
      [.message (m.assembled (m.arrivalId messageId))] := by
  have harrive : encoded.map (Frame.arrival? config.maxMessageSize) =
      (frames.map Frame.received).map some := by
    apply map_arrival (Engine.encodeEach_eq_ok_iff.1 hencoded)
    intro frame hframe
    exact ⟨readable_of_fragment hfragment hframe, hframes frame hframe⟩
  have hdata : ∀ frame ∈ frames.map Frame.received, frame.header.frameType ≠ .control := by
    intro frame hframe
    exact (frame_of_fragment (received_fragment hfragment) hframe).1
  rw [Receiver.receive_stream harrive, Receiver.routeAll_of_data hdata]
  exact handleAll_received hfragment hfits

/-- All frames of a message within the limit are within the limit, if its
announcement is, or if it needs none. -/
theorem length_le_of_fragment {limit : Nat}
    (hfragment : m.fragment messageId maxDataSize = .ok frames)
    (hfits : m.wirePayload.length ≤ limit)
    (hannounced : m.wirePayload.length ≤ max maxDataSize 1 ∨ firstPayloadSize ≤ limit)
    {frame : Frame} (hframe : frame ∈ frames) : frame.payload.length ≤ limit := by
  rcases hannounced with hwhole | hroom
  · obtain ⟨_, _, ⟨_, rfl⟩ | ⟨hlong, _⟩⟩ := fragment_cases hfragment
    · rw [List.mem_singleton.1 hframe]
      exact hfits
    · exact absurd hwhole (Nat.not_le_of_lt hlong)
  · have hlength := (frame_of_fragment hfragment hframe).2
    omega

end Message

namespace Engine

/-- A fresh engine makes of the bytes of a message within its limit, in chunks
of any size, this message and nothing else, if and only if the message comes
whole or the limit has room for an announcement.  Otherwise an error about the
announcement is the first that it tells. -/
theorem admits_iff {config : Config} {e : Engine} (he : ofConfig config = .ok e) (m : Message)
    (hversion : minVersion ≤ m.version ∧ m.version ≤ maxVersion)
    (hlength : m.wirePayload.length < UInt32.size)
    (hfits : m.wirePayload.length ≤ config.maxMessageSize) (messageId : UInt32)
    (maxDataSize : Nat) :
    ∃ frames encoded, m.fragment messageId maxDataSize = .ok frames ∧
      encodeEach frames = .ok encoded ∧
      ∀ chunks : List Bytes, chunks.flatten = encoded.flatten →
        ((e.receiveAll chunks).2 = [.message (m.assembled (m.arrivalId messageId))] ↔
          m.wirePayload.length ≤ max maxDataSize 1 ∨
            firstPayloadSize ≤ config.maxMessageSize) ∧
        (max maxDataSize 1 < m.wirePayload.length →
          config.maxMessageSize < firstPayloadSize →
          ∃ more, (e.receiveAll chunks).2 = .error .unreadableHeader
            (.frame (.payloadTooLarge firstPayloadSize config.maxMessageSize)) :: more) := by
  obtain ⟨frames, encoded, hfragment, hencoded⟩ :=
    Message.exists_encoded hversion hlength messageId maxDataSize
  refine ⟨frames, encoded, hfragment, hencoded, ?_⟩
  intro chunks hchunks
  have hnotices : (e.receiveAll chunks).2 =
      ((Receiver.ofConfig config).receive config encoded.flatten).2 := by
    rw [(receiveAll_of_ofConfig he chunks).2, hchunks]
  have hrefused : max maxDataSize 1 < m.wirePayload.length →
      config.maxMessageSize < firstPayloadSize →
      ∃ more, (e.receiveAll chunks).2 = .error .unreadableHeader
        (.frame (.payloadTooLarge firstPayloadSize config.maxMessageSize)) :: more := by
    intro hlong hsmall
    obtain ⟨_, _, ⟨hwhole, _⟩ | ⟨_, rfl⟩⟩ := Message.fragment_cases hfragment
    · exact absurd hwhole (Nat.not_le_of_lt hlong)
    · have hwritten := encodeEach_eq_ok_iff.1 hencoded
      cases encoded with
      | nil => exact absurd hwritten (by simp)
      | cons bytes rest =>
        rw [hnotices, List.flatten_cons]
        exact Receiver.receive_overLimit (List.cons.inj hwritten).1
          (Message.readable_of_fragment hfragment List.mem_cons_self) hsmall _
  constructor
  · constructor
    · intro hmessage
      by_contra hneither
      obtain ⟨more, herror⟩ := hrefused (by omega) (by omega)
      rw [hmessage] at herror
      exact absurd herror (by simp)
    · intro hannounced
      rw [hnotices]
      apply Message.receive_encoded hfragment hencoded hfits
      intro frame hframe
      exact Message.length_le_of_fragment hfragment hfits hannounced hframe
  · exact hrefused

/-- A message of two parts, as long as the limit, which is as small as an
announcement; it comes in three pieces, cut inside the announcement. -/
theorem admits_iff_eight :
    let config := { Config.default with maxMessageSize := 8 }
    let m : Message :=
      { Message.plain .bulk 1 3 [1, 2, 3] with bulk := some [4, 5, 6, 7, 8] }
    ∃ e, ofConfig config = .ok e ∧ (minVersion ≤ m.version ∧ m.version ≤ maxVersion) ∧
      m.wirePayload.length < UInt32.size ∧ m.wirePayload.length ≤ config.maxMessageSize ∧
      ∃ frames encoded, m.fragment 9 3 = .ok frames ∧ encodeEach frames = .ok encoded ∧
        (e.receiveAll [encoded.flatten.take 15, encoded.flatten.drop 15]).2 =
          [.message { Message.plain .bulk 1 3 [1, 2, 3, 4, 5, 6, 7, 8] with messageId := 9 }] := by
  intro config m
  obtain ⟨e, he⟩ : ∃ e, ofConfig config = .ok e := ⟨_, rfl⟩
  have hversion : minVersion ≤ m.version ∧ m.version ≤ maxVersion := by decide
  have hlength : m.wirePayload.length < UInt32.size := by decide
  have hfits : m.wirePayload.length ≤ config.maxMessageSize := by decide
  obtain ⟨frames, encoded, hfragment, hencoded, hchunks⟩ :=
    admits_iff he m hversion hlength hfits 9 3
  have hcut := (hchunks [encoded.flatten.take 15, encoded.flatten.drop 15] (by simp)).1
  refine ⟨e, he, hversion, hlength, hfits, frames, encoded, hfragment, hencoded, ?_⟩
  exact hcut.2 (Or.inr (by decide))

/-- A limit of seven is accepted, and of a message of two bytes, in two pieces,
only errors are told. -/
theorem exists_refused_within_limit :
    let config := { Config.default with workers := 1, maxMessageSize := 7 }
    let m := Message.plain .nav 1 1 [0x0A, 0x0B]
    let encoded : List Bytes :=
      [[0x12, 0x0B, 0, 1, 0, 0, 0, 8, 0, 0, 0, 2, 0, 0, 0, 2],
        [0x13, 0x0B, 1, 1, 0, 0, 0, 1, 0x0A], [0x13, 0x0B, 0, 1, 0, 0, 0, 1, 0x0B]]
    m.wirePayload.length ≤ config.maxMessageSize ∧
      ∃ e frames, ofConfig config = .ok e ∧ m.fragment 0 1 = .ok frames ∧
        encodeEach frames = .ok encoded ∧
        (e.receive encoded.flatten).2 =
          [.error .unreadableHeader (.frame (.payloadTooLarge 8 7)),
            .error .reassembly (.sequenceMismatch 1 .nav),
            .error .reassembly (.sequenceMismatch 1 .nav)] := by
  intro config m encoded
  have hfragment : m.fragment 0 1 =
      .ok [m.firstFrame 0 1, m.consecutiveFrame 0 1 [0x0A],
        m.consecutiveFrame 0 terminalSequence [0x0B]] := by decide +kernel
  have hencoded : encodeEach [m.firstFrame 0 1, m.consecutiveFrame 0 1 [0x0A],
      m.consecutiveFrame 0 terminalSequence [0x0B]] = .ok encoded := by decide +kernel
  have hreceive : ((Receiver.ofConfig config).receive config encoded.flatten).2 =
      [.error .unreadableHeader (.frame (.payloadTooLarge 8 7)),
        .error .reassembly (.sequenceMismatch 1 .nav),
        .error .reassembly (.sequenceMismatch 1 .nav)] := by decide +kernel
  exact ⟨by decide, _, _, rfl, hfragment, hencoded, hreceive⟩

end Engine

end HeadUnitLink
