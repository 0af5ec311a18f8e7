import HeadUnitLink.Proofs.Wire.Damage
import HeadUnitLink.Wire.Role

/-!
# Frames and their bytes

A frame has one written form, and a byte string that reads as a frame is the
written form of that frame.  The writer checks the version and the declared
size, and the reader checks the codes of the header, so the two do not accept
the same frames: a control frame of an unknown kind is written and not read.

There are four groups.

* What is written.  `Frame.exists_encode_iff` says which frames are written.
* The first byte.  `Header.fields_of_byte` puts its three fields together again,
  and `Header.fixedBytes_of_ofFields` the whole header.
* What is read.  `Frame.exists_encode_of_decode` gives the bytes back that a
  frame was read from, and `Frame.decode_of_not_readable` is the one case in
  which a written frame is refused.
* Many frames.  `Frame.decodeAllOnto_of_lossless` is the induction over the
  frames of a stream.

`Frame.bijective_codec` puts the four together.
-/

namespace HeadUnitLink

/-! ## What is written -/

namespace Header

theorem exists_encode_iff {h : Header} :
    (∃ bytes, h.encode = .ok bytes) ↔ minVersion ≤ h.version ∧ h.version ≤ maxVersion := by
  rw [← exists_headerSize?_iff]
  constructor
  · rintro ⟨bytes, hencode⟩
    exact ⟨_, length_of_encode hencode⟩
  · rintro ⟨size, hsize⟩
    refine ⟨h.fixedBytes ++ if size = longHeaderSize then Word.toBytes h.messageId else [], ?_⟩
    rw [encode_eq, headerSize_eq_ok_iff.2 hsize]

end Header

namespace Frame

/-- The frames that are written. -/
theorem exists_encode_iff {f : Frame} :
    (∃ bytes, f.encode = .ok bytes) ↔
      (minVersion ≤ f.header.version ∧ f.header.version ≤ maxVersion) ∧
        f.header.dataSize.toNat = f.payload.length := by
  constructor
  · rintro ⟨bytes, hencode⟩
    obtain ⟨headerBytes, hheader, _, hsize⟩ := encode_eq_ok hencode
    exact ⟨Header.exists_encode_iff.1 ⟨headerBytes, hheader⟩, hsize⟩
  · rintro ⟨hversion, hsize⟩
    obtain ⟨headerBytes, hheader⟩ := Header.exists_encode_iff.2 hversion
    refine ⟨headerBytes ++ f.payload, ?_⟩
    rw [encode_eq, if_neg (not_not_intro hsize), hheader]

theorem length_of_encode {f : Frame} {bytes : Bytes} (h : f.encode = .ok bytes) :
    bytes.length = f.wireSize := by
  obtain ⟨headerBytes, hheader, rfl, _⟩ := encode_eq_ok h
  unfold wireSize
  rw [Header.length_of_encode hheader, Option.getD_some, List.length_append]

end Frame

/-! ## The first byte -/

/-- A byte is made of its version, its compression flag and its type code. -/
theorem Header.fields_of_byte (b : UInt8) :
    versionOf b * 16 + (if compressedOf b then 8 else 0) + typeCodeOf b = b := by
  have hb := b.toNat_lt
  unfold versionOf compressedOf typeCodeOf
  apply UInt8.toNat.inj
  by_cases hflag : b / 8 % 2 = 1
  · have hnat : b.toNat / 8 % 2 = 1 := congrArg UInt8.toNat hflag
    rw [decide_eq_true hflag, if_pos rfl]
    simp only [UInt8.toNat_add, UInt8.toNat_mul, UInt8.toNat_div, UInt8.toNat_mod,
      UInt8.toNat_ofNat, Nat.reducePow, Nat.reduceMod]
    omega
  · have hnat : b.toNat / 8 % 2 ≠ 1 := fun heq => hflag (UInt8.toNat.inj heq)
    rw [decide_eq_false hflag, if_neg Bool.false_ne_true]
    simp only [UInt8.toNat_add, UInt8.toNat_mul, UInt8.toNat_div, UInt8.toNat_mod,
      UInt8.toNat_ofNat, Nat.reducePow, Nat.reduceMod]
    omega

namespace Header

variable {first service frameData session : UInt8} {dataSize messageId : UInt32} {h : Header}

/-- A header that was read is written with the bytes that it was read from. -/
theorem fixedBytes_of_ofFields
    (hfields : ofFields first service frameData session dataSize messageId = .ok h) :
    h.fixedBytes = first :: service :: frameData :: session :: Word.toBytes dataSize ∧
      h.version = versionOf first ∧ h.messageId = messageId := by
  unfold ofFields at hfields
  split at hfields
  · exact absurd hfields (by simp)
  · rename_i frameType htype
    split at hfields
    · exact absurd hfields (by simp)
    · rename_i found hservice
      split at hfields
      · exact absurd hfields (by simp)
      · obtain rfl := Except.ok.inj hfields
        refine ⟨?_, rfl, rfl⟩
        unfold fixedBytes firstByte
        simp only [FrameType.toByte_of_ofByte? htype, Service.toByte_of_ofByte? hservice,
          fields_of_byte]

/-- Only the kind of a control frame is refused in codes that were written. -/
theorem ofFields_of_not_readable {size : Nat} (hsize : headerSize? h.version = some size)
    (hread : ¬ h.Readable) (messageId : UInt32) :
    ofFields h.firstByte h.service.toByte h.frameData h.session h.dataSize messageId =
      .error (.malformedHeader (.unknownControlKind h.frameData)) := by
  obtain ⟨_, _, htype⟩ := firstByte_fields hsize
  have hkind : h.frameType = .control ∧ ControlKind.ofByte? h.frameData = none := by
    unfold Readable at hread
    simpa using hread
  unfold ofFields
  rw [htype, FrameType.ofByte?_toByte, Service.ofByte?_toByte]
  simp only [if_pos hkind]

end Header

/-! ## What is read -/

/-- A word that was read off the start of a byte string is written with the
bytes that it was read from. -/
theorem Word.toBytes_of_leading? {bytes : Bytes} {w : UInt32} (h : leading? bytes = some w) :
    ∃ rest, bytes = toBytes w ++ rest := by
  rcases bytes with _ | ⟨b₃, _ | ⟨b₂, _ | ⟨b₁, _ | ⟨b₀, rest⟩⟩⟩⟩
  case cons.cons.cons.cons =>
    obtain rfl := Option.some.inj h
    exact ⟨rest, by rw [toBytes_ofBytes]; rfl⟩
  all_goals exact absurd h (by simp [leading?, split?])

/-- A header that was read is written with the bytes that it was read from. -/
theorem Header.encode_of_decode {first : UInt8} {tail : Bytes} {size : Nat} {h : Header}
    (hsize : headerSize? (versionOf first) = some size)
    (hdecode : decode (first :: tail) = .ok h) :
    ∃ bytes rest, h.encode = .ok bytes ∧ first :: tail = bytes ++ rest ∧ size = bytes.length := by
  have hheader := headerSize_eq_ok_iff.2 hsize
  unfold decode at hdecode
  simp only [hheader] at hdecode
  split at hdecode
  · rename_i service frameData session s₃ s₂ s₁ s₀ more
    split at hdecode
    · exact absurd hdecode (by simp)
    · rename_i messageId hid
      obtain ⟨hfixed, hversion, hmessageId⟩ := fixedBytes_of_ofFields hdecode
      rw [Word.toBytes_ofBytes] at hfixed
      have hencode : h.encode = .ok (h.fixedBytes ++
          if size = longHeaderSize then Word.toBytes h.messageId else []) := by
        rw [encode_eq, hversion, hheader]
      have hlength : headerSize? h.version = some _ := length_of_encode hencode
      rw [hversion, hsize] at hlength
      obtain ⟨rest, hrest⟩ : ∃ rest, more =
          (if size = longHeaderSize then Word.toBytes h.messageId else []) ++ rest := by
        unfold messageIdOf? at hid
        split at hid
        · rename_i hlong
          rw [if_pos hlong, hmessageId]
          exact Word.toBytes_of_leading? hid
        · rename_i hshort
          rw [if_neg hshort]
          exact ⟨more, rfl⟩
      refine ⟨_, rest, hencode, ?_, Option.some.inj hlength⟩
      rw [hfixed, List.append_assoc, ← hrest]
      rfl
  · exact absurd hdecode (by simp)

namespace Frame

theorem takePayload_eq_some {header : Header} {body rest : Bytes} {f : Frame}
    (h : takePayload header body = some (f, rest)) :
    f.header = header ∧ header.dataSize.toNat = f.payload.length ∧ body = f.payload ++ rest := by
  unfold takePayload at h
  simp only at h
  split at h
  · exact absurd h (by simp)
  · rename_i hfull
    obtain ⟨rfl, rfl⟩ := Prod.mk.inj (Option.some.inj h)
    refine ⟨rfl, ?_, (List.take_append_drop _ _).symm⟩
    simp only [List.length_take] at hfull ⊢
    omega

/-- A frame is read off its header and as many bytes as the header declares. -/
theorem decode_eq_frame {limit : Nat} {buffer rest : Bytes} {f : Frame}
    (h : decode limit buffer = .ok (some (f, rest))) :
    ∃ first tail size, buffer = first :: tail ∧
      headerSize? (Header.versionOf first) = some size ∧
      Header.decode (first :: tail) = .ok f.header ∧
      takePayload f.header ((first :: tail).drop size) = some (f, rest) := by
  cases buffer with
  | nil => exact absurd h (by simp)
  | cons first tail =>
    cases hsize : headerSize? (Header.versionOf first) with
    | none =>
      rw [decode_of_noVersion hsize] at h
      exact absurd h (by simp)
    | some size =>
      by_cases hlength : size ≤ (first :: tail).length
      · rw [decode_of_headerSize hsize hlength] at h
        split at h
        · exact absurd h (by simp)
        · rename_i header hheader
          split at h
          · exact absurd h (by simp)
          · have htake := Except.ok.inj h
            obtain ⟨rfl, _, _⟩ := takePayload_eq_some htake
            exact ⟨first, tail, size, rfl, hsize, hheader, htake⟩
      · rw [decode_of_short hsize hlength] at h
        exact absurd h (by simp)

/-- Without an error either the header is not all there, or it is good and its
payload is within the limit. -/
theorem decode_ok_cases {limit : Nat} {bytes : Bytes} {result : Option (Frame × Bytes)}
    (h : decode limit bytes = .ok result) :
    result = none ∧ bytes.length < maxHeaderSize ∨
      ∃ first tail size header, bytes = first :: tail ∧
        headerSize? (Header.versionOf first) = some size ∧ size ≤ bytes.length ∧
        header.dataSize.toNat ≤ limit ∧ result = takePayload header (bytes.drop size) := by
  cases bytes with
  | nil => exact Or.inl ⟨(Except.ok.inj h).symm, by decide⟩
  | cons first tail =>
    cases hsize : headerSize? (Header.versionOf first) with
    | none =>
      rw [decode_of_noVersion hsize] at h
      exact absurd h (by simp)
    | some size =>
      have hmax := (headerSize_bounds hsize).2
      by_cases hlength : size ≤ (first :: tail).length
      · rw [decode_of_headerSize hsize hlength] at h
        split at h
        · exact absurd h (by simp)
        · rename_i header _
          split at h
          · exact absurd h (by simp)
          · rename_i hfits
            exact Or.inr ⟨first, tail, size, header, rfl, hsize, hlength, Nat.le_of_not_lt hfits,
              (Except.ok.inj h).symm⟩
      · rw [decode_of_short hsize hlength] at h
        exact Or.inl ⟨(Except.ok.inj h).symm, by omega⟩

/-- A frame is decoded only if its payload is within the limit. -/
theorem length_payload_le_of_decode {limit : Nat} {bytes rest : Bytes} {frame : Frame}
    (h : decode limit bytes = .ok (some (frame, rest))) :
    frame.payload.length ≤ limit := by
  rcases decode_ok_cases h with ⟨hnone, -⟩ | ⟨_, _, _, header, _, _, _, hfits, htake⟩
  · exact absurd hnone (by simp)
  · obtain ⟨_, hlength, _⟩ := takePayload_eq_some htake.symm
    omega

/-- A frame that was read is written with the bytes that it was read from. -/
theorem exists_encode_of_decode {limit : Nat} {buffer rest : Bytes} {f : Frame}
    (h : decode limit buffer = .ok (some (f, rest))) :
    ∃ bytes, f.encode = .ok bytes ∧ buffer = bytes ++ rest := by
  obtain ⟨first, tail, size, rfl, hsize, hheader, htake⟩ := decode_eq_frame h
  obtain ⟨headerBytes, more, hencode, hbytes, rfl⟩ := Header.encode_of_decode hsize hheader
  rw [hbytes, List.drop_left] at htake
  obtain ⟨_, hpayload, rfl⟩ := takePayload_eq_some htake
  refine ⟨headerBytes ++ f.payload, ?_, ?_⟩
  · rw [encode_eq, if_neg (not_not_intro hpayload), hencode]
  · rw [hbytes, List.append_assoc]

/-- A decoded frame is as long as it says. -/
theorem drop_wireSize_of_decode {limit : Nat} {bytes rest : Bytes} {frame : Frame}
    (h : decode limit bytes = .ok (some (frame, rest))) : bytes.drop frame.wireSize = rest := by
  obtain ⟨encoded, hencode, rfl⟩ := exists_encode_of_decode h
  rw [← length_of_encode hencode, List.drop_left]

/-- A control frame of an unknown kind is written and not read. -/
theorem decode_of_not_readable {f : Frame} {bytes : Bytes} (hencode : f.encode = .ok bytes)
    (hread : ¬ f.header.Readable) (limit : Nat) (rest : Bytes) :
    decode limit (bytes ++ rest) =
      .error (.malformedHeader (.unknownControlKind f.header.frameData)) := by
  obtain ⟨headerBytes, hheader, rfl, _⟩ := encode_eq_ok hencode
  obtain ⟨size, hsize, hbytes⟩ := Header.encode_eq_ok hheader
  have hfault := Header.decode_encode_eq hheader
  rw [Header.ofFields_of_not_readable hsize hread] at hfault
  have hlength := Header.length_of_encode hheader
  rw [← (Header.firstByte_fields hsize).1] at hlength
  obtain ⟨tail, rfl⟩ : ∃ tail, headerBytes = f.header.firstByte :: tail := ⟨_, hbytes⟩
  have hmalformed : decode limit (f.header.firstByte :: tail) =
      .error (.malformedHeader (.unknownControlKind f.header.frameData)) :=
    decode_of_malformed hlength (Nat.le_refl _) hfault
  rw [List.append_assoc]
  exact decode_append_of_error hmalformed _

/-! ## Many frames -/

/-- A frame that has no message id where its layout has no place for one arrives as it
is. -/
theorem received_eq {f : Frame} (h : f.header.version < 3 → f.header.messageId = 0) :
    f.received = f := by
  have hid : (if 3 ≤ f.header.version then f.header.messageId else 0) = f.header.messageId := by
    by_cases hversion : 3 ≤ f.header.version
    · exact if_pos hversion
    · rw [if_neg hversion, h (UInt8.not_le.1 hversion)]
  unfold received Header.received
  rw [hid]

/-- A frame that is written, read within the limit, and loses nothing on the
way. -/
structure Lossless (limit : Nat) (f : Frame) : Prop where
  encodes : ∃ bytes, f.encode = .ok bytes
  readable : f.header.Readable
  length_le : f.payload.length ≤ limit
  messageId_eq : f.header.version < 3 → f.header.messageId = 0

theorem Lossless.received_eq {limit : Nat} {f : Frame} (h : f.Lossless limit) : f.received = f :=
  Frame.received_eq h.messageId_eq

theorem decodeAllOnto_nil (limit : Nat) (taken : List Frame) :
    decodeAllOnto limit taken [] = (taken, none, []) := by
  rw [decodeAllOnto]
  rfl

theorem decodeAllOnto_of_frame {limit : Nat} {bytes rest : Bytes} {f : Frame}
    (h : decode limit bytes = .ok (some (f, rest))) (taken : List Frame) :
    decodeAllOnto limit taken bytes = decodeAllOnto limit (f :: taken) rest := by
  have htaken := takeFrom_frame_iff.2 h
  rw [decodeAllOnto]
  split
  · rename_i found more hfound
    obtain ⟨hsame, rfl⟩ := Prod.mk.inj (htaken.symm.trans hfound)
    obtain rfl := Option.some.inj (Except.ok.inj hsame)
    rfl
  · rename_i hnone
    cases htaken.symm.trans hnone
  · rename_i herror
    cases htaken.symm.trans herror

/-- The frames of a stream are taken off it one after the other. -/
theorem decodeAllOnto_of_lossless {limit : Nat} {frames : List Frame} {encoded : List Bytes}
    (hframes : ∀ f ∈ frames, f.Lossless limit)
    (hencoded : frames.map encode = encoded.map .ok) (taken : List Frame) :
    decodeAllOnto limit taken encoded.flatten = (frames.reverse ++ taken, none, []) := by
  induction frames generalizing encoded taken with
  | nil =>
    obtain rfl : encoded = [] := List.map_eq_nil_iff.1 hencoded.symm
    exact decodeAllOnto_nil limit taken
  | cons f more ih =>
    cases encoded with
    | nil => exact absurd hencoded (by simp)
    | cons bytes rest =>
      rw [List.map_cons, List.map_cons] at hencoded
      obtain ⟨hbytes, hrest⟩ := List.cons.inj hencoded
      have hf := hframes f List.mem_cons_self
      have hdecode := decode_encode_append hbytes hf.readable hf.length_le rest.flatten
      rw [hf.received_eq] at hdecode
      rw [List.flatten_cons, decodeAllOnto_of_frame hdecode,
        ih (fun other hother => hframes other (List.mem_cons_of_mem _ hother)) hrest,
        List.reverse_cons, List.append_assoc, List.singleton_append]

/-- Frames that can be written one by one can be written. -/
theorem exists_encoded {frames : List Frame} (h : ∀ f ∈ frames, ∃ bytes, f.encode = .ok bytes) :
    ∃ encoded : List Bytes, frames.map encode = encoded.map .ok := by
  induction frames with
  | nil => exact ⟨[], rfl⟩
  | cons f rest ih =>
    obtain ⟨bytes, hbytes⟩ := h f List.mem_cons_self
    obtain ⟨encoded, hencoded⟩ := ih fun other hother => h other (List.mem_cons_of_mem _ hother)
    exact ⟨bytes :: encoded, by rw [List.map_cons, hbytes, hencoded, List.map_cons]⟩

/-! ## The codec -/

/-- Frames and their bytes, in both directions.  A frame is written if and only
if its version has a layout and its header declares the size of its payload; it
goes behind the buffer with as many bytes as it counts, and one that is refused
leaves the buffer alone.  What was written is read back, up to a message id for
which the layout has no place, unless it is a control frame of an unknown kind.
What was read is written with the bytes that it was read from.  So frames that
lose nothing are read off the bytes of all of them, and nothing is left. -/
theorem bijective_codec :
    (∀ (f : Frame) (buffer : Bytes),
      ((f.appendTo buffer).1 = .ok () ↔
        (minVersion ≤ f.header.version ∧ f.header.version ≤ maxVersion) ∧
          f.header.dataSize.toNat = f.payload.length) ∧
      ((f.appendTo buffer).1 = .ok () → ∃ bytes, f.encode = .ok bytes ∧
        bytes.length = f.wireSize ∧ (f.appendTo buffer).2 = buffer ++ bytes) ∧
      ∀ e, (f.appendTo buffer).1 = .error e → (f.appendTo buffer).2 = buffer) ∧
    (∀ (f : Frame) (bytes : Bytes), f.encode = .ok bytes →
      ∀ limit, f.payload.length ≤ limit → ∀ rest,
        (f.header.Readable → decode limit (bytes ++ rest) = .ok (some (f.received, rest))) ∧
        (¬ f.header.Readable → decode limit (bytes ++ rest) =
          .error (.malformedHeader (.unknownControlKind f.header.frameData)))) ∧
    (∀ (limit : Nat) (buffer : Bytes) (f : Frame) (rest : Bytes),
      decode limit buffer = .ok (some (f, rest)) →
        ∃ bytes, f.encode = .ok bytes ∧ buffer = bytes ++ rest) ∧
    ∀ (limit : Nat) (frames : List Frame), (∀ f ∈ frames, f.Lossless limit) →
      ∃ encoded : List Bytes, frames.map encode = encoded.map .ok ∧
        decodeAll limit encoded.flatten = (frames, none, []) := by
  refine ⟨fun f buffer => ?written, fun f bytes hencode limit hlimit rest => ?readBack,
    fun _ _ _ _ => exists_encode_of_decode, fun limit frames hframes => ?stream⟩
  case written =>
    rw [← exists_encode_iff, appendTo_eq]
    cases hencode : f.encode with
    | error cause =>
      refine ⟨iff_of_false (by simp) (by simp), fun h => absurd h (by simp), fun _ _ => rfl⟩
    | ok bytes =>
      exact ⟨iff_of_true rfl ⟨bytes, rfl⟩, fun _ => ⟨bytes, rfl, length_of_encode hencode, rfl⟩,
        fun _ h => absurd h (by simp)⟩
  case readBack =>
    exact ⟨fun hread => decode_encode_append hencode hread hlimit rest,
      fun hread => decode_of_not_readable hencode hread limit rest⟩
  case stream =>
    obtain ⟨encoded, hencoded⟩ := exists_encoded fun f hf => (hframes f hf).encodes
    refine ⟨encoded, hencoded, ?_⟩
    unfold decodeAll
    rw [decodeAllOnto_of_lossless hframes hencoded, List.append_nil]
    simp only [List.reverse_reverse]

/-- A heartbeat in the layout without a message id, and a compressed frame in
the other one. -/
theorem bijective_codec_two_layouts :
    let frames : List Frame :=
      [Frame.stamped (Header.control .control 2 .heartbeat 1) [],
        Frame.stamped { Header.single .nav 1 0 7 3 with compressed := true } [0x31, 0x32]]
    (∀ f ∈ frames, f.Lossless 2) ∧
      ∃ encoded : List Bytes, frames.map encode = encoded.map .ok ∧
        decodeAll 2 encoded.flatten = (frames, none, []) := by
  intro frames
  have hframes : ∀ f ∈ frames, f.Lossless 2 := by
    refine List.forall_mem_cons.2 ⟨⟨⟨_, rfl⟩, by decide, by decide, by decide⟩, ?_⟩
    refine List.forall_mem_singleton.2 ⟨⟨_, rfl⟩, by decide, by decide, by decide⟩
  exact ⟨hframes, bijective_codec.2.2.2 2 frames hframes⟩

end Frame

end HeadUnitLink
