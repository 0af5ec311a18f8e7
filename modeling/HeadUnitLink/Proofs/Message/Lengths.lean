import HeadUnitLink.Proofs.Message.Lanes

/-!
# How long frames are

The length of a frame is that of its header, which the version sets, and that
of its payload.  `Frame.Fits` bounds both.

`Message.stamped_of_fragment` says what the frames of a message have in common:
they are stamped, have the version of the message, and no more payload than
the budget or an announcement.  So they can be written, and fit.
-/

namespace HeadUnitLink

/-! ## Frames -/

/-- A frame of no higher version than this one, with no more payload than
this. -/
structure Frame.Fits (version : UInt8) (room : Nat) (frame : Frame) : Prop where
  version_le : frame.header.version ≤ version
  payload_le : frame.payload.length ≤ room

theorem Frame.Fits.mono {version version' : UInt8} {room room' : Nat} {frame : Frame}
    (h : frame.Fits version room) (hversion : version ≤ version') (hroom : room ≤ room') :
    frame.Fits version' room' :=
  ⟨UInt8.le_trans h.version_le hversion, Nat.le_trans h.payload_le hroom⟩

/-- A higher version has no shorter header. -/
theorem headerSize?_mono {version version' : UInt8} {size size' : Nat}
    (hsize : headerSize? version = some size) (hsize' : headerSize? version' = some size')
    (hle : version ≤ version') : size ≤ size' := by
  rcases version_cases hsize with ⟨_, rfl⟩ | ⟨hlong, rfl⟩
  · exact (headerSize_bounds hsize').1
  · rcases version_cases hsize' with ⟨hshort, rfl⟩ | ⟨_, rfl⟩
    · rcases hlong with rfl | rfl <;> rcases hshort with rfl | rfl <;>
        exact absurd hle (by decide)
    · exact Nat.le_refl _

theorem Frame.Fits.length_le {version : UInt8} {room size : Nat} {frame : Frame} {bytes : Bytes}
    (h : frame.Fits version room) (hencode : frame.encode = .ok bytes)
    (hsize : headerSize? version = some size) : bytes.length ≤ size + room := by
  obtain ⟨headerBytes, hheader, rfl, -⟩ := Frame.encode_eq_ok hencode
  have hlength := headerSize?_mono (Header.length_of_encode hheader) hsize h.version_le
  have hpayload := h.payload_le
  rw [List.length_append]
  omega

/-- A stamped frame of a version with a layout can be written. -/
theorem Frame.exists_encode_stamped {header : Header} {size : Nat} {payload : Bytes}
    (hsize : headerSize? header.version = some size) (hpayload : payload.length < UInt32.size) :
    ∃ bytes, (Frame.stamped header payload).encode = .ok bytes ∧
      bytes.length = size + payload.length := by
  have hdata : (UInt32.ofNat payload.length).toNat = payload.length := by
    rw [UInt32.toNat_ofNat']
    exact Nat.mod_eq_of_lt hpayload
  have hheader : ∃ bytes, (Frame.stamped header payload).header.encode = .ok bytes := by
    rw [Header.encode_eq]
    simp only [Frame.stamped, headerSize_eq_ok_iff.2 hsize]
    exact ⟨_, rfl⟩
  obtain ⟨headerBytes, hheader⟩ := hheader
  have hlength := Header.length_of_encode hheader
  have hsame : size = headerBytes.length := Option.some.inj (hsize.symm.trans hlength)
  refine ⟨headerBytes ++ payload, ?_, by rw [List.length_append, hsame]⟩
  rw [Frame.encode_eq, hheader, if_neg (fun hne => hne hdata)]
  rfl

/-! ## The frames of a message -/

theorem length_le_of_mem_pieces {budget : Nat} (hbudget : 0 < budget) {bytes part : Bytes}
    (h : part ∈ pieces budget bytes) : part.length ≤ budget := by
  induction bytes using pieces.induct budget with
  | case1 =>
    rw [pieces] at h
    exact absurd h List.not_mem_nil
  | case2 b rest ih =>
    rw [pieces] at h
    rcases List.mem_cons.1 h with rfl | hmore
    · rw [List.length_cons, List.length_take]
      omega
    · exact ih hmore

namespace Message

theorem stamped_of_consecutives {m : Message} {messageId : UInt32} {index : Nat}
    {parts : List Bytes} {frame : Frame} (h : frame ∈ m.consecutives messageId index parts) :
    ∃ header payload, frame = Frame.stamped header payload ∧ header.version = m.version := by
  induction parts generalizing index with
  | nil => exact absurd h List.not_mem_nil
  | cons part rest ih =>
    cases rest with
    | nil =>
      rw [consecutives, List.mem_singleton] at h
      exact ⟨_, part, h, rfl⟩
    | cons next more =>
      rw [consecutives_cons_cons, List.mem_cons] at h
      rcases h with rfl | hmore
      · exact ⟨_, part, rfl, rfl⟩
      · exact ih hmore

/-- The frames of a message have its version, and no more payload than the
budget or an announcement. -/
theorem stamped_of_fragment {m : Message} {messageId : UInt32} {maxDataSize : Nat}
    {frames : List Frame} (hfragment : m.fragment messageId maxDataSize = .ok frames)
    {frame : Frame} (hframe : frame ∈ frames) :
    ∃ header payload, frame = Frame.stamped header payload ∧ header.version = m.version ∧
      payload.length ≤ max (max maxDataSize 1) firstPayloadSize := by
  obtain ⟨_, _, ⟨hsingle, rfl⟩ | ⟨_, rfl⟩⟩ := fragment_cases hfragment
  · exact ⟨_, _, List.mem_singleton.1 hframe, rfl, by omega⟩
  · rcases List.mem_cons.1 hframe with rfl | hmore
    · exact ⟨_, _, rfl, rfl, Nat.le_max_right _ _⟩
    · have hpiece := length_le_of_mem_pieces (by omega) (payload_mem_of_consecutives hmore).1
      obtain ⟨header, payload, rfl, hversion⟩ := stamped_of_consecutives hmore
      exact ⟨header, payload, rfl, hversion, Nat.le_trans hpiece (Nat.le_max_left _ _)⟩

/-- The frames of a message can be written. -/
theorem exists_encode_of_fragment {m : Message} {size : Nat}
    (hsize : headerSize? m.version = some size) {messageId : UInt32} {maxDataSize : Nat}
    {frames : List Frame} (hfragment : m.fragment messageId maxDataSize = .ok frames)
    {frame : Frame} (hframe : frame ∈ frames) :
    ∃ bytes, frame.encode = .ok bytes ∧ bytes.length = size + frame.payload.length := by
  have hlength := (fragment_cases hfragment).1
  have hpayload := (frame_of_fragment hfragment hframe).2
  obtain ⟨header, payload, rfl, hversion, -⟩ := stamped_of_fragment hfragment hframe
  have hshort : payload.length < UInt32.size := by
    have hroom : payload.length ≤ max firstPayloadSize m.wirePayload.length := hpayload
    unfold firstPayloadSize at hroom
    unfold maxFragmentedSize at hlength
    unfold UInt32.size
    omega
  rw [← hversion] at hsize
  exact Frame.exists_encode_stamped hsize hshort

end Message

end HeadUnitLink
