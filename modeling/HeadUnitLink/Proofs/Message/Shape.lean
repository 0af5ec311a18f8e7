import HeadUnitLink.Proofs.Message.Lengths
import Mathlib.Algebra.Order.Floor.Div

/-!
# The shape of a fragmented message

A message is cut every `budget` bytes, and its pieces are numbered one after the
other.  So a frame can be told from its place alone, without the frames before it.

* `getElem?_pieces` is the piece at a place, and `lt_length_pieces_iff` says which
  places there are; `length_pieces` counts them.
* `Message.getElem?_consecutives` is the frame at a place.
* `Message.Shape` says what the frames of a message look like, and
  `Message.Labels` what every one of them has of the message.
-/

namespace HeadUnitLink

/-! ## Pieces -/

section Pieces

variable {budget : Nat} {bytes : Bytes}

theorem pieces_of_ne_nil (hbudget : 0 < budget) (h : bytes ≠ []) :
    pieces budget bytes = bytes.take budget :: pieces budget (bytes.drop budget) := by
  obtain ⟨b, rest, rfl⟩ := List.exists_cons_of_ne_nil h
  obtain ⟨room, rfl⟩ := Nat.exists_eq_add_of_le' hbudget
  rw [pieces, List.take_succ_cons, List.drop_succ_cons, Nat.add_sub_cancel]

theorem frameCount_eq_ceilDiv (total maxDataSize : Nat) :
    frameCount total maxDataSize = total ⌈/⌉ max maxDataSize 1 :=
  (Nat.ceilDiv_eq_add_pred_div _ _).symm

theorem length_pieces (hbudget : 0 < budget) (bytes : Bytes) :
    (pieces budget bytes).length = bytes.length ⌈/⌉ budget := by
  -- on the length, because a cut takes many bytes off
  induction hlength : bytes.length using Nat.strongRecOn generalizing bytes with
  | ind n ih =>
    by_cases hnil : bytes = []
    · rw [← hlength, hnil, pieces, List.length_nil]
      exact (zero_ceilDiv budget).symm
    · have hpos : 0 < n := hlength ▸ List.length_pos_iff.2 hnil
      have hdrop : (bytes.drop budget).length = n - budget := by rw [List.length_drop, hlength]
      have hstep : (n + budget - 1) / budget = (n - 1) / budget + 1 := by
        rw [← Nat.add_div_right _ hbudget]
        congr 1
        omega
      rw [pieces_of_ne_nil hbudget hnil, List.length_cons, ih _ (by omega) _ hdrop,
        Nat.ceilDiv_eq_add_pred_div, Nat.ceilDiv_eq_add_pred_div, hstep]
      congr 1
      by_cases hlast : n ≤ budget
      · rw [Nat.div_eq_of_lt (by omega), Nat.div_eq_of_lt (by omega)]
      · congr 1
        omega

/-- A piece begins at every multiple of the budget that is within the bytes. -/
theorem lt_length_pieces_iff (hbudget : 0 < budget) {k : Nat} :
    k < (pieces budget bytes).length ↔ budget * k < bytes.length := by
  rw [length_pieces hbudget, ← Nat.not_le, ceilDiv_le_iff_le_mul hbudget, Nat.not_le]

/-- The piece at a place. -/
theorem getElem?_pieces (hbudget : 0 < budget) {k : Nat} (hk : budget * k < bytes.length) :
    (pieces budget bytes)[k]? = some ((bytes.drop (budget * k)).take budget) := by
  have hnil : bytes ≠ [] := List.length_pos_iff.1 (by omega)
  induction k generalizing bytes with
  | zero => rw [pieces_of_ne_nil hbudget hnil, List.getElem?_cons_zero, Nat.mul_zero, List.drop_zero]
  | succ k ih =>
    rw [Nat.mul_succ] at hk ⊢
    have hrest : budget * k < (bytes.drop budget).length := by
      rw [List.length_drop]
      omega
    rw [pieces_of_ne_nil hbudget hnil, List.getElem?_cons_succ,
      ih hrest (List.length_pos_iff.1 (by omega)), List.drop_drop, Nat.add_comm budget]

theorem length_of_getElem?_pieces (hbudget : 0 < budget) {k : Nat} {piece : Bytes}
    (h : (pieces budget bytes)[k]? = some piece) :
    piece.length = min budget (bytes.length - budget * k) := by
  have hk := (lt_length_pieces_iff hbudget).1 (List.getElem?_eq_some_iff.1 h).1
  rw [getElem?_pieces hbudget hk] at h
  rw [← Option.some.inj h, List.length_take, List.length_drop]

/-- All pieces but the last fill the budget. -/
theorem length_piece_of_not_last (hbudget : 0 < budget) {k : Nat} {piece : Bytes}
    (h : (pieces budget bytes)[k]? = some piece) (hk : k + 1 < (pieces budget bytes).length) :
    piece.length = budget := by
  have hmore := (lt_length_pieces_iff hbudget).1 hk
  rw [Nat.mul_succ] at hmore
  rw [length_of_getElem?_pieces hbudget h]
  omega

/-- No piece is empty. -/
theorem length_piece_bounds (hbudget : 0 < budget) {k : Nat} {piece : Bytes}
    (h : (pieces budget bytes)[k]? = some piece) : 1 ≤ piece.length ∧ piece.length ≤ budget := by
  have hk := (lt_length_pieces_iff hbudget).1 (List.getElem?_eq_some_iff.1 h).1
  rw [length_of_getElem?_pieces hbudget h]
  omega

end Pieces

theorem toNat_sequenceNumber (index : Nat) : (sequenceNumber index).toNat = index % 255 + 1 := by
  unfold sequenceNumber
  rw [UInt8.toNat_ofNat', Nat.mod_eq_of_lt]
  have hlt := Nat.mod_lt index (by decide : 0 < 255)
  omega

namespace Message

variable {m : Message} {messageId : UInt32}

/-! ## Numbered frames -/

/-- The frame at a place; the last one has the terminal counter. -/
theorem getElem?_consecutives (m : Message) (messageId : UInt32) (index : Nat)
    (parts : List Bytes) (k : Nat) :
    (m.consecutives messageId index parts)[k]? =
      parts[k]?.map (m.consecutiveFrame messageId
        (if k + 1 = parts.length then terminalSequence else sequenceNumber (index + k))) := by
  induction parts generalizing index k with
  | nil => rfl
  | cons part rest ih =>
    cases rest with
    | nil =>
      cases k with
      | zero => rfl
      | succ k => rfl
    | cons next more =>
      rw [consecutives_cons_cons]
      cases k with
      | zero => rfl
      | succ k =>
        have hlast : k + 1 + 1 = (part :: next :: more).length ↔ k + 1 = (next :: more).length :=
          Nat.succ_inj
        simp only [List.getElem?_cons_succ, ih, hlast, Nat.add_assoc, Nat.add_comm 1 k]

theorem eq_consecutiveFrame_of_mem {index : Nat} {parts : List Bytes} {frame : Frame}
    (h : frame ∈ m.consecutives messageId index parts) :
    ∃ sequence piece, frame = m.consecutiveFrame messageId sequence piece := by
  obtain ⟨k, hk⟩ := List.mem_iff_getElem?.1 h
  rw [getElem?_consecutives] at hk
  obtain ⟨piece, -, rfl⟩ := Option.map_eq_some_iff.1 hk
  exact ⟨_, piece, rfl⟩

theorem payloads_consecutives (m : Message) (messageId : UInt32) (index : Nat)
    (parts : List Bytes) : (m.consecutives messageId index parts).map Frame.payload = parts := by
  apply List.ext_getElem?
  intro k
  rw [List.getElem?_map, getElem?_consecutives, Option.map_map]
  cases parts[k]? with
  | none => rfl
  | some piece => rfl

/-! ## The shape -/

/-- The frame has the labels of the message, declares the size of its payload, and
can be written. -/
structure Labels (m : Message) (messageId : UInt32) (frame : Frame) : Prop where
  messageId_eq : frame.header.messageId = messageId
  session_eq : frame.header.session = m.session
  service_eq : frame.header.service = m.service
  version_eq : frame.header.version = m.version
  dataSize_eq : frame.header.dataSize.toNat = frame.payload.length
  encodes : ∃ bytes, frame.encode = .ok bytes

/-- The frame declares this many bytes in this many pieces. -/
structure Announces (total count : Nat) (frame : Frame) : Prop where
  frameType_eq : frame.header.frameType = .first
  length_eq : frame.payload.length = firstPayloadSize
  declared : ∃ declaredTotal declaredCount,
    FirstPayload.decode? frame.payload = some (declaredTotal, declaredCount) ∧
      declaredTotal.toNat = total ∧ declaredCount.toNat = count

/-- The frames carry these bytes in pieces of `budget` bytes.  The counter of the
pieces goes from 1 to 255 and then from 1 again; it is 0 for the last piece, which
is the only one that may be shorter. -/
structure Carry (payload : Bytes) (budget : Nat) (frames : List Frame) : Prop where
  length_eq : frames.length = payload.length ⌈/⌉ budget
  joined : (frames.map Frame.payload).flatten = payload
  frameType_eq : ∀ frame ∈ frames, frame.header.frameType = .consecutive
  counted : ∀ k frame, frames[k]? = some frame → k + 1 < frames.length →
    frame.payload.length = budget ∧ frame.header.frameData.toNat = k % 255 + 1
  last : ∀ k frame, frames[k]? = some frame → k + 1 = frames.length →
    frame.header.frameData = 0 ∧ 1 ≤ frame.payload.length ∧ frame.payload.length ≤ budget

/-- A message within the budget is one single frame.  Any other is a first frame
and the frames with the pieces. -/
inductive Shape (m : Message) (budget : Nat) : List Frame → Prop where
  | single {frame : Frame} (hlength : m.wirePayload.length ≤ budget)
      (htype : frame.header.frameType = .single) (hpayload : frame.payload = m.wirePayload) :
      Shape m budget [frame]
  | several {first : Frame} {rest : List Frame} (hlength : budget < m.wirePayload.length)
      (hfirst : Announces m.wirePayload.length (m.wirePayload.length ⌈/⌉ budget) first)
      (hrest : Carry m.wirePayload budget rest) : Shape m budget (first :: rest)

theorem announces_firstFrame (hlength : m.wirePayload.length < UInt32.size) (messageId : UInt32)
    (maxDataSize : Nat) :
    Announces m.wirePayload.length (m.wirePayload.length ⌈/⌉ max maxDataSize 1)
      (m.firstFrame messageId maxDataSize) := by
  have hcount : m.wirePayload.length ⌈/⌉ max maxDataSize 1 ≤ m.wirePayload.length := by
    rw [ceilDiv_le_iff_le_mul (by omega)]
    exact Nat.le_mul_of_pos_left _ (by omega)
  refine ⟨rfl, rfl, _, _, FirstPayload.decode?_encode _ _, ?_, ?_⟩
  · rw [UInt32.toNat_ofNat', Nat.mod_eq_of_lt hlength]
  · rw [UInt32.toNat_ofNat', frameCount_eq_ceilDiv,
      Nat.mod_eq_of_lt (Nat.lt_of_le_of_lt hcount hlength)]

theorem carry_consecutives {budget : Nat} (hbudget : 0 < budget) (m : Message)
    (messageId : UInt32) :
    Carry m.wirePayload budget (m.consecutives messageId 0 (pieces budget m.wirePayload)) := by
  have hlength := length_consecutives m messageId 0 (pieces budget m.wirePayload)
  refine ⟨hlength.trans (length_pieces hbudget _), ?_,
    fun frame hframe => (payload_mem_of_consecutives hframe).2, fun k frame hframe hk => ?_,
    fun k frame hframe hk => ?_⟩
  · rw [payloads_consecutives, flatten_pieces]
  · rw [hlength] at hk
    rw [getElem?_consecutives, if_neg (Nat.ne_of_lt hk), Nat.zero_add] at hframe
    obtain ⟨piece, hpiece, rfl⟩ := Option.map_eq_some_iff.1 hframe
    exact ⟨length_piece_of_not_last hbudget hpiece hk, toNat_sequenceNumber k⟩
  · rw [hlength] at hk
    rw [getElem?_consecutives, if_pos hk] at hframe
    obtain ⟨piece, hpiece, rfl⟩ := Option.map_eq_some_iff.1 hframe
    exact ⟨rfl, length_piece_bounds hbudget hpiece⟩

theorem labels_of_fragment {size : Nat} (hsize : headerSize? m.version = some size)
    {maxDataSize : Nat} {frames : List Frame}
    (hfragment : m.fragment messageId maxDataSize = .ok frames) {frame : Frame}
    (hframe : frame ∈ frames) : m.Labels messageId frame := by
  obtain ⟨bytes, hencode, -⟩ := exists_encode_of_fragment hsize hfragment hframe
  have hencodes : ∃ bytes, frame.encode = .ok bytes := ⟨bytes, hencode⟩
  obtain ⟨-, -, -, hdata⟩ := Frame.encode_eq_ok hencode
  obtain ⟨_, _, ⟨_, rfl⟩ | ⟨_, rfl⟩⟩ := fragment_cases hfragment
  · obtain rfl := List.mem_singleton.1 hframe
    exact ⟨rfl, rfl, rfl, rfl, hdata, hencodes⟩
  · rcases List.mem_cons.1 hframe with rfl | hmore
    · exact ⟨rfl, rfl, rfl, rfl, hdata, hencodes⟩
    · obtain ⟨sequence, piece, rfl⟩ := eq_consecutiveFrame_of_mem hmore
      exact ⟨rfl, rfl, rfl, rfl, hdata, hencodes⟩

/-- Every message of a version with a layout, and of a length that a first frame can
declare, is cut into frames of this shape, whatever the id and the budget.  All of
the frames have the labels of the message and can be written. -/
theorem fragment_shape (m : Message) (messageId : UInt32) (maxDataSize : Nat)
    (hversion : minVersion ≤ m.version ∧ m.version ≤ maxVersion)
    (hlength : m.wirePayload.length < UInt32.size) :
    ∃ frames, m.fragment messageId maxDataSize = .ok frames ∧
      (∀ frame ∈ frames, m.Labels messageId frame) ∧ m.Shape (max maxDataSize 1) frames := by
  obtain ⟨size, hsize⟩ := exists_headerSize?_iff.2 hversion
  have hbudget : 0 < max maxDataSize 1 := by omega
  have hfragment := fragment_eq hsize (Nat.le_of_lt_succ hlength) messageId maxDataSize
  split at hfragment
  · rename_i hsingle
    exact ⟨_, hfragment, fun frame => labels_of_fragment hsize hfragment,
      Shape.single hsingle rfl rfl⟩
  · rename_i hlong
    exact ⟨_, hfragment, fun frame => labels_of_fragment hsize hfragment,
      Shape.several (Nat.lt_of_not_le hlong) (announces_firstFrame hlength messageId maxDataSize)
        (carry_consecutives hbudget m messageId)⟩

/-- A message of 600 bytes without room for more than one byte in a frame, which
takes more frames than the counter has values. -/
theorem fragment_shape_of_long :
    let m := Message.plain .audio 9 4 (List.replicate 600 7)
    (minVersion ≤ m.version ∧ m.version ≤ maxVersion) ∧ m.wirePayload.length < UInt32.size ∧
      ∃ frames, m.fragment 5 0 = .ok frames ∧
        (∀ frame ∈ frames, m.Labels 5 frame) ∧ m.Shape 1 frames := by
  have hversion : minVersion ≤ (4 : UInt8) ∧ (4 : UInt8) ≤ maxVersion := by decide
  have hlength : (Message.plain .audio 9 4 (List.replicate 600 7)).wirePayload.length <
      UInt32.size := by
    show (List.replicate 600 7).length < UInt32.size
    rw [List.length_replicate]
    decide
  exact ⟨hversion, hlength,
    fragment_shape (Message.plain .audio 9 4 (List.replicate 600 7)) 5 0 hversion hlength⟩

end Message

end HeadUnitLink
