import HeadUnitLink.Message.Fragment
import HeadUnitLink.Proofs.Message.Assembler
import HeadUnitLink.Proofs.Wire.Decode

/-!
# Reassembly undoes fragmentation

The frames of a message, taken in one after the other, give the message back,
whatever was under way before.

* `flatten_pieces`: cutting a byte string loses nothing.
* `Message.onKeyAll_consecutives` is the loop: the buffer of the key grows by
  one piece at a time, and the last piece closes it.
* `Message.handleAll_fragment` is the result for a whole assembler.
-/

namespace HeadUnitLink

/-! ## The pieces of a byte string -/

/-- Cutting loses nothing. -/
theorem flatten_pieces (budget : Nat) (bytes : Bytes) : (pieces budget bytes).flatten = bytes := by
  induction bytes using pieces.induct budget with
  | case1 => rw [pieces, List.flatten_nil]
  | case2 b rest ih =>
    rw [pieces, List.flatten_cons, ih, List.cons_append, List.take_append_drop]

theorem pieces_ne_nil {bytes : Bytes} (budget : Nat) (h : bytes ≠ []) :
    pieces budget bytes ≠ [] := by
  cases bytes with
  | nil => exact absurd rfl h
  | cons b rest =>
    rw [pieces]
    exact List.cons_ne_nil _ _

/-- The counter of a piece that is not the last is never that of the last. -/
theorem sequenceNumber_ne_terminal (index : Nat) : sequenceNumber index ≠ terminalSequence := by
  intro heq
  have hnat := congrArg UInt8.toNat heq
  unfold sequenceNumber terminalSequence at hnat
  rw [UInt8.toNat_ofNat'] at hnat
  have hlt : index % 255 < 255 := Nat.mod_lt index (by decide)
  rw [Nat.mod_eq_of_lt (by omega)] at hnat
  exact absurd hnat (Nat.succ_ne_zero _)

namespace Message

/-- The key under which the frames of a message travel. -/
def key (m : Message) : MessageKey := { session := m.session, service := m.service }

/-- A message as it arrives under an id: in one part. -/
def assembled (m : Message) (messageId : UInt32) : Message :=
  { Message.plain m.service m.session m.version m.wirePayload with messageId }

/-- What the last frame of a message brings about on a key with this buffer.  A
message in one frame cuts short what was under way. -/
def lastOutcome (m : Message) (messageId : UInt32) (buffer : Option PartialMessage)
    (frameCount : Nat) : Assembled :=
  match buffer with
  | some stale =>
    if frameCount = 1 then .interrupted (m.assembled messageId) stale.data.length
    else .message (m.assembled messageId)
  | none => .message (m.assembled messageId)

/-! ## The frames of a message -/

/-- A message with a layout for its version and a size that a first frame can
declare has frames. -/
theorem fragment_eq {m : Message} {size : Nat} (hsize : headerSize? m.version = some size)
    (hlength : m.wirePayload.length ≤ maxFragmentedSize) (messageId : UInt32)
    (maxDataSize : Nat) :
    m.fragment messageId maxDataSize =
      if m.wirePayload.length ≤ max maxDataSize 1 then .ok [m.singleFrame messageId]
      else
        .ok (m.firstFrame messageId maxDataSize ::
          m.consecutives messageId 0 (pieces (max maxDataSize 1) m.wirePayload)) := by
  unfold fragment
  simp only [headerSize_eq_ok_iff.2 hsize]
  rw [if_neg (by omega)]

/-- What the frames of a message are, if it has any. -/
theorem fragment_cases {m : Message} {messageId : UInt32} {maxDataSize : Nat}
    {frames : List Frame} (h : m.fragment messageId maxDataSize = .ok frames) :
    m.wirePayload.length ≤ maxFragmentedSize ∧ (∃ size, headerSize? m.version = some size) ∧
      (m.wirePayload.length ≤ max maxDataSize 1 ∧ frames = [m.singleFrame messageId] ∨
        max maxDataSize 1 < m.wirePayload.length ∧
          frames = m.firstFrame messageId maxDataSize ::
            m.consecutives messageId 0 (pieces (max maxDataSize 1) m.wirePayload)) := by
  unfold fragment at h
  simp only at h
  split at h
  · exact absurd h (by simp)
  · rename_i hlength
    split at h
    · exact absurd h (by simp)
    · rename_i size hsize
      refine ⟨Nat.le_of_not_lt hlength, ⟨size, headerSize_eq_ok_iff.1 hsize⟩, ?_⟩
      split at h
      · rename_i hsingle
        exact Or.inl ⟨hsingle, (Except.ok.inj h).symm⟩
      · rename_i hlong
        exact Or.inr ⟨Nat.lt_of_not_le hlong, (Except.ok.inj h).symm⟩

theorem consecutives_cons_cons (m : Message) (messageId : UInt32) (index : Nat)
    (part next : Bytes) (more : List Bytes) :
    m.consecutives messageId index (part :: next :: more) =
      m.consecutiveFrame messageId (sequenceNumber index) part ::
        m.consecutives messageId (index + 1) (next :: more) := rfl

theorem length_consecutives (m : Message) (messageId : UInt32) (index : Nat)
    (parts : List Bytes) : (m.consecutives messageId index parts).length = parts.length := by
  induction parts generalizing index with
  | nil => rfl
  | cons part rest ih =>
    cases rest with
    | nil => rfl
    | cons next more =>
      rw [consecutives_cons_cons, List.length_cons, ih]
      rfl

theorem key_consecutives {m : Message} {messageId : UInt32} {index : Nat} {parts : List Bytes}
    {frame : Frame} (h : frame ∈ m.consecutives messageId index parts) :
    frame.header.key = m.key := by
  induction parts generalizing index with
  | nil => exact absurd h List.not_mem_nil
  | cons part rest ih =>
    cases rest with
    | nil =>
      rw [consecutives, List.mem_singleton] at h
      rw [h]
      rfl
    | cons next more =>
      rw [consecutives_cons_cons, List.mem_cons] at h
      rcases h with rfl | hmore
      · rfl
      · exact ih hmore

/-! ## Taking the frames in -/

theorem onKey_single (m : Message) (messageId : UInt32) (limit : Nat)
    (buffer : Option PartialMessage) :
    Assembler.onKey limit buffer (m.singleFrame messageId) =
      (.ok (m.lastOutcome messageId buffer 1), none) := by
  cases buffer <;> rfl

/-- The first frame opens an empty buffer in place of any other one. -/
theorem onKey_first {m : Message} {limit : Nat} (hlength : m.wirePayload.length ≤ maxFragmentedSize)
    (hfits : m.wirePayload.length ≤ limit) (messageId : UInt32) (maxDataSize : Nat)
    (buffer : Option PartialMessage) :
    Assembler.onKey limit buffer (m.firstFrame messageId maxDataSize) =
      (.ok .pending, some {
        version := m.version, messageId, total := UInt32.ofNat m.wirePayload.length
        count := UInt32.ofNat (frameCount m.wirePayload.length maxDataSize)
        received := 0, nextSequence := 1, data := [] }) := by
  have htotal : (UInt32.ofNat m.wirePayload.length).toNat = m.wirePayload.length := by
    rw [UInt32.toNat_ofNat']
    unfold maxFragmentedSize at hlength
    exact Nat.mod_eq_of_lt (by omega)
  show Assembler.onFirst limit buffer (m.firstFrame messageId maxDataSize) = _
  unfold Assembler.onFirst firstFrame Frame.stamped
  simp only [FirstPayload.decode?_encode, htotal]
  rw [if_neg (by omega)]
  rfl

/-- A piece that is not the last joins the buffer. -/
theorem onKey_piece {m : Message} {limit : Nat} {buffer : PartialMessage} {piece : Bytes}
    (hfits : buffer.data.length + piece.length ≤ limit) {sequence : UInt8}
    (hsequence : sequence ≠ terminalSequence) (messageId : UInt32) :
    Assembler.onKey limit (some buffer) (m.consecutiveFrame messageId sequence piece) =
      (.ok .pending, some { buffer with
        data := buffer.data ++ piece, received := buffer.received + 1
        nextSequence := Assembler.sequenceAfter sequence }) := by
  show Assembler.onConsecutive limit (some buffer) (m.consecutiveFrame messageId sequence piece)
    = _
  unfold Assembler.onConsecutive consecutiveFrame Frame.stamped Header.consecutive
  simp only
  rw [if_neg (by omega), if_pos hsequence]

/-- The last piece closes the buffer. -/
theorem onKey_lastPiece {m : Message} {limit : Nat} {buffer : PartialMessage} {piece : Bytes}
    (hfits : buffer.data.length + piece.length ≤ limit) (messageId : UInt32) :
    Assembler.onKey limit (some buffer) (m.consecutiveFrame messageId terminalSequence piece) =
      (.ok (.message {
        Message.plain m.service m.session buffer.version (buffer.data ++ piece) with
        messageId := buffer.messageId }), none) := by
  show Assembler.onConsecutive limit (some buffer)
    (m.consecutiveFrame messageId terminalSequence piece) = _
  unfold Assembler.onConsecutive consecutiveFrame Frame.stamped Header.consecutive
  simp only
  rw [if_neg (by omega), if_neg (fun hne => hne rfl)]
  rfl

/-- The pieces of a message grow an open buffer one by one, and the last one
yields the message. -/
theorem onKeyAll_consecutives {m : Message} {limit : Nat} {buffer : PartialMessage}
    {parts : List Bytes} (hne : parts ≠ [])
    (hfits : buffer.data.length + parts.flatten.length ≤ limit) (messageId : UInt32)
    (index : Nat) :
    Assembler.onKeyAll limit (some buffer) (m.consecutives messageId index parts) =
      (List.replicate (parts.length - 1) (.ok .pending) ++ [.ok (.message {
        Message.plain m.service m.session buffer.version (buffer.data ++ parts.flatten) with
        messageId := buffer.messageId })], none) := by
  induction parts generalizing index buffer with
  | nil => exact absurd rfl hne
  | cons part rest ih =>
    rw [List.flatten_cons, List.length_append] at hfits
    cases rest with
    | nil =>
      rw [consecutives, Assembler.onKeyAll, onKey_lastPiece (by omega), List.flatten_cons,
        List.flatten_nil, List.append_nil]
      rfl
    | cons next more =>
      have hbuffer : (buffer.data ++ part).length + (next :: more).flatten.length ≤ limit := by
        rw [List.length_append]
        omega
      rw [consecutives_cons_cons, Assembler.onKeyAll,
        onKey_piece (by omega) (sequenceNumber_ne_terminal index), ih (by simp) hbuffer]
      simp only [List.length_cons, Nat.add_sub_cancel, List.replicate_succ, List.cons_append,
        List.flatten_cons, List.append_assoc]

/-- All frames of a message, on their key: nothing comes of any but the last,
and the last yields the message and leaves no buffer open. -/
theorem onKeyAll_fragment {m : Message} {limit maxDataSize : Nat} {messageId : UInt32}
    {frames : List Frame} (hfragment : m.fragment messageId maxDataSize = .ok frames)
    (hfits : m.wirePayload.length ≤ limit) (buffer : Option PartialMessage) :
    Assembler.onKeyAll limit buffer frames =
      (List.replicate (frames.length - 1) (.ok .pending) ++
        [.ok (m.lastOutcome messageId buffer frames.length)], none) := by
  obtain ⟨hlength, _, ⟨_, rfl⟩ | ⟨hlong, rfl⟩⟩ := fragment_cases hfragment
  · rw [Assembler.onKeyAll, onKey_single]
    rfl
  · have hpayload : m.wirePayload ≠ [] := by
      intro hnil
      rw [hnil] at hlong
      exact absurd hlong (Nat.not_lt_zero _)
    have hparts := pieces_ne_nil (max maxDataSize 1) hpayload
    have hflatten := flatten_pieces (max maxDataSize 1) m.wirePayload
    rw [Assembler.onKeyAll, onKey_first hlength hfits,
      onKeyAll_consecutives hparts (by rw [hflatten]; simpa using hfits), hflatten,
      List.length_cons, length_consecutives, Nat.add_sub_cancel]
    have hpos : 0 < (pieces (max maxDataSize 1) m.wirePayload).length :=
      List.length_pos_iff.2 hparts
    have hlast : m.lastOutcome messageId buffer
        ((pieces (max maxDataSize 1) m.wirePayload).length + 1) =
          .message (m.assembled messageId) := by
      cases buffer with
      | none => rfl
      | some stale => exact if_neg (by omega)
    rw [hlast, List.nil_append, ← List.cons_append, ← List.replicate_succ, Nat.sub_add_cancel hpos]
    rfl

theorem key_fragment {m : Message} {maxDataSize : Nat} {messageId : UInt32} {frames : List Frame}
    (hfragment : m.fragment messageId maxDataSize = .ok frames) :
    ∀ frame ∈ frames, frame.header.key = m.key := by
  intro frame hframe
  obtain ⟨_, _, ⟨_, rfl⟩ | ⟨_, rfl⟩⟩ := fragment_cases hfragment
  · rw [List.mem_singleton.1 hframe]
    rfl
  · rcases List.mem_cons.1 hframe with rfl | hmore
    · rfl
    · exact key_consecutives hmore

/-- A message of a version with a layout and of a size that a first frame can
declare has frames, and an assembler that has room for it gets it back from
them: nothing comes of any frame but the last, and the last yields the
message.  The buffer of its key is closed then, and no other one has
changed. -/
theorem handleAll_fragment (m : Message) (messageId : UInt32) (maxDataSize : Nat) (a : Assembler)
    (hversion : minVersion ≤ m.version ∧ m.version ≤ maxVersion)
    (hlength : m.wirePayload.length < UInt32.size)
    (hfits : m.wirePayload.length ≤ a.maxMessageSize) :
    ∃ frames, m.fragment messageId maxDataSize = .ok frames ∧
      (a.handleAll frames).1 =
        List.replicate (frames.length - 1) (.ok .pending) ++
          [.ok (m.lastOutcome messageId (a.get? m.key) frames.length)] ∧
      (a.handleAll frames).2.get? m.key = none ∧
      ∀ other, other ≠ m.key → (a.handleAll frames).2.get? other = a.get? other := by
  obtain ⟨size, hsize⟩ := exists_headerSize?_iff.2 hversion
  have hdeclared : m.wirePayload.length ≤ maxFragmentedSize := Nat.le_of_lt_succ hlength
  have hframes : ∃ frames, m.fragment messageId maxDataSize = .ok frames := by
    rw [fragment_eq hsize hdeclared]
    split
    · exact ⟨_, rfl⟩
    · exact ⟨_, rfl⟩
  obtain ⟨frames, hfragment⟩ := hframes
  obtain ⟨hresults, hbuffers⟩ := Assembler.handleAll_onKeyAll (key_fragment hfragment) a
  rw [onKeyAll_fragment hfragment hfits] at hresults hbuffers
  refine ⟨frames, hfragment, hresults, ?_, fun other hne => ?_⟩
  · rw [hbuffers, if_pos rfl]
  · rw [hbuffers, if_neg hne]

/-- Three bytes in pieces of two, on a key where another message is under way. -/
theorem handleAll_fragment_over_stale :
    let m := Message.plain .nav 1 4 [10, 20, 30]
    let stale : PartialMessage :=
      { version := 2, messageId := 5, total := 9, count := 1, received := 1, nextSequence := 2
        data := [7, 7] }
    let a := (Assembler.empty 3).insert m.key stale
    (minVersion ≤ m.version ∧ m.version ≤ maxVersion) ∧ m.wirePayload.length < UInt32.size ∧
      m.wirePayload.length ≤ a.maxMessageSize ∧
      ∃ frames, m.fragment 6 2 = .ok frames ∧
        (a.handleAll frames).1 =
          List.replicate (frames.length - 1) (.ok .pending) ++
            [.ok (m.lastOutcome 6 (a.get? m.key) frames.length)] ∧
        (a.handleAll frames).2.get? m.key = none ∧
        ∀ other, other ≠ m.key → (a.handleAll frames).2.get? other = a.get? other :=
  ⟨by decide, by decide, by decide,
    handleAll_fragment _ 6 2 _ (by decide) (by decide) (by decide)⟩

end Message

end HeadUnitLink
