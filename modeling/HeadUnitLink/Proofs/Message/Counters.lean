import HeadUnitLink.Message.Remark
import HeadUnitLink.Proofs.Message.Shape

/-!
# Sender and receiver count alike

The sender numbers a piece by its place, the receiver expects the number that
follows the one before.  Both go around after 255, and both come to the size
and the number of pieces that the first frame declares.

* `sequenceAfter_sequenceNumber`: the two rules agree on the next number.
* `Message.bufferAfter` is the buffer of a message of which some pieces have
  come, `Message.onKey_bufferAfter` the step to one piece more, and
  `Message.onKeyAll_take` the run up to any piece.
* `Message.accepts_fragment_iff`: which messages are taken in.
* `Message.counters_agree`: every piece meets the buffer that waits for it
  (`Assembler.Awaits`), and no remark says that the message is damaged.
-/

namespace HeadUnitLink

/-- The number that the receiver expects is the one that the sender gives. -/
theorem sequenceAfter_sequenceNumber (index : Nat) :
    Assembler.sequenceAfter (sequenceNumber index) = sequenceNumber (index + 1) := by
  unfold Assembler.sequenceAfter
  rw [toNat_sequenceNumber, Nat.mod_add_mod]
  rfl

namespace Assembler

/-- No frame is reported as an error. -/
def Accepts (a : Assembler) (frames : List Frame) : Prop :=
  ∀ result ∈ (a.handleAll frames).1, ∃ outcome, result = .ok outcome

/-- A buffer that was opened by `first` waits for this piece: a piece before the
last has the counter that comes next, and the last one makes up the length and
the number of pieces that `first` declares. -/
structure Awaits (first : Frame) (buffer : PartialMessage) (piece : Frame) : Prop where
  declared : FirstPayload.decode? first.payload = some (buffer.total, buffer.count)
  next : piece.header.frameData ≠ terminalSequence →
    buffer.nextSequence = piece.header.frameData
  length_eq : piece.header.frameData = terminalSequence →
    buffer.data.length + piece.payload.length = buffer.total.toNat
  count_eq : piece.header.frameData = terminalSequence →
    buffer.received.toNat + 1 = buffer.count.toNat

/-- There is nothing to remark on about a piece that is waited for. -/
theorem Awaits.consecutiveRemarks_eq_nil {first piece : Frame} {buffer : PartialMessage}
    (h : Awaits first buffer piece) (limit : Nat) : consecutiveRemarks limit buffer piece = [] := by
  have hsequence : sequenceRemarks buffer piece.header = [] :=
    if_neg fun hodd => hodd.2 (h.next hodd.1).symm
  unfold consecutiveRemarks
  rw [hsequence, List.nil_append]
  split
  · rename_i hend
    have hreceived : buffer.received + 1 = buffer.count := by
      apply UInt32.toNat_inj.1
      rw [UInt32.toNat_add, UInt32.toNat_one, h.count_eq hend.2]
      exact Nat.mod_eq_of_lt buffer.count.toNat_lt
    refine if_neg ?_
    rintro (hlength | hcount)
    · rw [List.length_append, h.length_eq hend.2] at hlength
      exact hlength rfl
    · exact hcount hreceived
  · rfl

theorem remarks_eq_nil_of_awaits {a : Assembler} {first piece : Frame} {buffer : PartialMessage}
    (htype : piece.header.frameType = .consecutive)
    (hbuffer : a.get? piece.header.key = some buffer) (h : Awaits first buffer piece) :
    a.remarks piece = [] := by
  unfold remarks
  simp only [hbuffer, htype]
  exact h.consecutiveRemarks_eq_nil a.maxMessageSize

/-- Only a piece can give a sign of damage. -/
theorem not_isDamage_of_ne_consecutive {a : Assembler} {frame : Frame} {remark : Remark}
    (htype : frame.header.frameType ≠ .consecutive) (h : remark ∈ a.remarks frame) :
    ¬ remark.IsDamage := by
  unfold remarks at h
  cases hbuffer : a.get? frame.header.key with
  | none =>
    simp only [hbuffer] at h
    exact absurd h List.not_mem_nil
  | some stale =>
    simp only [hbuffer] at h
    cases hkind : frame.header.frameType with
    | consecutive => exact absurd hkind htype
    | control =>
      simp only [hkind] at h
      exact absurd h List.not_mem_nil
    | single =>
      simp only [hkind] at h
      rw [List.mem_singleton.1 h]
      exact id
    | first =>
      simp only [hkind] at h
      split at h
      · rw [List.mem_singleton.1 h]
        exact id
      · exact absurd h List.not_mem_nil

end Assembler

namespace Message

variable {m : Message} {messageId : UInt32} {maxDataSize : Nat}

/-! ## The buffer of a message under way -/

/-- The buffer of a message of which `k` pieces have come. -/
def bufferAfter (m : Message) (messageId : UInt32) (maxDataSize k : Nat) : PartialMessage :=
  { version := m.version, messageId
    total := UInt32.ofNat m.wirePayload.length
    count := UInt32.ofNat (frameCount m.wirePayload.length maxDataSize)
    received := UInt32.ofNat k
    nextSequence := sequenceNumber k
    data := m.wirePayload.take (max maxDataSize 1 * k) }

theorem data_bufferAfter_succ {k : Nat} {piece : Bytes}
    (hpiece : (pieces (max maxDataSize 1) m.wirePayload)[k]? = some piece) (messageId : UInt32) :
    (m.bufferAfter messageId maxDataSize (k + 1)).data =
      (m.bufferAfter messageId maxDataSize k).data ++ piece := by
  have hbudget : 0 < max maxDataSize 1 := by omega
  have hk := (lt_length_pieces_iff hbudget).1 (List.getElem?_eq_some_iff.1 hpiece).1
  rw [getElem?_pieces hbudget hk] at hpiece
  unfold bufferAfter
  rw [Nat.mul_succ, List.take_add, ← Option.some.inj hpiece]

/-- A piece that is not the last takes the buffer from one place to the next. -/
theorem onKey_bufferAfter {limit k : Nat} {piece : Bytes} (hfits : m.wirePayload.length ≤ limit)
    (hpiece : (pieces (max maxDataSize 1) m.wirePayload)[k]? = some piece)
    (messageId : UInt32) :
    Assembler.onKey limit (some (m.bufferAfter messageId maxDataSize k))
        (m.consecutiveFrame messageId (sequenceNumber k) piece) =
      (.ok .pending, some (m.bufferAfter messageId maxDataSize (k + 1))) := by
  have hdata := data_bufferAfter_succ hpiece messageId
  have hroom : (m.bufferAfter messageId maxDataSize k).data.length + piece.length ≤ limit := by
    rw [← List.length_append, ← hdata]
    exact Nat.le_trans (List.length_take_le' _ _) hfits
  have hreceived : UInt32.ofNat (k + 1) = UInt32.ofNat k + 1 := UInt32.ofNat_add k 1
  rw [onKey_piece hroom (sequenceNumber_ne_terminal k), ← hdata, sequenceAfter_sequenceNumber]
  unfold bufferAfter
  rw [hreceived]

/-- All frames of a message before a piece bring the buffer to the place of the
piece, whatever was there before. -/
theorem onKeyAll_take {limit k : Nat} (hlength : m.wirePayload.length ≤ maxFragmentedSize)
    (hfits : m.wirePayload.length ≤ limit) (messageId : UInt32) (buffer : Option PartialMessage)
    (hk : k < (pieces (max maxDataSize 1) m.wirePayload).length) :
    (Assembler.onKeyAll limit buffer ((m.firstFrame messageId maxDataSize ::
        m.consecutives messageId 0 (pieces (max maxDataSize 1) m.wirePayload)).take (k + 1))).2 =
      some (m.bufferAfter messageId maxDataSize k) := by
  induction k with
  | zero =>
    rw [List.take_succ_cons, List.take_zero, Assembler.onKeyAll,
      onKey_first hlength hfits]
    rfl
  | succ k ih =>
    have hpiece := List.getElem?_eq_getElem (Nat.lt_of_succ_lt hk)
    have hframe := getElem?_consecutives m messageId 0 (pieces (max maxDataSize 1) m.wirePayload) k
    rw [if_neg (Nat.ne_of_lt hk), hpiece, Option.map_some, Nat.zero_add] at hframe
    rw [List.take_add_one, Assembler.onKeyAll_append, ih (Nat.lt_of_succ_lt hk),
      List.getElem?_cons_succ, hframe]
    exact congrArg Prod.snd (onKey_bufferAfter hfits hpiece messageId)

/-- At every place the buffer waits for the piece of that place. -/
theorem awaits_bufferAfter (hlength : m.wirePayload.length ≤ maxFragmentedSize) {k : Nat}
    {piece : Bytes} (hpiece : (pieces (max maxDataSize 1) m.wirePayload)[k]? = some piece)
    (messageId : UInt32) :
    Assembler.Awaits (m.firstFrame messageId maxDataSize) (m.bufferAfter messageId maxDataSize k)
      (m.consecutiveFrame messageId
        (if k + 1 = (pieces (max maxDataSize 1) m.wirePayload).length then terminalSequence
          else sequenceNumber k) piece) := by
  have hbudget : 0 < max maxDataSize 1 := by omega
  have hlast : (if k + 1 = (pieces (max maxDataSize 1) m.wirePayload).length then terminalSequence
      else sequenceNumber k) = terminalSequence →
      k + 1 = (pieces (max maxDataSize 1) m.wirePayload).length := by
    intro hterminal
    by_contra hmore
    rw [if_neg hmore] at hterminal
    exact sequenceNumber_ne_terminal k hterminal
  obtain ⟨_, _, total, count, hdeclared, htotal, hcount⟩ :=
    announces_firstFrame (Nat.lt_succ_of_le hlength) messageId maxDataSize
  obtain ⟨rfl, rfl⟩ := Prod.mk.inj (Option.some.inj
    ((FirstPayload.decode?_encode _ _).symm.trans hdeclared))
  refine ⟨hdeclared, fun hmore => ?_, fun hterminal => ?_, fun hterminal => ?_⟩
  · have hnotlast : k + 1 ≠ (pieces (max maxDataSize 1) m.wirePayload).length :=
      fun heq => hmore (if_pos heq)
    exact (if_neg hnotlast).symm
  · -- no piece is left, so the budgets so far reach beyond the payload
    have hreached : m.wirePayload.length ≤ max maxDataSize 1 * (k + 1) :=
      Nat.le_of_not_lt (mt (lt_length_pieces_iff hbudget).2 (by rw [hlast hterminal]; simp))
    calc (m.bufferAfter messageId maxDataSize k).data.length + piece.length
        = (m.bufferAfter messageId maxDataSize (k + 1)).data.length := by
          rw [data_bufferAfter_succ hpiece messageId, List.length_append]
      _ = m.wirePayload.length := congrArg List.length (List.take_of_length_le hreached)
      _ = (UInt32.ofNat m.wirePayload.length).toNat := htotal.symm
  · have hplace := hlast hterminal
    rw [length_pieces hbudget] at hplace
    have hbound := (UInt32.ofNat (frameCount m.wirePayload.length maxDataSize)).toNat_lt
    rw [hcount, ← hplace] at hbound
    show (UInt32.ofNat k).toNat + 1 = (UInt32.ofNat (frameCount _ maxDataSize)).toNat
    rw [hcount, ← hplace, UInt32.toNat_ofNat_of_lt' (Nat.lt_of_succ_lt hbound)]

/-! ## A message as a whole -/

/-- A first frame that declares more than the limit is an error. -/
theorem onKey_first_tooLarge {limit : Nat} (hlength : m.wirePayload.length ≤ maxFragmentedSize)
    (hlarge : limit < m.wirePayload.length) (messageId : UInt32) (maxDataSize : Nat)
    (buffer : Option PartialMessage) :
    Assembler.onKey limit buffer (m.firstFrame messageId maxDataSize) =
      (.error (.messageTooLarge m.wirePayload.length limit), none) := by
  have htotal : (UInt32.ofNat m.wirePayload.length).toNat = m.wirePayload.length :=
    UInt32.toNat_ofNat_of_lt' (Nat.lt_succ_of_le hlength)
  show Assembler.onFirst limit buffer (m.firstFrame messageId maxDataSize) = _
  unfold Assembler.onFirst firstFrame Frame.stamped
  simp only [FirstPayload.decode?_encode, htotal]
  exact if_pos hlarge

/-- A message is taken in without an error if and only if it comes in one frame or
there is room for it. -/
theorem accepts_fragment_iff {frames : List Frame}
    (hfragment : m.fragment messageId maxDataSize = .ok frames) (a : Assembler) :
    a.Accepts frames ↔
      m.wirePayload.length ≤ max maxDataSize 1 ∨ m.wirePayload.length ≤ a.maxMessageSize := by
  obtain ⟨hresults, -⟩ := Assembler.handleAll_onKeyAll (key_fragment hfragment) a
  unfold Assembler.Accepts
  rw [hresults]
  by_cases hfits : m.wirePayload.length ≤ a.maxMessageSize
  · refine iff_of_true (fun result hresult => ?_) (Or.inr hfits)
    rw [onKeyAll_fragment hfragment hfits] at hresult
    rcases List.mem_append.1 hresult with hpending | hlast
    · exact ⟨_, List.eq_of_mem_replicate hpending⟩
    · exact ⟨_, List.mem_singleton.1 hlast⟩
  · obtain ⟨hlength, _, ⟨hsingle, rfl⟩ | ⟨hlong, rfl⟩⟩ := fragment_cases hfragment
    · refine iff_of_true (fun result hresult => ?_) (Or.inl hsingle)
      rw [Assembler.onKeyAll, onKey_single] at hresult
      exact ⟨_, List.mem_singleton.1 hresult⟩
    · refine iff_of_false (fun haccepts => ?_) (by omega)
      obtain ⟨outcome, hfirst⟩ := haccepts _ List.mem_cons_self
      rw [onKey_first_tooLarge hlength (Nat.lt_of_not_le hfits)] at hfirst
      cases hfirst

/-- Whatever is under way before, an assembler that accepts a message has opened a
buffer when a piece of the message comes, and the buffer waits for this very
piece.  No frame of the message gives a sign of damage. -/
theorem counters_agree (m : Message) (messageId : UInt32) (maxDataSize : Nat) (a : Assembler)
    {frames : List Frame} (hfragment : m.fragment messageId maxDataSize = .ok frames)
    (haccepts : a.Accepts frames) :
    ∀ k frame, frames[k]? = some frame →
      (frame.header.frameType = .consecutive → ∃ first buffer, frames.head? = some first ∧
        first.header.frameType = .first ∧
        (a.handleAll (frames.take k)).2.get? frame.header.key = some buffer ∧
        Assembler.Awaits first buffer frame) ∧
      ∀ remark ∈ (a.handleAll (frames.take k)).2.remarks frame, ¬ remark.IsDamage := by
  intro k frame hframe
  have hkey : frame.header.key = m.key := key_fragment hfragment frame (List.mem_of_getElem? hframe)
  have hroom := (accepts_fragment_iff hfragment a).1 haccepts
  by_cases htype : frame.header.frameType = .consecutive
  · obtain ⟨hlength, _, ⟨_, rfl⟩ | ⟨hlong, rfl⟩⟩ := fragment_cases hfragment
    · obtain rfl := List.mem_singleton.1 (List.mem_of_getElem? hframe)
      exact absurd htype (by simp [singleFrame, Frame.stamped, Header.single, Header.blank])
    · have hfits : m.wirePayload.length ≤ a.maxMessageSize := by omega
      cases k with
      | zero =>
        obtain rfl := Option.some.inj hframe
        exact absurd htype (by simp [firstFrame, Frame.stamped, Header.first, Header.blank])
      | succ k =>
        rw [List.getElem?_cons_succ, getElem?_consecutives, Nat.zero_add] at hframe
        obtain ⟨piece, hpiece, rfl⟩ := Option.map_eq_some_iff.1 hframe
        have hawaits := awaits_bufferAfter hlength hpiece messageId
        have hframes := fun other hother =>
          key_fragment hfragment other (List.mem_of_mem_take (i := k + 1) hother)
        have hbuffer := (Assembler.handleAll_onKeyAll hframes a).2 m.key
        rw [if_pos rfl, onKeyAll_take hlength hfits messageId _ (List.getElem?_eq_some_iff.1 hpiece).1]
          at hbuffer
        refine ⟨fun _ => ⟨_, _, rfl, rfl, hbuffer, hawaits⟩, fun remark hremark => ?_⟩
        rw [Assembler.remarks_eq_nil_of_awaits htype hbuffer hawaits] at hremark
        exact absurd hremark List.not_mem_nil
  · exact ⟨fun h => absurd h htype, fun remark => Assembler.not_isDamage_of_ne_consecutive htype⟩

/-- A message of 600 pieces, for which the counter goes around twice, over another
one that is not finished. -/
theorem counters_agree_around :
    let m := Message.plain .audio 9 4 (List.replicate 600 7)
    let stale : PartialMessage :=
      { version := 2, messageId := 5, total := 9, count := 1, received := 1, nextSequence := 2
        data := [7, 7] }
    let a := (Assembler.empty 600).insert m.key stale
    ∃ frames, m.fragment 6 1 = .ok frames ∧ a.Accepts frames ∧
      ∀ k frame, frames[k]? = some frame →
        (frame.header.frameType = .consecutive → ∃ first buffer, frames.head? = some first ∧
          first.header.frameType = .first ∧
          (a.handleAll (frames.take k)).2.get? frame.header.key = some buffer ∧
          Assembler.Awaits first buffer frame) ∧
        ∀ remark ∈ (a.handleAll (frames.take k)).2.remarks frame, ¬ remark.IsDamage := by
  intro m stale a
  have hlength : m.wirePayload.length = 600 := List.length_replicate
  have hsize : headerSize? m.version = some 12 := by decide
  have hfragment : m.fragment 6 1 = .ok (m.firstFrame 6 1 ::
      m.consecutives 6 0 (pieces (max 1 1) m.wirePayload)) := by
    rw [fragment_eq hsize (by rw [hlength]; decide), if_neg (by rw [hlength]; decide)]
  have haccepts := (accepts_fragment_iff hfragment a).2 (Or.inr (Nat.le_of_eq hlength))
  exact ⟨_, hfragment, haccepts, counters_agree m 6 1 a hfragment haccepts⟩

end Message

end HeadUnitLink
