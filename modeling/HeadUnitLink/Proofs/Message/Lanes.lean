import HeadUnitLink.Proofs.Message.Reassembly

/-!
# Many messages at once

Frames of many messages reach an assembler in a mix.  Whatever the mix, an
assembler is one machine for every key, so what comes of the frames of one key
can be read off that key alone: `Assembler.filter_delivered_handleAll`.

`Message.received_fragment` says that the frames of a message arrive as the
frames of the same message, under the id that arrives.
-/

namespace HeadUnitLink

namespace Assembler

/-- The frames of a key. -/
def lane (key : MessageKey) (frames : List Frame) : List Frame :=
  frames.filter fun frame => frame.header.key = key

/-- The message that a frame has brought, if it has brought one. -/
def delivered? : Except LinkError Assembled → Option Message
  | .ok (.message m) => some m
  | .ok (.interrupted m _) => some m
  | _ => none

/-- Has a frame been taken in without a complaint? -/
def IsSmooth : Except LinkError Assembled → Prop
  | .ok (.interrupted _ _) => False
  | .error _ => False
  | _ => True

theorem key_of_delivered {limit : Nat} {buffer : Option PartialMessage} {frame : Frame}
    {m : Message} (h : delivered? (onKey limit buffer frame).1 = some m) :
    m.key = frame.header.key := by
  unfold onKey at h
  cases htype : frame.header.frameType with
  | control =>
    simp only [htype, delivered?] at h
    exact absurd h (by simp)
  | single =>
    simp only [htype, onSingle] at h
    cases buffer with
    | none =>
      obtain rfl := Option.some.inj h
      rfl
    | some stale =>
      obtain rfl := Option.some.inj h
      rfl
  | first =>
    simp only [htype, onFirst] at h
    split at h
    · exact absurd h (by simp [delivered?])
    · split at h
      · exact absurd h (by simp [delivered?])
      · exact absurd h (by simp [delivered?])
  | consecutive =>
    simp only [htype, onConsecutive] at h
    split at h
    · exact absurd h (by simp [delivered?])
    · split at h
      · exact absurd h (by simp [delivered?])
      · split at h
        · exact absurd h (by simp [delivered?])
        · obtain rfl := Option.some.inj h
          rfl

/-- The messages that come on one key come of the frames of that key. -/
theorem filter_delivered_handleAll (a : Assembler) (frames : List Frame) (key : MessageKey) :
    ((a.handleAll frames).1.filterMap delivered?).filter (fun m => m.key = key) =
      (onKeyAll a.maxMessageSize (a.get? key)
        (frames.filter fun frame => frame.header.key = key)).1.filterMap delivered? := by
  induction frames generalizing a with
  | nil => rfl
  | cons frame rest ih =>
    have hrest := ih (a.handle frame).2
    rw [maxMessageSize_handle, get?_handle] at hrest
    have hkey : ∀ m, delivered? (a.handle frame).1 = some m → m.key = frame.header.key := by
      intro m hm
      rw [handle_fst] at hm
      exact key_of_delivered hm
    rw [handleAll, List.filterMap_cons, List.filter_cons]
    by_cases heq : frame.header.key = key
    · rw [if_pos heq.symm, heq] at hrest
      rw [if_pos (decide_eq_true heq), onKeyAll, List.filterMap_cons, ← hrest, ← heq, ← handle_fst]
      cases hm : delivered? (a.handle frame).1 with
      | none => rfl
      | some m => exact List.filter_cons_of_pos (decide_eq_true (hkey m hm))
    · rw [if_neg (Ne.symm heq)] at hrest
      rw [if_neg (mt of_decide_eq_true heq), ← hrest]
      cases hm : delivered? (a.handle frame).1 with
      | none => rfl
      | some m =>
        refine List.filter_cons_of_neg (mt of_decide_eq_true ?_)
        rw [hkey m hm]
        exact heq

/-- The buffer of a key is what the frames of that key have made of it. -/
theorem get?_handleAll (a : Assembler) (frames : List Frame) (key : MessageKey) :
    (a.handleAll frames).2.get? key =
      (onKeyAll a.maxMessageSize (a.get? key)
        (frames.filter fun frame => frame.header.key = key)).2 := by
  induction frames generalizing a with
  | nil => rfl
  | cons frame rest ih =>
    rw [handleAll, ih, maxMessageSize_handle, get?_handle, List.filter_cons]
    by_cases heq : frame.header.key = key
    · rw [if_pos heq.symm, heq, if_pos (decide_eq_true rfl), onKeyAll]
    · rw [if_neg (Ne.symm heq), if_neg (mt of_decide_eq_true heq)]

/-- What comes of a frame comes of it on its key. -/
theorem exists_key_of_mem_handleAll {a : Assembler} {frames : List Frame}
    {result : Except LinkError Assembled} (h : result ∈ (a.handleAll frames).1) :
    ∃ key, result ∈ (onKeyAll a.maxMessageSize (a.get? key)
      (frames.filter fun frame => frame.header.key = key)).1 := by
  induction frames generalizing a with
  | nil => exact absurd h List.not_mem_nil
  | cons frame rest ih =>
    rw [handleAll] at h
    rcases List.mem_cons.1 h with rfl | hrest
    · refine ⟨frame.header.key, ?_⟩
      rw [List.filter_cons, if_pos (decide_eq_true rfl), onKeyAll, handle_fst]
      exact List.mem_cons_self
    · obtain ⟨key, hmem⟩ := ih hrest
      rw [maxMessageSize_handle, get?_handle] at hmem
      refine ⟨key, ?_⟩
      rw [List.filter_cons]
      by_cases heq : frame.header.key = key
      · rw [if_pos heq.symm, heq] at hmem
        rw [if_pos (decide_eq_true heq), onKeyAll]
        exact List.mem_cons_of_mem _ hmem
      · rw [if_neg (Ne.symm heq)] at hmem
        rw [if_neg (mt of_decide_eq_true heq)]
        exact hmem

end Assembler

/-! ## The frames that arrive -/

namespace Message

/-- The id under which a message arrives: the layouts of versions 1 and 2 have
no place for it. -/
def arrivalId (m : Message) (messageId : UInt32) : UInt32 := if 3 ≤ m.version then messageId else 0

theorem received_consecutives (m : Message) (messageId : UInt32) (index : Nat)
    (parts : List Bytes) :
    (m.consecutives messageId index parts).map Frame.received =
      m.consecutives (m.arrivalId messageId) index parts := by
  induction parts generalizing index with
  | nil => rfl
  | cons part rest ih =>
    cases rest with
    | nil => rfl
    | cons next more =>
      rw [consecutives_cons_cons, consecutives_cons_cons, List.map_cons, ih]
      rfl

/-- The frames of a message arrive as frames of the message. -/
theorem received_fragment {m : Message} {messageId : UInt32} {maxDataSize : Nat}
    {frames : List Frame} (hfragment : m.fragment messageId maxDataSize = .ok frames) :
    m.fragment (m.arrivalId messageId) maxDataSize = .ok (frames.map Frame.received) := by
  obtain ⟨hlength, ⟨size, hsize⟩, ⟨hsingle, rfl⟩ | ⟨hlong, rfl⟩⟩ := fragment_cases hfragment
  · rw [fragment_eq hsize hlength, if_pos hsingle]
    rfl
  · rw [fragment_eq hsize hlength, if_neg (Nat.not_le_of_lt hlong), List.map_cons,
      received_consecutives]
    rfl

theorem payload_mem_of_consecutives {m : Message} {messageId : UInt32} {index : Nat}
    {parts : List Bytes} {frame : Frame} (h : frame ∈ m.consecutives messageId index parts) :
    frame.payload ∈ parts ∧ frame.header.frameType = .consecutive := by
  induction parts generalizing index with
  | nil => exact absurd h List.not_mem_nil
  | cons part rest ih =>
    cases rest with
    | nil =>
      rw [consecutives, List.mem_singleton] at h
      rw [h]
      exact ⟨List.mem_cons_self, rfl⟩
    | cons next more =>
      rw [consecutives_cons_cons, List.mem_cons] at h
      rcases h with rfl | hmore
      · exact ⟨List.mem_cons_self, rfl⟩
      · exact ⟨List.mem_cons_of_mem _ (ih hmore).1, (ih hmore).2⟩

/-- The frames of a message are data frames, none longer than the message or an
announcement. -/
theorem frame_of_fragment {m : Message} {messageId : UInt32} {maxDataSize : Nat}
    {frames : List Frame} (hfragment : m.fragment messageId maxDataSize = .ok frames)
    {frame : Frame} (hframe : frame ∈ frames) :
    frame.header.frameType ≠ .control ∧
      frame.payload.length ≤ max firstPayloadSize m.wirePayload.length := by
  obtain ⟨_, _, ⟨_, rfl⟩ | ⟨_, rfl⟩⟩ := fragment_cases hfragment
  · rw [List.mem_singleton.1 hframe]
    exact ⟨by simp [singleFrame, Frame.stamped, Header.single, Header.blank],
      Nat.le_max_right _ _⟩
  · rcases List.mem_cons.1 hframe with rfl | hmore
    · exact ⟨by simp [firstFrame, Frame.stamped, Header.first, Header.blank],
        Nat.le_max_left _ _⟩
    · obtain ⟨hpiece, htype⟩ := payload_mem_of_consecutives hmore
      have hsublist := (List.sublist_flatten_of_mem hpiece).length_le
      rw [flatten_pieces] at hsublist
      refine ⟨by rw [htype]; simp, ?_⟩
      omega

end Message

end HeadUnitLink
