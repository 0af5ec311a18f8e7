import HeadUnitLink.Message.Assembler
import HeadUnitLink.Proofs.Lists

/-!
# An assembler, key by key

An assembler is a map from keys to open buffers, and a frame concerns the
buffer of its own key only.  `Assembler.onKey` is what a frame does to that
one buffer, and `Assembler.handle_onKey` says that an assembler is nothing but
one such machine for every key.  Later proofs look at one key at a time and do
not open the assembler again.
-/

namespace HeadUnitLink

namespace Assembler

/-! ## The buffers as a map -/

theorem get?_erase (a : Assembler) (key other : MessageKey) :
    (a.erase key).get? other = if other = key then none else a.get? other := by
  unfold get? erase
  split
  · rename_i heq
    rw [heq]
    exact lookup_filter_self key a.buffers
  · rename_i hne
    exact lookup_filter_of_ne hne a.buffers

theorem get?_insert (a : Assembler) (key other : MessageKey) (buffer : PartialMessage) :
    (a.insert key buffer).get? other = if other = key then some buffer else a.get? other := by
  have herase := get?_erase a key other
  unfold get? at herase ⊢
  unfold insert
  by_cases heq : other = key
  · rw [if_pos heq, heq, List.lookup_cons_self]
  · rw [if_neg heq] at herase ⊢
    rw [lookup_cons_of_ne heq, herase]

theorem get?_discardSession (a : Assembler) (session : UInt8) (key : MessageKey) :
    (a.discardSession session).2.get? key = if key.session = session then none else a.get? key := by
  have hlookup := lookup_filter (fun found : MessageKey => found.session ≠ session) key a.buffers
  unfold get? discardSession
  simp only
  rw [hlookup]
  by_cases heq : key.session = session <;> simp [heq]

/-! ## One key -/

/-- What a single frame brings about on its key: the outcome, and the buffer of
the key after the frame. -/
def onSingle (buffer : Option PartialMessage) (frame : Frame) :
    Assembled × Option PartialMessage :=
  let whole := messageOf frame.header frame.header.messageId frame.payload
  match buffer with
  | some stale => (.interrupted whole stale.data.length, none)
  | none => (.message whole, none)

/-- What a first frame brings about on its key. -/
def onFirst (limit : Nat) (buffer : Option PartialMessage) (frame : Frame) :
    Except LinkError Assembled × Option PartialMessage :=
  match FirstPayload.decode? frame.payload with
  | none => (.error (.malformedFirstFrame frame.payload.length), buffer)
  | some (total, count) =>
    if limit < total.toNat then (.error (.messageTooLarge total.toNat limit), none)
    else
      (.ok .pending, some {
        version := frame.header.version, messageId := frame.header.messageId
        total, count, received := 0, nextSequence := 1, data := [] })

/-- What a consecutive frame brings about on its key. -/
def onConsecutive (limit : Nat) (buffer : Option PartialMessage) (frame : Frame) :
    Except LinkError Assembled × Option PartialMessage :=
  match buffer with
  | none => (.error (.sequenceMismatch frame.header.session frame.header.service), none)
  | some buffer =>
    let size := buffer.data.length + frame.payload.length
    let data := buffer.data ++ frame.payload
    if limit < size then (.error (.messageTooLarge size limit), none)
    else if frame.header.frameData ≠ terminalSequence then
      (.ok .pending, some { buffer with
        data, received := buffer.received + 1
        nextSequence := sequenceAfter frame.header.frameData })
    else
      let m := messageOf frame.header buffer.messageId data
      (.ok (.message { m with version := buffer.version }), none)

/-- What a frame brings about on its key. -/
def onKey (limit : Nat) (buffer : Option PartialMessage) (frame : Frame) :
    Except LinkError Assembled × Option PartialMessage :=
  match frame.header.frameType with
  | .control => (.ok (.control frame), buffer)
  | .single => (.ok (onSingle buffer frame).1, (onSingle buffer frame).2)
  | .first => onFirst limit buffer frame
  | .consecutive => onConsecutive limit buffer frame

/-- The two assemblers differ in the buffer of this key only, which the second
one has as given. -/
structure Sets (a a' : Assembler) (key : MessageKey) (buffer : Option PartialMessage) : Prop where
  get?_eq : ∀ other, a'.get? other = if other = key then buffer else a.get? other
  limit_eq : a'.maxMessageSize = a.maxMessageSize

theorem sets_keep (a : Assembler) (key : MessageKey) : Sets a a key (a.get? key) := by
  refine ⟨fun other => ?_, rfl⟩
  by_cases heq : other = key
  · rw [if_pos heq, heq]
  · rw [if_neg heq]

theorem sets_erase (a : Assembler) (key : MessageKey) : Sets a (a.erase key) key none :=
  ⟨get?_erase a key, rfl⟩

theorem sets_insert (a : Assembler) (key : MessageKey) (buffer : PartialMessage) :
    Sets a (a.insert key buffer) key (some buffer) :=
  ⟨fun other => get?_insert a key other buffer, rfl⟩

theorem single_onSingle (a : Assembler) (frame : Frame) :
    (a.single frame).1 = (onSingle (a.get? frame.header.key) frame).1 ∧
      Sets a (a.single frame).2 frame.header.key (onSingle (a.get? frame.header.key) frame).2 := by
  have hkeep := sets_keep a frame.header.key
  unfold single onSingle
  cases hbuffer : a.get? frame.header.key with
  | none =>
    rw [hbuffer] at hkeep
    simp only [hbuffer]
    exact ⟨trivial, hkeep⟩
  | some stale =>
    simp only [hbuffer]
    exact ⟨trivial, sets_erase a _⟩

theorem first_onFirst (a : Assembler) (frame : Frame) :
    (a.first frame).1 = (onFirst a.maxMessageSize (a.get? frame.header.key) frame).1 ∧
      Sets a (a.first frame).2 frame.header.key
        (onFirst a.maxMessageSize (a.get? frame.header.key) frame).2 := by
  unfold first onFirst
  cases FirstPayload.decode? frame.payload with
  | none => exact ⟨rfl, sets_keep a _⟩
  | some announced =>
    obtain ⟨total, count⟩ := announced
    simp only
    split
    · exact ⟨rfl, sets_erase a _⟩
    · exact ⟨rfl, sets_insert a _ _⟩

theorem consecutive_onConsecutive (a : Assembler) (frame : Frame) :
    (a.consecutive frame).1 =
        (onConsecutive a.maxMessageSize (a.get? frame.header.key) frame).1 ∧
      Sets a (a.consecutive frame).2 frame.header.key
        (onConsecutive a.maxMessageSize (a.get? frame.header.key) frame).2 := by
  have hkeep := sets_keep a frame.header.key
  unfold consecutive onConsecutive
  cases hbuffer : a.get? frame.header.key with
  | none =>
    rw [hbuffer] at hkeep
    simp only [hbuffer]
    exact ⟨trivial, hkeep⟩
  | some buffer =>
    simp only [hbuffer]
    split
    · exact ⟨rfl, sets_erase a _⟩
    · split
      · exact ⟨rfl, sets_insert a _ _⟩
      · exact ⟨rfl, sets_erase a _⟩

/-- A frame does to the buffer of its key what `onKey` says, and nothing to any
other buffer. -/
theorem handle_onKey (a : Assembler) (frame : Frame) :
    (a.handle frame).1 = (onKey a.maxMessageSize (a.get? frame.header.key) frame).1 ∧
      Sets a (a.handle frame).2 frame.header.key
        (onKey a.maxMessageSize (a.get? frame.header.key) frame).2 := by
  unfold handle onKey
  cases frame.header.frameType with
  | control => exact ⟨rfl, sets_keep a _⟩
  | single =>
    obtain ⟨hresult, hsets⟩ := single_onSingle a frame
    exact ⟨congrArg Except.ok hresult, hsets⟩
  | first => exact first_onFirst a frame
  | consecutive => exact consecutive_onConsecutive a frame

theorem handle_fst (a : Assembler) (frame : Frame) :
    (a.handle frame).1 = (onKey a.maxMessageSize (a.get? frame.header.key) frame).1 :=
  (handle_onKey a frame).1

theorem get?_handle (a : Assembler) (frame : Frame) (key : MessageKey) :
    (a.handle frame).2.get? key =
      if key = frame.header.key then (onKey a.maxMessageSize (a.get? frame.header.key) frame).2
      else a.get? key :=
  (handle_onKey a frame).2.get?_eq key

@[simp] theorem maxMessageSize_handle (a : Assembler) (frame : Frame) :
    (a.handle frame).2.maxMessageSize = a.maxMessageSize :=
  (handle_onKey a frame).2.limit_eq

/-! ## Many frames -/

/-- Takes in frames one after the other: what each brings about, and the
assembler at the end. -/
def handleAll (a : Assembler) : List Frame → List (Except LinkError Assembled) × Assembler
  | [] => ([], a)
  | frame :: rest =>
    ((a.handle frame).1 :: ((a.handle frame).2.handleAll rest).1,
      ((a.handle frame).2.handleAll rest).2)

/-- The same for the frames of one key. -/
def onKeyAll (limit : Nat) (buffer : Option PartialMessage) :
    List Frame → List (Except LinkError Assembled) × Option PartialMessage
  | [] => ([], buffer)
  | frame :: rest =>
    ((onKey limit buffer frame).1 :: (onKeyAll limit (onKey limit buffer frame).2 rest).1,
      (onKeyAll limit (onKey limit buffer frame).2 rest).2)

theorem onKeyAll_append (limit : Nat) (buffer : Option PartialMessage) (frames more : List Frame) :
    onKeyAll limit buffer (frames ++ more) =
      ((onKeyAll limit buffer frames).1 ++
          (onKeyAll limit (onKeyAll limit buffer frames).2 more).1,
        (onKeyAll limit (onKeyAll limit buffer frames).2 more).2) := by
  induction frames generalizing buffer with
  | nil => rfl
  | cons frame rest ih =>
    rw [List.cons_append, onKeyAll, ih]
    rfl

/-- Frames of one key leave the buffers of all other keys alone. -/
theorem handleAll_onKeyAll {key : MessageKey} {frames : List Frame}
    (hkey : ∀ frame ∈ frames, frame.header.key = key) (a : Assembler) :
    (a.handleAll frames).1 = (onKeyAll a.maxMessageSize (a.get? key) frames).1 ∧
      ∀ other, (a.handleAll frames).2.get? other =
        if other = key then (onKeyAll a.maxMessageSize (a.get? key) frames).2
        else a.get? other := by
  induction frames generalizing a with
  | nil =>
    refine ⟨rfl, fun other => ?_⟩
    split
    · rename_i heq
      rw [heq]
      rfl
    · rfl
  | cons frame rest ih =>
    have hframe : frame.header.key = key := hkey frame List.mem_cons_self
    have hbuffer : (a.handle frame).2.get? key =
        (onKey a.maxMessageSize (a.get? key) frame).2 := by
      rw [get?_handle, hframe, if_pos rfl]
    obtain ⟨hresults, hbuffers⟩ :=
      ih (fun next hnext => hkey next (List.mem_cons_of_mem _ hnext)) (a.handle frame).2
    rw [maxMessageSize_handle, hbuffer] at hresults hbuffers
    refine ⟨?_, fun other => ?_⟩
    · rw [handleAll, onKeyAll, hresults, handle_fst, hframe]
    · rw [handleAll, onKeyAll, hbuffers]
      split
      · rfl
      · rename_i hne
        rw [get?_handle, hframe, if_neg hne]

end Assembler

end HeadUnitLink
