import HeadUnitLink.Proofs.Message.Lanes

/-!
# A first frame starts over

A first frame opens a message, and what was under way on its key before has no
part in it.  This holds if the first frame can be read: one with a payload that
is too short to announce a message is reported, and the message that was under
way goes on after it.

* `Assembler.Gathers` is all that a frame can do to the data on its key, and
  `Assembler.onKey_gathers` says so of every frame.
* `Assembler.data_of_onKeyAll` and `Assembler.Bounded.handleAll` are what follows
  for a run of frames, by induction on the frames.
* `Assembler.deliveredAfter_first` compares what is delivered after a first
  frame with what is delivered when nothing was under way before it.
-/

namespace HeadUnitLink

/-- A word is read off four bytes. -/
theorem Word.split?_eq_none_iff {bytes : Bytes} : Word.split? bytes = none ↔ bytes.length < 4 := by
  rcases bytes with _ | ⟨b₃, _ | ⟨b₂, _ | ⟨b₁, _ | ⟨b₀, rest⟩⟩⟩⟩ <;> simp [Word.split?]

theorem Word.length_of_split? {bytes rest : Bytes} {w : UInt32}
    (h : Word.split? bytes = some (w, rest)) : bytes.length = rest.length + 4 := by
  rcases bytes with _ | ⟨b₃, _ | ⟨b₂, _ | ⟨b₁, _ | ⟨b₀, more⟩⟩⟩⟩
  case cons.cons.cons.cons =>
    obtain ⟨-, rfl⟩ := Prod.mk.inj (Option.some.inj h)
    rfl
  all_goals exact absurd h (by simp [Word.split?])

/-- An announcement is read off eight bytes. -/
theorem FirstPayload.decode?_eq_none_iff {payload : Bytes} :
    FirstPayload.decode? payload = none ↔ payload.length < firstPayloadSize := by
  unfold FirstPayload.decode? Word.leading? firstPayloadSize
  cases hsplit : Word.split? payload with
  | none =>
    have hshort := Word.split?_eq_none_iff.1 hsplit
    exact iff_of_true rfl (by omega)
  | some announced =>
    obtain ⟨total, rest⟩ := announced
    have hlength := Word.length_of_split? hsplit
    simp only [Option.map_eq_none_iff, Word.split?_eq_none_iff]
    omega

namespace Assembler

/-! ## One frame -/

/-- What a frame with this payload can do to the data that is gathered on its
key: the data before it, the data after it, and the data that it delivers. -/
inductive Gathers (limit : Nat) (payload : Bytes) :
    Option Bytes → Option Bytes → Option Bytes → Prop
  | kept (data : Option Bytes) : Gathers limit payload data data none
  | dropped (data : Option Bytes) : Gathers limit payload data none none
  | opened (data : Option Bytes) : Gathers limit payload data (some []) none
  | whole (data : Option Bytes) : Gathers limit payload data none (some payload)
  | joined {data : Bytes} (hfits : data.length + payload.length ≤ limit) :
    Gathers limit payload (some data) (some (data ++ payload)) none
  | finished {data : Bytes} (hfits : data.length + payload.length ≤ limit) :
    Gathers limit payload (some data) none (some (data ++ payload))

theorem onKey_gathers (limit : Nat) (buffer : Option PartialMessage) (frame : Frame) :
    Gathers limit frame.payload (buffer.map PartialMessage.data)
      ((onKey limit buffer frame).2.map PartialMessage.data)
      ((delivered? (onKey limit buffer frame).1).map Message.data) := by
  unfold onKey
  cases frame.header.frameType with
  | control => exact .kept _
  | single => cases buffer <;> exact .whole _
  | first =>
    simp only [onFirst]
    split
    · exact .kept _
    · split
      · exact .dropped _
      · exact .opened _
  | consecutive =>
    simp only [onConsecutive]
    split
    · exact .kept _
    · split
      · exact .dropped _
      · rename_i hfits
        have hlength := Nat.le_of_not_lt hfits
        split
        · exact .joined hlength
        · exact .finished hlength

theorem Gathers.delivered_eq {limit : Nat} {payload delivered : Bytes} {data next : Option Bytes}
    (h : Gathers limit payload data next (some delivered)) :
    delivered = payload ∨ ∃ old, data = some old ∧ delivered = old ++ payload := by
  cases h with
  | whole => exact Or.inl rfl
  | finished => exact Or.inr ⟨_, rfl, rfl⟩

theorem Gathers.next_eq {limit : Nat} {payload next : Bytes} {data delivered : Option Bytes}
    (h : Gathers limit payload data (some next) delivered) :
    next = [] ∨ data = some next ∨
      ∃ old, data = some old ∧ next = old ++ payload ∧ next.length ≤ limit := by
  cases h with
  | kept => exact Or.inr (Or.inl rfl)
  | opened => exact Or.inl rfl
  | joined hfits => exact Or.inr (Or.inr ⟨_, rfl, rfl, by rwa [List.length_append]⟩)

/-- What is made of the data after a frame and of later payloads is made of the
data before the frame, its payload and the later ones, or of payloads alone. -/
theorem Gathers.prepend {limit : Nat} {frame : Frame} {old result : Bytes}
    {data delivered : Option Bytes} (h : Gathers limit frame.payload data (some old) delivered)
    {parts rest : List Frame} (hparts : parts.Sublist rest)
    (hresult : result = old ++ parts.flatMap Frame.payload) :
    ∃ parts : List Frame, parts.Sublist (frame :: rest) ∧
      (result = parts.flatMap Frame.payload ∨
        ∃ older, data = some older ∧ result = older ++ parts.flatMap Frame.payload) := by
  rcases h.next_eq with rfl | hkept | ⟨older, holder, rfl, -⟩
  · exact ⟨parts, hparts.cons frame, Or.inl hresult⟩
  · exact ⟨parts, hparts.cons frame, Or.inr ⟨old, hkept, hresult⟩⟩
  · refine ⟨frame :: parts, hparts.cons_cons frame, Or.inr ⟨older, holder, ?_⟩⟩
    rw [hresult, List.flatMap_cons, List.append_assoc]

/-- A first frame that can be read leaves nothing of what was there before. -/
theorem onKey_first_of_long {first : Frame} (htype : first.header.frameType = .first)
    (hlong : firstPayloadSize ≤ first.payload.length) (limit : Nat)
    (buffer other : Option PartialMessage) :
    onKey limit buffer first = onKey limit other first := by
  have hdecode : FirstPayload.decode? first.payload ≠ none := by
    intro hnone
    have hshort := FirstPayload.decode?_eq_none_iff.1 hnone
    omega
  unfold onKey
  simp only [htype, onFirst]
  cases hannounced : FirstPayload.decode? first.payload with
  | none => exact absurd hannounced hdecode
  | some announced => rfl

/-- A first frame that cannot be read leaves everything as it is. -/
theorem onKey_first_of_short {first : Frame} (htype : first.header.frameType = .first)
    (hshort : first.payload.length < firstPayloadSize) (limit : Nat)
    (buffer : Option PartialMessage) :
    onKey limit buffer first = (.error (.malformedFirstFrame first.payload.length), buffer) := by
  have hdecode := FirstPayload.decode?_eq_none_iff.2 hshort
  unfold onKey
  simp only [htype, onFirst, hdecode]

/-- The last piece of a message, without data. -/
def closing (key : MessageKey) : Frame :=
  (Message.plain key.service key.session maxVersion []).consecutiveFrame 0 terminalSequence []

/-- The last piece delivers what is under way. -/
theorem delivered_closing {limit : Nat} {old : PartialMessage} (hfits : old.data.length ≤ limit)
    (key : MessageKey) : delivered? (onKey limit (some old) (closing key)).1 ≠ none := by
  unfold closing
  rw [Message.onKey_lastPiece (by simpa using hfits)]
  exact Option.some_ne_none _

/-! ## A run of frames -/

/-- Everything that is delivered on a key consists of the payloads of frames
that came there, in their order, after what was there at the start or without
it. -/
theorem data_of_onKeyAll {limit : Nat} {buffer : Option PartialMessage} {frames : List Frame}
    {m : Message} (h : m ∈ (onKeyAll limit buffer frames).1.filterMap delivered?) :
    ∃ parts : List Frame, parts.Sublist frames ∧
      (m.data = parts.flatMap Frame.payload ∨
        ∃ old, buffer.map PartialMessage.data = some old ∧
          m.data = old ++ parts.flatMap Frame.payload) := by
  induction frames generalizing buffer with
  | nil => exact absurd h (by simp [onKeyAll])
  | cons frame rest ih =>
    have hstep := onKey_gathers limit buffer frame
    rw [onKeyAll, List.mem_filterMap] at h
    obtain ⟨result, hresult, hm⟩ := h
    rcases List.mem_cons.1 hresult with rfl | hrest
    · rw [hm] at hstep
      refine ⟨[frame], List.singleton_sublist.2 List.mem_cons_self, ?_⟩
      rw [List.flatMap_singleton]
      exact hstep.delivered_eq
    · obtain ⟨parts, hparts, hfresh | ⟨old, hold, hjoined⟩⟩ :=
        ih (List.mem_filterMap.2 ⟨result, hrest, hm⟩)
      · exact ⟨parts, hparts.cons frame, Or.inl hfresh⟩
      · rw [hold] at hstep
        exact hstep.prepend hparts hjoined

theorem maxMessageSize_handleAll (a : Assembler) (frames : List Frame) :
    (a.handleAll frames).2.maxMessageSize = a.maxMessageSize := by
  induction frames generalizing a with
  | nil => rfl
  | cons frame rest ih => rw [handleAll, ih, maxMessageSize_handle]

/-- No buffer holds more than the limit. -/
def Bounded (a : Assembler) : Prop :=
  ∀ key old, a.get? key = some old → old.data.length ≤ a.maxMessageSize

theorem bounded_empty (limit : Nat) : (empty limit).Bounded := by
  intro key old hget
  exact absurd hget (by simp [empty, get?])

theorem Bounded.handle {a : Assembler} (h : a.Bounded) (frame : Frame) :
    (a.handle frame).2.Bounded := by
  intro key next hget
  rw [maxMessageSize_handle]
  rw [get?_handle] at hget
  split at hget
  · have hstep := onKey_gathers a.maxMessageSize (a.get? frame.header.key) frame
    rw [hget] at hstep
    rcases hstep.next_eq with hempty | hkept | ⟨_, _, _, hlength⟩
    · rw [hempty]
      exact Nat.zero_le _
    · obtain ⟨old, hold, hdata⟩ := Option.map_eq_some_iff.1 hkept
      rw [← hdata]
      exact h _ old hold
    · exact hlength
  · exact h key next hget

theorem Bounded.handleAll {a : Assembler} (h : a.Bounded) (frames : List Frame) :
    (a.handleAll frames).2.Bounded := by
  induction frames generalizing a with
  | nil => exact h
  | cons frame rest ih => exact ih (h.handle frame)

/-! ## After a first frame -/

/-- The messages that are delivered on the key of a frame after it. -/
def deliveredAfter (a : Assembler) (frame : Frame) (after : List Frame) : List Message :=
  (((a.handle frame).2.handleAll after).1.filterMap delivered?).filter
    fun m => m.key = frame.header.key

theorem deliveredAfter_onKeyAll (a : Assembler) (frame : Frame) (after : List Frame) :
    a.deliveredAfter frame after =
      (onKeyAll a.maxMessageSize (onKey a.maxMessageSize (a.get? frame.header.key) frame).2
        (after.filter fun next => next.header.key = frame.header.key)).1.filterMap delivered? := by
  unfold deliveredAfter
  rw [filter_delivered_handleAll, maxMessageSize_handle, get?_handle, if_pos rfl]

/-- With nothing under way before a frame, all that is delivered after it has
come after it. -/
theorem data_of_deliveredAfter_empty {limit : Nat} {frame : Frame} {after : List Frame}
    {m : Message} (h : m ∈ (empty limit).deliveredAfter frame after) :
    ∃ parts : List Frame,
      parts.Sublist (after.filter fun next => next.header.key = frame.header.key) ∧
        m.data = parts.flatMap Frame.payload := by
  rw [deliveredAfter_onKeyAll] at h
  obtain ⟨parts, hparts, hfresh | ⟨old, hold, hjoined⟩⟩ := data_of_onKeyAll h
  · exact ⟨parts, hparts, hfresh⟩
  · have hstep := onKey_gathers (empty limit).maxMessageSize none frame
    have hopened : old = [] := by
      change Option.map PartialMessage.data (onKey (empty limit).maxMessageSize none frame).2 =
        some old at hold
      rw [hold] at hstep
      rcases hstep.next_eq with hempty | hkept | ⟨_, hbefore, _⟩
      · exact hempty
      · exact absurd hkept (by simp)
      · exact absurd hbefore (by simp)
    refine ⟨parts, hparts, ?_⟩
    rw [hjoined, hopened, List.nil_append]

/-- After a first frame that cannot be read, a last piece meets what was under
way before. -/
theorem deliveredAfter_closing (a : Assembler) {first : Frame}
    (htype : first.header.frameType = .first)
    (hshort : first.payload.length < firstPayloadSize) :
    a.deliveredAfter first [closing first.header.key] =
      (delivered? (onKey a.maxMessageSize (a.get? first.header.key)
        (closing first.header.key)).1).toList := by
  have hkey : (closing first.header.key).header.key = first.header.key := rfl
  rw [deliveredAfter_onKeyAll, onKey_first_of_short htype hshort,
    List.filter_cons_of_pos (by simp [hkey]), List.filter_nil, onKeyAll, onKeyAll,
    List.filterMap_cons]
  cases delivered? (onKey a.maxMessageSize (a.get? first.header.key) (closing first.header.key)).1
  · rfl
  · rfl

/-- What is delivered on the key of a first frame after it is made of what has
come there after it, as if nothing had come before.  This holds if and only if
the first frame can be read or there was nothing under way. -/
theorem deliveredAfter_first (limit : Nat) (before : List Frame) {first : Frame}
    (htype : first.header.frameType = .first) :
    let a := ((empty limit).handleAll before).2
    (∀ after, ∀ m ∈ (empty limit).deliveredAfter first after, ∃ parts : List Frame,
        parts.Sublist (after.filter fun next => next.header.key = first.header.key) ∧
          m.data = parts.flatMap Frame.payload) ∧
      ((∀ after, a.deliveredAfter first after = (empty limit).deliveredAfter first after) ↔
        (a.isAssembling first.header.key → firstPayloadSize ≤ first.payload.length)) := by
  intro a
  have hbounded : a.Bounded := (bounded_empty limit).handleAll before
  have hlimit : a.maxMessageSize = limit := maxMessageSize_handleAll (empty limit) before
  refine ⟨fun after m hm => data_of_deliveredAfter_empty hm, ?_, ?_⟩
  · intro hsame hassembling
    obtain ⟨old, hold⟩ := Option.isSome_iff_exists.1 hassembling
    refine Nat.le_of_not_lt fun hshort => ?_
    have hclosing := hsame [closing first.header.key]
    rw [deliveredAfter_closing a htype hshort, deliveredAfter_closing _ htype hshort, hold]
      at hclosing
    have hdelivered := delivered_closing (hbounded _ old hold) first.header.key
    exact hdelivered (Option.toList_eq_nil_iff.1 hclosing)
  · intro hlong after
    rw [deliveredAfter_onKeyAll, deliveredAfter_onKeyAll, hlimit]
    have hsame : onKey limit (a.get? first.header.key) first = onKey limit none first := by
      cases hbuffer : a.get? first.header.key with
      | none => rfl
      | some old =>
        have hassembling : a.isAssembling first.header.key = true := by
          unfold isAssembling
          rw [hbuffer]
          rfl
        exact onKey_first_of_long htype (hlong hassembling) limit _ _
    rw [hsame]
    rfl

/-- A first frame that declares too much, over a message of which one piece has
come. -/
theorem deliveredAfter_first_tooLarge :
    let m := Message.plain .bulk 1 4 [0x6F, 0x6C, 0x64, 0x6E, 0x65, 0x77]
    let before := [m.firstFrame 1 3, m.consecutiveFrame 1 1 [0x6F, 0x6C, 0x64]]
    let a := ((empty 8).handleAll before).2
    let first := Frame.stamped (Header.first .bulk 1 2 4) (FirstPayload.encode 9 1)
    first.header.frameType = .first ∧ a.isAssembling first.header.key ∧
      (∀ after, ∀ m ∈ (empty 8).deliveredAfter first after, ∃ parts : List Frame,
        parts.Sublist (after.filter fun next => next.header.key = first.header.key) ∧
          m.data = parts.flatMap Frame.payload) ∧
      ∀ after, a.deliveredAfter first after = (empty 8).deliveredAfter first after := by
  intro m before a first
  have htype : first.header.frameType = .first := rfl
  obtain ⟨hdata, hsame⟩ := deliveredAfter_first 8 before htype
  exact ⟨htype, by decide, hdata, hsame.2 fun _ => by decide⟩

/-- A first frame that cannot be read, between the two pieces of a message: the
message is delivered with both. -/
theorem deliveredAfter_first_unreadable :
    let m := Message.plain .bulk 1 4 [0x6F, 0x6C, 0x64, 0x6E, 0x65, 0x77]
    let before := [m.firstFrame 1 3, m.consecutiveFrame 1 1 [0x6F, 0x6C, 0x64]]
    let first := Frame.stamped (Header.first .bulk 1 2 4) [0, 0, 0, 9]
    let after := [m.consecutiveFrame 1 terminalSequence [0x6E, 0x65, 0x77]]
    first.header.frameType = .first ∧
      (((empty 8).handleAll before).2.deliveredAfter first after).map Message.data =
        [[0x6F, 0x6C, 0x64, 0x6E, 0x65, 0x77]] ∧
      (empty 8).deliveredAfter first after = [] := by
  decide

end Assembler

end HeadUnitLink
