import HeadUnitLink.Proofs.Message.Restart
import Mathlib.Data.List.Induction

/-!
# What the history of a key says

What an assembler does with a frame can be read off the frames that came before
it on the same key, without looking at the assembler.

* `Assembler.UnderWay` says of the frames of a key that a message is under way,
  which first frame has announced it and what has come since.
  `UnderWay.concat_iff` is its only inversion: one more frame.
* `Assembler.Recalls` ties the buffer of a key to it, and `Recalls.step` keeps
  that up for one frame of any kind.
* `Assembler.Dealt` deals the frames of a key out to the messages that were
  delivered there, each frame to one message at most.
* `Assembler.followsHistory` puts the keys together.
-/

namespace HeadUnitLink

namespace Assembler

/-! ## The frames of a key -/

/-- The pieces among the frames, one after the other. -/
def gathered (frames : List Frame) : Bytes :=
  (frames.filter fun frame => frame.header.frameType = .consecutive).flatMap Frame.payload

theorem gathered_concat_of_consecutive {frame : Frame}
    (htype : frame.header.frameType = .consecutive) (frames : List Frame) :
    gathered (frames ++ [frame]) = gathered frames ++ frame.payload := by
  unfold gathered
  rw [List.filter_append, List.flatMap_append]
  simp [htype]

theorem gathered_concat_of_ne {frame : Frame} (htype : frame.header.frameType ≠ .consecutive)
    (frames : List Frame) : gathered (frames ++ [frame]) = gathered frames := by
  unfold gathered
  rw [List.filter_append, List.flatMap_append]
  simp [htype]

/-- Does a frame leave the message open of which these frames have come?  A
piece does unless it is the last one or too much. -/
def LeavesOpen (limit : Nat) (earlier : List Frame) (frame : Frame) : Prop :=
  match frame.header.frameType with
  | .control => True
  | .consecutive =>
    frame.header.frameData ≠ terminalSequence ∧
      (gathered earlier).length + frame.payload.length ≤ limit
  | .single | .first => False

/-- Does the frame announce a message within the limit? -/
def Announces (limit : Nat) (first : Frame) : Prop :=
  first.header.frameType = .first ∧
    ∃ total count, FirstPayload.decode? first.payload = some (total, count) ∧ total.toNat ≤ limit

/-- On a key with these frames, the message that `first` has announced is under
way, and these frames have come since. -/
structure UnderWay (limit : Nat) (frames : List Frame) (first : Frame) (since : List Frame) :
    Prop where
  frames_eq : ∃ before, frames = before ++ first :: since
  announces : Announces limit first
  open_since : ∀ earlier frame, earlier ++ [frame] <+: since → LeavesOpen limit earlier frame

variable {limit : Nat} {frames since : List Frame} {first frame : Frame}

theorem not_underWay_nil : ¬ UnderWay limit [] first since := by
  rintro ⟨⟨before, hframes⟩, -, -⟩
  simp at hframes

/-- A message is under way after a frame that announces one, and as long as
every frame leaves it open. -/
theorem UnderWay.concat_iff :
    UnderWay limit (frames ++ [frame]) first since ↔
      since = [] ∧ first = frame ∧ Announces limit frame ∨
        ∃ earlier, since = earlier ++ [frame] ∧ UnderWay limit frames first earlier ∧
          LeavesOpen limit earlier frame := by
  constructor
  · rintro ⟨⟨before, hframes⟩, hannounces, hopen⟩
    rcases List.eq_nil_or_concat since with rfl | ⟨earlier, last, rfl⟩
    · obtain ⟨-, hlast⟩ := List.append_inj' hframes rfl
      obtain rfl := List.singleton_inj.1 hlast
      exact Or.inl ⟨rfl, rfl, hannounces⟩
    · rw [List.concat_eq_append, ← List.cons_append, ← List.append_assoc] at hframes
      rw [List.concat_eq_append] at hopen ⊢
      obtain ⟨hbefore, hlast⟩ := List.append_inj' hframes rfl
      obtain rfl := List.singleton_inj.1 hlast
      have hearlier : ∀ older next, older ++ [next] <+: earlier → LeavesOpen limit older next :=
        fun older next h => hopen older next (h.trans (List.prefix_append _ _))
      exact Or.inr ⟨earlier, rfl, ⟨⟨before, hbefore⟩, hannounces, hearlier⟩,
        hopen earlier frame List.prefix_rfl⟩
  · rintro (⟨rfl, rfl, hannounces⟩ | ⟨earlier, rfl, ⟨⟨before, rfl⟩, hannounces, hopen⟩, hlast⟩)
    · refine ⟨⟨frames, rfl⟩, hannounces, fun older next hearlier => ?_⟩
      exact absurd (List.prefix_nil.1 hearlier) (by simp)
    · refine ⟨⟨before, by simp⟩, hannounces, fun older next hearlier => ?_⟩
      rcases List.prefix_concat_iff.1 hearlier with hwhole | hshort
      · obtain ⟨rfl, hnext⟩ := List.append_inj' hwhole rfl
        obtain rfl := List.singleton_inj.1 hnext
        exact hlast
      · exact hopen older next hshort

/-! ## The buffer of a key -/

/-- The buffer holds the pieces that have come since the first frame, under the
version and the id of that frame. -/
structure Holds (first : Frame) (since : List Frame) (buffer : PartialMessage) : Prop where
  version_eq : buffer.version = first.header.version
  messageId_eq : buffer.messageId = first.header.messageId
  data_eq : buffer.data = gathered since

/-- The buffer of a key is open if and only if a message is under way, and then
it holds the pieces of that message. -/
structure Recalls (limit : Nat) (frames : List Frame) (buffer : Option PartialMessage) : Prop where
  exists_underWay : buffer.isSome → ∃ first since, UnderWay limit frames first since
  holds : ∀ first since, UnderWay limit frames first since →
    ∃ old, buffer = some old ∧ Holds first since old

variable {buffer : Option PartialMessage}

theorem recalls_none (h : ∀ first since, ¬ UnderWay limit frames first since) :
    Recalls limit frames none :=
  ⟨fun hsome => absurd hsome (by simp), fun first since hway => absurd hway (h first since)⟩

theorem Recalls.not_underWay (h : Recalls limit frames none) (first : Frame) (since : List Frame) :
    ¬ UnderWay limit frames first since := by
  intro hway
  obtain ⟨old, hold, -⟩ := h.holds first since hway
  exact absurd hold (by simp)

/-- A frame that neither announces a message nor leaves one open closes the
buffer. -/
theorem recalls_closed (hannounces : ¬ Announces limit frame)
    (hopen : ∀ first since, UnderWay limit frames first since → ¬ LeavesOpen limit since frame) :
    Recalls limit (frames ++ [frame]) none := by
  refine recalls_none fun first since hway => ?_
  rcases UnderWay.concat_iff.1 hway with ⟨-, -, h⟩ | ⟨earlier, -, hearlier, hleaves⟩
  · exact hannounces h
  · exact hopen first earlier hearlier hleaves

/-- A frame that leaves the message open goes into the buffer. -/
theorem Recalls.goesOn {old next : PartialMessage} (h : Recalls limit frames (some old))
    (htype : frame.header.frameType ≠ .first)
    (hnext : ∀ first since, UnderWay limit frames first since → Holds first since old →
      LeavesOpen limit since frame ∧ Holds first (since ++ [frame]) next) :
    Recalls limit (frames ++ [frame]) (some next) := by
  have hholds : ∀ first since, UnderWay limit frames first since →
      LeavesOpen limit since frame ∧ Holds first (since ++ [frame]) next := by
    intro first since hway
    obtain ⟨held, hheld, hholds⟩ := h.holds first since hway
    obtain rfl := Option.some.inj hheld
    exact hnext first since hway hholds
  refine ⟨fun _ => ?_, fun first since hway => ?_⟩
  · obtain ⟨first, since, hway⟩ := h.exists_underWay rfl
    have hleaves := (hholds first since hway).1
    exact ⟨first, since ++ [frame], UnderWay.concat_iff.2 (Or.inr ⟨since, rfl, hway, hleaves⟩)⟩
  · rcases UnderWay.concat_iff.1 hway with ⟨-, -, hfirst, -⟩ | ⟨earlier, rfl, hearlier, -⟩
    · exact absurd hfirst htype
    · exact ⟨next, rfl, (hholds first earlier hearlier).2⟩

theorem Recalls.onFirst (htype : frame.header.frameType = .first)
    (hlong : firstPayloadSize ≤ frame.payload.length) :
    Recalls limit (frames ++ [frame]) (Assembler.onFirst limit buffer frame).2 := by
  have hcloses : ∀ first since, UnderWay limit frames first since →
      ¬ LeavesOpen limit since frame := by
    intro first since _
    unfold LeavesOpen
    simp [htype]
  unfold Assembler.onFirst
  cases hdecode : FirstPayload.decode? frame.payload with
  | none =>
    have hshort := FirstPayload.decode?_eq_none_iff.1 hdecode
    omega
  | some announced =>
    obtain ⟨total, count⟩ := announced
    simp only
    split
    · rename_i hlarge
      refine recalls_closed ?_ hcloses
      rintro ⟨-, declared, _, hdeclared, hfits⟩
      obtain ⟨rfl, -⟩ := Prod.mk.inj (Option.some.inj (hdecode.symm.trans hdeclared))
      omega
    · rename_i hfits
      have hannounces : Announces limit frame :=
        ⟨htype, total, count, hdecode, Nat.le_of_not_lt hfits⟩
      refine ⟨fun _ => ?_, fun first since hway => ⟨_, rfl, ?_⟩⟩
      · exact ⟨frame, [], UnderWay.concat_iff.2 (Or.inl ⟨rfl, rfl, hannounces⟩)⟩
      · rcases UnderWay.concat_iff.1 hway with ⟨rfl, rfl, -⟩ | ⟨earlier, -, hearlier, hleaves⟩
        · exact ⟨rfl, rfl, rfl⟩
        · exact absurd hleaves (hcloses first earlier hearlier)

theorem Recalls.onConsecutive (h : Recalls limit frames buffer)
    (htype : frame.header.frameType = .consecutive) :
    Recalls limit (frames ++ [frame]) (Assembler.onConsecutive limit buffer frame).2 := by
  have hannounces : ¬ Announces limit frame := by
    rintro ⟨hfirst, -⟩
    exact absurd (htype.symm.trans hfirst) (by simp)
  unfold Assembler.onConsecutive
  cases buffer with
  | none => exact recalls_closed hannounces fun first since hway => absurd hway (h.not_underWay _ _)
  | some old =>
    have hdata : ∀ first since, UnderWay limit frames first since → old.data = gathered since := by
      intro first since hway
      obtain ⟨held, hheld, hholds⟩ := h.holds first since hway
      obtain rfl := Option.some.inj hheld
      exact hholds.data_eq
    simp only
    split
    · rename_i hlarge
      refine recalls_closed hannounces fun first since hway hleaves => ?_
      unfold LeavesOpen at hleaves
      simp only [htype] at hleaves
      rw [hdata first since hway] at hlarge
      omega
    · rename_i hfits
      split
      · rename_i hsequence
        refine h.goesOn (by simp [htype]) fun first since hway hholds => ⟨?_, ?_⟩
        · unfold LeavesOpen
          simp only [htype]
          rw [hdata first since hway] at hfits
          exact ⟨hsequence, Nat.le_of_not_lt hfits⟩
        · refine ⟨hholds.version_eq, hholds.messageId_eq, ?_⟩
          rw [gathered_concat_of_consecutive htype, ← hholds.data_eq]
      · rename_i hterminal
        refine recalls_closed hannounces fun first since _ hleaves => ?_
        unfold LeavesOpen at hleaves
        simp only [htype] at hleaves
        exact hterminal hleaves.1

/-- One more frame, of any kind. -/
theorem Recalls.step (h : Recalls limit frames buffer)
    (hreadable : frame.header.frameType = .first → firstPayloadSize ≤ frame.payload.length) :
    Recalls limit (frames ++ [frame]) (onKey limit buffer frame).2 := by
  unfold onKey
  cases htype : frame.header.frameType with
  | first => exact Recalls.onFirst htype (hreadable htype)
  | consecutive => exact h.onConsecutive htype
  | single =>
    have hclosed : Recalls limit (frames ++ [frame]) none := by
      refine recalls_closed ?_ fun _ _ _ hleaves => ?_
      · rintro ⟨hfirst, -⟩
        exact absurd (htype.symm.trans hfirst) (by simp)
      · unfold LeavesOpen at hleaves
        simp [htype] at hleaves
    cases buffer <;> exact hclosed
  | control =>
    cases buffer with
    | none =>
      refine recalls_closed ?_ fun first since hway => absurd hway (h.not_underWay _ _)
      rintro ⟨hfirst, -⟩
      exact absurd (htype.symm.trans hfirst) (by simp)
    | some old =>
      refine h.goesOn (by simp [htype]) fun first since hway hholds => ⟨?_, ?_⟩
      · unfold LeavesOpen
        simp [htype]
      · refine ⟨hholds.version_eq, hholds.messageId_eq, ?_⟩
        rw [gathered_concat_of_ne (by simp [htype]), hholds.data_eq]

theorem onKeyAll_concat (limit : Nat) (buffer : Option PartialMessage) (frames : List Frame)
    (frame : Frame) :
    onKeyAll limit buffer (frames ++ [frame]) =
      ((onKeyAll limit buffer frames).1 ++
          [(onKey limit (onKeyAll limit buffer frames).2 frame).1],
        (onKey limit (onKeyAll limit buffer frames).2 frame).2) := by
  rw [onKeyAll_append]
  rfl

/-- Can every first frame be read? -/
def Readable (frames : List Frame) : Prop :=
  ∀ frame ∈ frames, frame.header.frameType = .first → firstPayloadSize ≤ frame.payload.length

theorem recalls_onKeyAll (hreadable : Readable frames) :
    Recalls limit frames (onKeyAll limit none frames).2 := by
  induction frames using List.reverseRecOn with
  | nil => exact recalls_none fun _ _ => not_underWay_nil
  | append_singleton frames frame ih =>
    rw [onKeyAll_concat]
    refine (ih fun other hother => hreadable other (List.mem_append_left _ hother)).step ?_
    exact hreadable frame (List.mem_append_right _ List.mem_cons_self)

/-! ## Which frame went into which message -/

/-- The frames of a key, dealt out to the messages that were delivered there
and to the buffer.  No frame is dealt out twice; a message consists of one
single frame or of pieces. -/
structure Dealt (frames : List Frame) (buffer : Option PartialMessage) (messages : List Message)
    (groups : List (List Frame)) (held : List Frame) : Prop where
  sublist : (groups.flatten ++ held).Sublist frames
  buffer_eq : ∀ old, buffer = some old → old.data = held.flatMap Frame.payload
  data_eq : messages.map Message.data = groups.map fun group => group.flatMap Frame.payload
  groups_of : ∀ group ∈ groups, (∃ frame, group = [frame] ∧ frame.header.frameType = .single) ∨
    ∀ frame ∈ group, frame.header.frameType = .consecutive
  held_of : ∀ frame ∈ held, frame.header.frameType = .consecutive

variable {messages : List Message} {groups : List (List Frame)} {held : List Frame}

theorem Dealt.keep (h : Dealt frames buffer messages groups held) (frame : Frame) :
    Dealt (frames ++ [frame]) buffer messages groups held :=
  { h with sublist := h.sublist.trans (List.sublist_append_left frames [frame]) }

/-- What is in the buffer is given up. -/
theorem Dealt.drop (h : Dealt frames buffer messages groups held)
    {next : Option PartialMessage} (hnext : ∀ new, next = some new → new.data = []) :
    Dealt frames next messages groups [] where
  sublist := by
    rw [List.append_nil]
    exact (List.sublist_append_left _ _).trans h.sublist
  buffer_eq := hnext
  data_eq := h.data_eq
  groups_of := h.groups_of
  held_of := fun _ hframe => absurd hframe List.not_mem_nil

theorem Dealt.join {old new : PartialMessage} (h : Dealt frames (some old) messages groups held)
    (htype : frame.header.frameType = .consecutive) (hdata : new.data = old.data ++ frame.payload) :
    Dealt (frames ++ [frame]) (some new) messages groups (held ++ [frame]) where
  sublist := by
    rw [← List.append_assoc]
    exact h.sublist.append_right [frame]
  buffer_eq := by
    intro kept hkept
    rw [← Option.some.inj hkept, hdata, h.buffer_eq old rfl, List.flatMap_append,
      List.flatMap_singleton]
  data_eq := h.data_eq
  groups_of := h.groups_of
  held_of := by
    intro piece hpiece
    rcases List.mem_append.1 hpiece with hheld | hlast
    · exact h.held_of piece hheld
    · rw [List.mem_singleton.1 hlast]
      exact htype

/-- What is in the buffer becomes a message. -/
theorem Dealt.deliver {new : PartialMessage} {m : Message}
    (h : Dealt frames (some new) messages groups held) (hdata : m.data = new.data) :
    Dealt frames none (messages ++ [m]) (groups ++ [held]) [] where
  sublist := by
    rw [List.flatten_append, List.flatten_singleton, List.append_nil]
    exact h.sublist
  buffer_eq := by simp
  data_eq := by
    rw [List.map_append, List.map_append, h.data_eq, List.map_singleton, List.map_singleton, hdata,
      h.buffer_eq new rfl]
  groups_of := by
    intro group hgroup
    rcases List.mem_append.1 hgroup with hold | hlast
    · exact h.groups_of group hold
    · rw [List.mem_singleton.1 hlast]
      exact Or.inr h.held_of
  held_of := fun _ hframe => absurd hframe List.not_mem_nil

theorem Dealt.single {m : Message} (h : Dealt frames buffer messages groups held)
    (htype : frame.header.frameType = .single) (hdata : m.data = frame.payload) :
    Dealt (frames ++ [frame]) none (messages ++ [m]) (groups ++ [[frame]]) [] where
  sublist := by
    have hgroups := (List.sublist_append_left _ _).trans h.sublist
    rw [List.flatten_append, List.flatten_singleton, List.append_nil]
    exact hgroups.append_right [frame]
  buffer_eq := by simp
  data_eq := by
    rw [List.map_append, List.map_append, h.data_eq, List.map_singleton, List.map_singleton, hdata,
      List.flatMap_singleton]
  groups_of := by
    intro group hgroup
    rcases List.mem_append.1 hgroup with hold | hlast
    · exact h.groups_of group hold
    · exact Or.inl ⟨frame, List.mem_singleton.1 hlast, htype⟩
  held_of := fun _ hframe => absurd hframe List.not_mem_nil

/-- One more frame, of any kind. -/
theorem Dealt.step (h : Dealt frames buffer messages groups held) (limit : Nat) (frame : Frame) :
    ∃ groups held, Dealt (frames ++ [frame]) (onKey limit buffer frame).2
      (messages ++ (delivered? (onKey limit buffer frame).1).toList) groups held := by
  have hkeep := h.keep frame
  rw [← List.append_nil messages] at hkeep
  unfold onKey
  cases htype : frame.header.frameType with
  | control => exact ⟨groups, held, hkeep⟩
  | single => cases buffer <;> exact ⟨_, _, h.single htype rfl⟩
  | first =>
    simp only [Assembler.onFirst]
    split
    · exact ⟨groups, held, hkeep⟩
    · split
      · exact ⟨groups, [], hkeep.drop (by simp)⟩
      · exact ⟨groups, [], hkeep.drop fun new hnew => by rw [← Option.some.inj hnew]⟩
  | consecutive =>
    simp only [Assembler.onConsecutive]
    split
    · exact ⟨groups, held, hkeep⟩
    · rename_i old
      split
      · exact ⟨groups, [], hkeep.drop (by simp)⟩
      · have hjoin : ∀ new : PartialMessage, new.data = old.data ++ frame.payload →
            Dealt (frames ++ [frame]) (some new) messages groups (held ++ [frame]) :=
          fun new hdata => h.join htype hdata
        split
        · refine ⟨groups, held ++ [frame], ?_⟩
          simp only [delivered?, Option.toList_none, List.append_nil]
          exact hjoin _ rfl
        · exact ⟨_, [], (hjoin { old with data := old.data ++ frame.payload } rfl).deliver rfl⟩

/-- The messages of a key are made of its frames, none of which is used
twice. -/
theorem dealt_onKeyAll (limit : Nat) (frames : List Frame) :
    ∃ groups held, Dealt frames (onKeyAll limit none frames).2
      ((onKeyAll limit none frames).1.filterMap delivered?) groups held := by
  induction frames using List.reverseRecOn with
  | nil => exact ⟨[], [], List.Sublist.refl _, by simp [onKeyAll], rfl, by simp, by simp⟩
  | append_singleton frames frame ih =>
    obtain ⟨groups, held, hdealt⟩ := ih
    obtain ⟨groups, held, hnext⟩ := hdealt.step limit frame
    refine ⟨groups, held, ?_⟩
    rw [onKeyAll_concat, List.filterMap_append]
    convert hnext using 2
    simp only [List.filterMap_cons, List.filterMap_nil]
    cases delivered? (onKey limit (onKeyAll limit none frames).2 frame).1 <;> rfl

/-! ## All keys at once -/

/-- What an assembler does after these frames, said without its buffers. -/
structure FollowsHistory (limit : Nat) (frames : List Frame) (a : Assembler) : Prop where
  /-- A buffer is open if and only if a message is under way on its key. -/
  isAssembling_iff : ∀ key, a.isAssembling key = true ↔
    ∃ first since, UnderWay limit (lane key frames) first since
  /-- A piece of no message is refused and changes nothing. -/
  stray : ∀ frame, frame.header.frameType = .consecutive →
    a.isAssembling frame.header.key = false →
    a.handle frame = (.error (.sequenceMismatch frame.header.session frame.header.service), a)
  /-- A piece that is too much ends the message. -/
  tooLarge : ∀ frame first since, UnderWay limit (lane frame.header.key frames) first since →
    frame.header.frameType = .consecutive →
    limit < (gathered since).length + frame.payload.length →
    (a.handle frame).1 =
        .error (.messageTooLarge ((gathered since).length + frame.payload.length) limit) ∧
      (a.handle frame).2.isAssembling frame.header.key = false
  /-- The last piece yields all pieces since the first frame, under the version
  and the id of that frame. -/
  finished : ∀ frame first since, UnderWay limit (lane frame.header.key frames) first since →
    frame.header.frameType = .consecutive → frame.header.frameData = terminalSequence →
    (gathered since).length + frame.payload.length ≤ limit →
    (a.handle frame).1 = .ok (.message {
        service := frame.header.service, session := frame.header.session
        version := first.header.version, data := gathered since ++ frame.payload
        bulk := none, messageId := first.header.messageId }) ∧
      (a.handle frame).2.isAssembling frame.header.key = false
  /-- Any other piece leaves the message under way. -/
  joined : ∀ frame first since, UnderWay limit (lane frame.header.key frames) first since →
    frame.header.frameType = .consecutive → frame.header.frameData ≠ terminalSequence →
    (gathered since).length + frame.payload.length ≤ limit →
    (a.handle frame).1 = .ok .pending ∧
      (a.handle frame).2.isAssembling frame.header.key = true
  /-- A single frame cuts short what is under way. -/
  interrupted : ∀ frame first since, UnderWay limit (lane frame.header.key frames) first since →
    frame.header.frameType = .single →
    (a.handle frame).1 = .ok (.interrupted
        (messageOf frame.header frame.header.messageId frame.payload) (gathered since).length) ∧
      (a.handle frame).2.isAssembling frame.header.key = false

theorem isAssembling_handle (a : Assembler) (frame : Frame) :
    (a.handle frame).2.isAssembling frame.header.key =
      (onKey a.maxMessageSize (a.get? frame.header.key) frame).2.isSome := by
  unfold isAssembling
  rw [get?_handle, if_pos rfl]

theorem handle_of_not_isAssembling {a : Assembler} (htype : frame.header.frameType = .consecutive)
    (hclosed : a.isAssembling frame.header.key = false) :
    a.handle frame =
      (.error (.sequenceMismatch frame.header.session frame.header.service), a) := by
  have hget : a.get? frame.header.key = none := Option.isNone_iff_eq_none.1 (by
    rw [← Option.not_isSome, ← isAssembling, hclosed]
    rfl)
  unfold handle consecutive
  simp only [htype, hget]

theorem followsHistory_of_recalls {a : Assembler} (hlimit : a.maxMessageSize = limit)
    (hrecalls : ∀ key, Recalls limit (lane key frames) (a.get? key)) :
    FollowsHistory limit frames a := by
  -- what the buffer of the key of a frame holds decides what the frame brings about
  have hheld : ∀ frame first since, UnderWay limit (lane frame.header.key frames) first since →
      ∃ old, Holds first since old ∧ (a.handle frame).1 = (onKey limit (some old) frame).1 ∧
        (a.handle frame).2.isAssembling frame.header.key =
          (onKey limit (some old) frame).2.isSome := by
    intro frame first since hway
    obtain ⟨old, hold, hholds⟩ := (hrecalls frame.header.key).holds first since hway
    refine ⟨old, hholds, ?_, ?_⟩
    · rw [handle_fst, hlimit, hold]
    · rw [isAssembling_handle, hlimit, hold]
  refine ⟨fun key => ?_, fun frame => handle_of_not_isAssembling, ?_, ?_, ?_, ?_⟩
  · refine ⟨(hrecalls key).exists_underWay, ?_⟩
    rintro ⟨first, since, hway⟩
    obtain ⟨old, hold, -⟩ := (hrecalls key).holds first since hway
    unfold isAssembling
    rw [hold]
    rfl
  · intro frame first since hway htype hlarge
    obtain ⟨old, hholds, hresult, hopen⟩ := hheld frame first since hway
    rw [← hholds.data_eq] at hlarge ⊢
    rw [hresult, hopen]
    simp only [onKey, htype, Assembler.onConsecutive, if_pos hlarge]
    exact ⟨trivial, rfl⟩
  · intro frame first since hway htype hterminal hfits
    obtain ⟨old, hholds, hresult, hopen⟩ := hheld frame first since hway
    rw [← hholds.data_eq] at hfits ⊢
    rw [hresult, hopen, ← hholds.version_eq, ← hholds.messageId_eq]
    simp only [onKey, htype, Assembler.onConsecutive, if_neg (Nat.not_lt_of_le hfits), hterminal]
    exact ⟨rfl, rfl⟩
  · intro frame first since hway htype hmore hfits
    obtain ⟨old, hholds, hresult, hopen⟩ := hheld frame first since hway
    rw [← hholds.data_eq] at hfits
    rw [hresult, hopen]
    simp only [onKey, htype, Assembler.onConsecutive, if_neg (Nat.not_lt_of_le hfits), if_pos hmore]
    exact ⟨trivial, rfl⟩
  · intro frame first since hway htype
    obtain ⟨old, hholds, hresult, hopen⟩ := hheld frame first since hway
    rw [← hholds.data_eq, hresult, hopen]
    simp only [onKey, htype, onSingle]
    exact ⟨trivial, rfl⟩

/-- Whatever frames have come in, in whatever mix of keys, with whatever
counters and announcements: what an assembler does is what the history of each
key says, and no frame goes into two messages. -/
theorem followsHistory (limit : Nat) {frames : List Frame} (hreadable : Readable frames) :
    let run := (empty limit).handleAll frames
    FollowsHistory limit frames run.2 ∧
      ∀ key, ∃ groups : List (List Frame), groups.flatten.Sublist (lane key frames) ∧
        ((run.1.filterMap delivered?).filter fun m => m.key = key).map Message.data =
          groups.map (fun group => group.flatMap Frame.payload) ∧
        ∀ group ∈ groups, (∃ frame, group = [frame] ∧ frame.header.frameType = .single) ∨
          ∀ frame ∈ group, frame.header.frameType = .consecutive := by
  intro run
  have hlimit : run.2.maxMessageSize = limit := maxMessageSize_handleAll (empty limit) frames
  refine ⟨followsHistory_of_recalls hlimit fun key => ?_, fun key => ?_⟩
  · rw [get?_handleAll]
    exact recalls_onKeyAll fun frame hframe => hreadable frame (List.mem_filter.1 hframe).1
  · obtain ⟨groups, held, hdealt⟩ := dealt_onKeyAll limit (lane key frames)
    refine ⟨groups, (List.sublist_append_left _ _).trans hdealt.sublist, ?_, hdealt.groups_of⟩
    rw [filter_delivered_handleAll]
    exact hdealt.data_eq

/-- One byte in nine pieces is announced, three bytes come with counters that
make no sense, and a frame of another key comes in between. -/
theorem followsHistory_wrong_counters :
    let m := Message.plain .bulk 1 4 []
    let first := Frame.stamped (Header.first .bulk 1 7 4) (FirstPayload.encode 1 9)
    let frames := [first, m.consecutiveFrame 0 200 [0x61],
      (Message.plain .audio 1 4 []).consecutiveFrame 0 terminalSequence [0x7A],
      m.consecutiveFrame 0 200 [0x62]]
    let a := ((empty 8).handleAll frames).2
    (a.handle (m.consecutiveFrame 0 terminalSequence [0x63])).1 =
        .ok (.message { Message.plain .bulk 1 4 [0x61, 0x62, 0x63] with messageId := 7 }) ∧
      (a.handle (m.singleFrame 0)).1 = .ok (.interrupted m 2) ∧
      Readable frames ∧ FollowsHistory 8 frames a := by
  intro m first frames a
  have hreadable : Readable frames := by
    unfold Readable
    decide
  exact ⟨by decide, by decide, hreadable, (followsHistory 8 hreadable).1⟩

end Assembler

end HeadUnitLink
