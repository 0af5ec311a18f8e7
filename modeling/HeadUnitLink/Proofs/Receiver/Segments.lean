import HeadUnitLink.Proofs.Receiver.Reading
import HeadUnitLink.Proofs.Wire.Codec
import Mathlib.Data.List.Chain

/-!
# The segments of received bytes

Whatever bytes a receiver is given, they fall into segments: frames, malformed
frames of the length that their headers declare, and single bytes that are
stepped over in search of a header.  Behind the last segment there is a rest,
either the start of a frame or the start of a malformed frame.

* `RoutedFrame` and `SkippedFrame` carry the proof of what they are.  The bytes
  that are lost in one search make up one `Stretch`, so that two stretches of
  lost bytes are never side by side.
* `Splits` is the declarative rule: what stands at the front of the bytes
  decides the first segment, and the bytes behind it the others.
* `exists_splits` says that every byte string falls into segments, and
  `Splits.reading` that these are what the loop of a receiver meets.
-/

namespace HeadUnitLink

/-! ## Segments -/

/-- A frame, and the bytes that it is written with. -/
structure RoutedFrame where
  frame : Frame
  bytes : Bytes
  encode_eq : frame.encode = .ok bytes

/-- A malformed frame that is stepped over, of which `missing` bytes have still
to arrive.  How long it is, its header declares. -/
structure SkippedFrame (limit missing : Nat) where
  bytes : Bytes
  fault : HeaderFault
  decode_eq : Frame.decode limit bytes = .error (.malformedHeader fault)
  declared_eq : Frame.declaredLength? bytes = some (bytes.length + missing)
  length_le : bytes.length + missing ≤ maxHeaderSize + limit

/-- A byte that is stepped over in search of a header, and why none can be read
there. -/
structure LostByte where
  byte : UInt8
  cause : FrameError

/-- One segment, or all bytes that are lost in one search. -/
inductive Stretch (limit : Nat) where
  | routed (f : RoutedFrame)
  | skipped (f : SkippedFrame limit 0)
  | lost (first : LostByte) (more : List LostByte)

/-- What stands behind the last segment. -/
inductive Ending (limit : Nat) where
  /-- Bytes that are not yet a frame. -/
  | kept (buffer : Bytes) (waits : Frame.decode limit buffer = .ok none)
  /-- A malformed frame that is not all there. -/
  | cut (missing : Nat) (missing_pos : 0 < missing) (f : SkippedFrame limit missing)

/-- The error that tells of a malformed frame. -/
def SkippedFrame.notice {limit missing : Nat} (f : SkippedFrame limit missing) : Notice :=
  .error .malformedHeader (.frame (.malformedHeader f.fault))

/-- The round of the loop that steps over a malformed frame. -/
def SkippedFrame.round {limit missing : Nat} (f : SkippedFrame limit missing) : StreamEvent :=
  .damage (.malformedHeader f.fault) (f.bytes.length + missing)

/-- The error that tells of a search which starts at this byte. -/
def LostByte.notice (l : LostByte) : Notice := .error .unreadableHeader (.frame l.cause)

/-- The round of the loop that steps over a lost byte. -/
def LostByte.round (l : LostByte) : StreamEvent := .damage l.cause 1

namespace Stretch

variable {limit : Nat}

def bytes : Stretch limit → Bytes
  | routed f => f.bytes
  | skipped f => f.bytes
  | lost first more => (first :: more).map LostByte.byte

/-- The rounds of the loop that a stretch takes. -/
def rounds : Stretch limit → List StreamEvent
  | routed f => [.frame f.frame]
  | skipped f => [f.round]
  | lost first more => (first :: more).map LostByte.round

def frame? : Stretch limit → Option Frame
  | routed f => some f.frame
  | _ => none

def skipped? : Stretch limit → Option (SkippedFrame limit 0)
  | skipped f => some f
  | _ => none

/-- The byte at which a search starts. -/
def search? : Stretch limit → Option LostByte
  | lost first _ => some first
  | _ => none

/-- Two searches side by side would be one. -/
def Apart : Stretch limit → Stretch limit → Prop
  | lost _ _, lost _ _ => False
  | _, _ => True

/-- The lost bytes that come first. -/
def opening : List (Stretch limit) → List LostByte
  | lost first more :: _ => first :: more
  | _ => []

/-- The stretches that are told of: those behind the lost bytes that come first,
if a header is searched for already. -/
def heard : Bool → List (Stretch limit) → List (Stretch limit)
  | true, lost _ _ :: rest => rest
  | _, stretches => stretches

/-- A byte more that is lost belongs to the search that goes on behind it. -/
def lose (l : LostByte) (stretches : List (Stretch limit)) : List (Stretch limit) :=
  lost l (opening stretches) :: heard true stretches

theorem heard_false (stretches : List (Stretch limit)) : heard false stretches = stretches := by
  cases stretches <;> rfl

theorem flatMap_bytes_lose (l : LostByte) (stretches : List (Stretch limit)) :
    (lose l stretches).flatMap bytes = l.byte :: stretches.flatMap bytes := by
  rcases stretches with _ | ⟨_ | _ | _, rest⟩ <;> rfl

theorem flatMap_rounds_lose (l : LostByte) (stretches : List (Stretch limit)) :
    (lose l stretches).flatMap rounds = l.round :: stretches.flatMap rounds := by
  rcases stretches with _ | ⟨_ | _ | _, rest⟩ <;> rfl

theorem filterMap_frame?_lose (l : LostByte) (stretches : List (Stretch limit)) :
    (lose l stretches).filterMap frame? = stretches.filterMap frame? := by
  rcases stretches with _ | ⟨_ | _ | _, rest⟩ <;> rfl

theorem isChain_lose (l : LostByte) {stretches : List (Stretch limit)}
    (h : stretches.IsChain Apart) : (lose l stretches).IsChain Apart := by
  rcases stretches with _ | ⟨f | f | ⟨first, more⟩, rest⟩
  · exact List.isChain_singleton _
  · exact List.isChain_cons_cons.2 ⟨trivial, h⟩
  · exact List.isChain_cons_cons.2 ⟨trivial, h⟩
  · -- The search goes on, and what stands behind it is no search.
    show (lost l (first :: more) :: rest).IsChain Apart
    cases rest with
    | nil => exact List.isChain_singleton _
    | cons next rest =>
      obtain ⟨hnext, hrest⟩ := List.isChain_cons_cons.1 h
      refine List.isChain_cons_cons.2 ⟨?_, hrest⟩
      cases next with
      | lost _ _ => exact hnext
      | _ => trivial

end Stretch

namespace Ending

variable {limit : Nat}

def bytes : Ending limit → Bytes
  | kept buffer _ => buffer
  | cut _ _ f => f.bytes

/-- The bytes that are kept. -/
def buffer : Ending limit → Bytes
  | kept buffer _ => buffer
  | cut _ _ _ => []

/-- How many bytes have still to arrive and to be dropped. -/
def missing : Ending limit → Nat
  | kept _ _ => 0
  | cut missing _ _ => missing

def notices : Ending limit → List Notice
  | kept _ _ => []
  | cut _ _ f => [f.notice]

def rounds : Ending limit → List StreamEvent
  | kept _ _ => []
  | cut _ _ f => [f.round]

end Ending

/-! ## The front of the bytes -/

/-- A header is read off its own bytes. -/
theorem Header.decode_take {first : UInt8} {tail : Bytes} {size : Nat}
    (hsize : headerSize? (versionOf first) = some size) (hlength : size ≤ (first :: tail).length) :
    decode ((first :: tail).take size) = decode (first :: tail) := by
  obtain ⟨_, _, _, _, _, hwhole, htake, _⟩ := decode_eq_ofFields hsize hlength
  rw [htake, hwhole]

namespace Frame

variable {limit : Nat}

/-- A malformed header is all there, and a frame is no shorter than it. -/
theorem decode_eq_malformed {bytes : Bytes} {fault : HeaderFault}
    (h : decode limit bytes = .error (.malformedHeader fault)) :
    ∃ first tail size payload, bytes = first :: tail ∧
      headerSize? (Header.versionOf first) = some size ∧ size ≤ (first :: tail).length ∧
      Header.decode (first :: tail) = .error (.malformedHeader fault) ∧
      declaredLength? bytes = some (size + payload) := by
  cases bytes with
  | nil => exact absurd h (by simp)
  | cons first tail =>
    cases hsize : headerSize? (Header.versionOf first) with
    | none =>
      rw [decode_of_noVersion hsize] at h
      exact absurd h (by simp)
    | some size =>
      by_cases hlength : size ≤ (first :: tail).length
      · obtain ⟨_, _, _, dataSize, _, _, _, hdeclared⟩ :=
          Header.decode_eq_ofFields hsize hlength
        refine ⟨first, tail, size, dataSize.toNat, rfl, hsize, hlength, ?_, hdeclared⟩
        rw [decode_of_headerSize hsize hlength] at h
        split at h
        · rename_i cause hheader
          obtain rfl := Except.error.inj h
          exact hheader
        · split at h
          · exact absurd h (by simp)
          · exact absurd h (by simp)
      · rw [decode_of_short hsize hlength] at h
        exact absurd h (by simp)

/-- A malformed frame is malformed by itself, without the bytes behind it. -/
theorem decode_take_of_malformed {bytes : Bytes} {fault : HeaderFault} {length : Nat}
    (h : decode limit bytes = .error (.malformedHeader fault))
    (hdeclared : declaredLength? bytes = some length) (hlength : length ≤ bytes.length) :
    decode limit (bytes.take length) = .error (.malformedHeader fault) ∧
      declaredLength? (bytes.take length) = some length := by
  obtain ⟨first, tail, size, payload, rfl, hsize, _, hheader, hfound⟩ := decode_eq_malformed h
  obtain rfl := Option.some.inj (hfound.symm.trans hdeclared)
  have hpos := headerSize?_pos hsize
  obtain ⟨count, hcount⟩ : ∃ count, size + payload = count + 1 := ⟨size + payload - 1, by omega⟩
  have hcut : (first :: tail).take (size + payload) = first :: tail.take count := by
    rw [hcount, List.take_succ_cons]
  have hfull : size ≤ (first :: tail.take count).length := by
    rw [← hcut, List.length_take]
    omega
  have hsame : Header.decode (first :: tail.take count) = Header.decode (first :: tail) := by
    rw [← Header.decode_take hsize hfull, ← hcut, List.take_take,
      Nat.min_eq_left (Nat.le_add_right size payload), Header.decode_take hsize (by omega)]
  have hmalformed : decode limit ((first :: tail).take (size + payload)) =
      .error (.malformedHeader fault) := by
    rw [hcut]
    exact decode_of_malformed hsize hfull (hsame.trans hheader)
  refine ⟨hmalformed, ?_⟩
  obtain ⟨found, hfound'⟩ := declaredLength?_of_malformed hmalformed
  have hwhole := declaredLength?_append hfound' ((first :: tail).drop (size + payload))
  rw [List.take_append_drop, hfound] at hwhole
  rw [hfound', hwhole]

end Frame

/-- Damage is read as the event that steps over it, and what comes behind. -/
theorem Reading.damage_of_reach {limit length : Nat} {reach : Bytes → FrameError → Nat}
    {bytes rest last : Bytes} {e : FrameError} {events : List StreamEvent}
    (hdecode : Frame.decode limit bytes = .error e) (hreach : reach bytes e = length)
    (hrest : bytes.drop length = rest) (tail : Reading limit reach rest events last) :
    Reading limit reach bytes (.damage e length :: events) last := by
  subst hreach
  subst hrest
  exact .damage hdecode tail

/-! ## How bytes split -/

/-- The bytes fall into these stretches and this ending: what stands at their
front decides the first segment, whatever comes behind it. -/
inductive Splits (config : Config) :
    Bytes → List (Stretch config.maxMessageSize) → Ending config.maxMessageSize → Prop where
  | kept {bytes : Bytes} (hdecode : Frame.decode config.maxMessageSize bytes = .ok none) :
      Splits config bytes [] (.kept bytes hdecode)
  | cut {missing : Nat} (hmissing : 0 < missing)
      (f : SkippedFrame config.maxMessageSize missing) :
      Splits config f.bytes [] (.cut missing hmissing f)
  | routed (f : RoutedFrame) {rest : Bytes} {stretches : List (Stretch config.maxMessageSize)}
      {ending : Ending config.maxMessageSize}
      (hdecode : Frame.decode config.maxMessageSize (f.bytes ++ rest) =
        .ok (some (f.frame, rest)))
      (tail : Splits config rest stretches ending) :
      Splits config (f.bytes ++ rest) (.routed f :: stretches) ending
  | skipped (f : SkippedFrame config.maxMessageSize 0) {rest : Bytes}
      {stretches : List (Stretch config.maxMessageSize)} {ending : Ending config.maxMessageSize}
      (tail : Splits config rest stretches ending) :
      Splits config (f.bytes ++ rest) (.skipped f :: stretches) ending
  | lost (l : LostByte) {rest : Bytes} {stretches : List (Stretch config.maxMessageSize)}
      {ending : Ending config.maxMessageSize}
      (hdecode : Frame.decode config.maxMessageSize (l.byte :: rest) = .error l.cause)
      (hskip : Receiver.skipLength? config (l.byte :: rest) l.cause = none)
      (tail : Splits config rest stretches ending) :
      Splits config (l.byte :: rest) (Stretch.lose l stretches) ending

variable {config : Config}

/-- How far a skipped frame reaches is known from the bytes that are there. -/
theorem SkippedFrame.skipLength?_append {missing : Nat}
    (hbound : maxHeaderSize + config.maxMessageSize < sizeModulus)
    (f : SkippedFrame config.maxMessageSize missing) (rest : Bytes) :
    Receiver.skipLength? config (f.bytes ++ rest) (.malformedHeader f.fault) =
      some (f.bytes.length + missing) := by
  apply Receiver.skipLength?_eq_some_iff.2
  refine ⟨f.fault, rfl, Frame.declaredLength?_append f.declared_eq rest, ?_⟩
  unfold Frame.skipLimit
  rw [Nat.mod_eq_of_lt hbound]
  exact f.length_le

/-- What a receiver steps over as a whole is a malformed frame, all there or
not. -/
theorem exists_skipped_of_skipLength?
    (hbound : maxHeaderSize + config.maxMessageSize < sizeModulus) {bytes : Bytes}
    {e : FrameError} {length : Nat}
    (hdecode : Frame.decode config.maxMessageSize bytes = .error e)
    (hskip : Receiver.skipLength? config bytes e = some length) :
    (∃ (f : SkippedFrame config.maxMessageSize 0) (rest : Bytes), bytes = f.bytes ++ rest) ∨
      ∃ (missing : Nat) (f : SkippedFrame config.maxMessageSize missing),
        0 < missing ∧ bytes = f.bytes := by
  obtain ⟨fault, rfl, hdeclared, hfits⟩ := Receiver.skipLength?_eq_some_iff.1 hskip
  unfold Frame.skipLimit at hfits
  rw [Nat.mod_eq_of_lt hbound] at hfits
  rcases Nat.lt_or_ge bytes.length length with hshort | hfull
  · right
    refine ⟨length - bytes.length, ⟨bytes, fault, hdecode, ?_, ?_⟩, ?_, rfl⟩
    · rw [hdeclared, Nat.add_sub_cancel' (Nat.le_of_lt hshort)]
    · omega
    · omega
  · left
    obtain ⟨hmalformed, hlength⟩ := Frame.decode_take_of_malformed hdecode hdeclared hfull
    have htake : (bytes.take length).length = length := List.length_take_of_le hfull
    refine ⟨⟨bytes.take length, fault, hmalformed, ?_, ?_⟩, bytes.drop length, ?_⟩
    · rw [hlength, htake, Nat.add_zero]
    · omega
    · exact (List.take_append_drop length bytes).symm

/-- Every byte string falls into segments. -/
theorem exists_splits (hbound : maxHeaderSize + config.maxMessageSize < sizeModulus)
    (bytes : Bytes) : ∃ stretches ending, Splits config bytes stretches ending := by
  induction hlength : bytes.length using Nat.strongRecOn generalizing bytes with
  | ind n ih =>
    subst hlength
    cases hdecode : Frame.decode config.maxMessageSize bytes with
    | ok found =>
      cases found with
      | none => exact ⟨[], _, .kept hdecode⟩
      | some result =>
        obtain ⟨frame, rest⟩ := result
        obtain ⟨written, hencode, rfl⟩ := Frame.exists_encode_of_decode hdecode
        obtain ⟨stretches, ending, htail⟩ := ih _ (Frame.length_lt_of_decode hdecode) rest rfl
        exact ⟨_, ending, .routed ⟨frame, written, hencode⟩ hdecode htail⟩
    | error e =>
      cases hskip : Receiver.skipLength? config bytes e with
      | some length =>
        rcases exists_skipped_of_skipLength? hbound hdecode hskip with
          ⟨f, rest, rfl⟩ | ⟨missing, f, hmissing, rfl⟩
        · have hpos := Frame.length_pos_of_decode_error f.decode_eq
          obtain ⟨stretches, ending, htail⟩ :=
            ih rest.length (by rw [List.length_append]; omega) rest rfl
          exact ⟨_, ending, .skipped f htail⟩
        · exact ⟨[], _, .cut hmissing f⟩
      | none =>
        cases bytes with
        | nil => exact absurd hdecode (by simp)
        | cons b rest =>
          obtain ⟨stretches, ending, htail⟩ := ih rest.length (Nat.lt_succ_self _) rest rfl
          exact ⟨_, ending, .lost ⟨b, e⟩ hdecode hskip htail⟩

namespace Splits

variable {bytes : Bytes} {stretches : List (Stretch config.maxMessageSize)}
  {ending : Ending config.maxMessageSize}

/-- The segments and the rest make up the bytes, without a gap or an
overlap. -/
theorem bytes_eq (h : Splits config bytes stretches ending) :
    bytes = stretches.flatMap Stretch.bytes ++ ending.bytes := by
  induction h with
  | kept _ => rfl
  | cut _ f => rfl
  | routed f _ _ ih => rw [List.flatMap_cons, List.append_assoc, ← ih, Stretch.bytes]
  | skipped f _ ih => rw [List.flatMap_cons, List.append_assoc, ← ih, Stretch.bytes]
  | lost l _ _ _ ih => rw [Stretch.flatMap_bytes_lose, List.cons_append, ← ih]

/-- No search stands next to another one. -/
theorem apart (h : Splits config bytes stretches ending) : stretches.IsChain Stretch.Apart := by
  induction h with
  | kept _ => exact List.isChain_nil
  | cut _ f => exact List.isChain_nil
  | routed f _ _ ih =>
    rename_i stretches _ _ _
    cases stretches with
    | nil => exact List.isChain_singleton _
    | cons next rest => exact List.isChain_cons_cons.2 ⟨trivial, ih⟩
  | skipped f _ ih =>
    rename_i stretches _ _
    cases stretches with
    | nil => exact List.isChain_singleton _
    | cons next rest => exact List.isChain_cons_cons.2 ⟨trivial, ih⟩
  | lost l _ _ _ ih => exact Stretch.isChain_lose l ih

/-- Every round takes at least one byte. -/
theorem length_rounds_le (h : Splits config bytes stretches ending) :
    (stretches.flatMap Stretch.rounds ++ ending.rounds).length ≤ bytes.length := by
  induction h with
  | kept _ => exact Nat.zero_le _
  | cut _ f => exact Frame.length_pos_of_decode_error f.decode_eq
  | routed f hdecode _ ih =>
    have hlt := Frame.length_lt_of_decode hdecode
    rw [List.flatMap_cons, Stretch.rounds, List.singleton_append, List.cons_append,
      List.length_cons]
    omega
  | skipped f _ ih =>
    have hpos := Frame.length_pos_of_decode_error f.decode_eq
    rw [List.flatMap_cons, Stretch.rounds, List.singleton_append, List.cons_append,
      List.length_cons]
    simp only [List.length_append] at ih ⊢
    omega
  | lost l _ _ _ ih =>
    rw [Stretch.flatMap_rounds_lose, List.cons_append, List.length_cons, List.length_cons]
    omega

/-- The segments are what a receiver meets in the bytes. -/
theorem reading (hbound : maxHeaderSize + config.maxMessageSize < sizeModulus)
    (h : Splits config bytes stretches ending) :
    Reading config.maxMessageSize (Receiver.reach config) bytes
      (stretches.flatMap Stretch.rounds ++ ending.rounds) ending.buffer := by
  induction h with
  | kept hdecode => exact .stop hdecode
  | @cut missing _ f =>
    have hskip := f.skipLength?_append hbound []
    rw [List.append_nil] at hskip
    apply Reading.damage_of_reach f.decode_eq
    · exact congrArg (Option.getD · 1) hskip
    · exact List.drop_eq_nil_of_le (Nat.le_add_right _ _)
    · exact .stop rfl
  | routed f hdecode _ ih => exact .frame hdecode ih
  | @skipped f rest _ _ _ ih =>
    apply Reading.damage_of_reach (Frame.decode_append_of_error f.decode_eq rest)
    · exact congrArg (Option.getD · 1) (f.skipLength?_append hbound rest)
    · exact List.drop_left
    · exact ih
  | lost l hdecode hskip _ ih =>
    rw [Stretch.flatMap_rounds_lose]
    apply Reading.damage_of_reach hdecode
    · exact congrArg (Option.getD · 1) hskip
    · exact List.drop_one
    · exact ih

end Splits

end HeadUnitLink
