import HeadUnitLink.Proofs.Message.Assembler

/-!
# Keys do not interfere

Messages of many sessions and services pass through one assembler, and a user
of one of them must not notice the others.  What such a user sees is listed by
`Assembler.sightings`: of every call that concerns the key, the answer and the
buffer that it leaves open.

* `AssemblerCall.Concerns` says which calls concern a key: the frames of the
  key, giving the key up, and giving its session up.
* `Assembler.AgreesOn` relates two assemblers that are the same for the user of
  a key.  `AgreesOn.call` is the step of a call that concerns the key, and
  `agreesOn_call` that of any other call.
* `Assembler.sightings_filter_concerns` compares two runs: one with all calls,
  and one with only the calls that concern the key.
-/

namespace HeadUnitLink

/-- What an assembler can be called for. -/
inductive AssemblerCall where
  | handle (frame : Frame)
  | discard (key : MessageKey)
  | discardSession (session : UInt8)
  deriving DecidableEq, Repr

/-- What an assembler answers. -/
inductive AssemblerAnswer where
  /-- What a frame has brought about. -/
  | handled (result : Except LinkError Assembled)
  /-- How many bytes the buffer of a key held, if it was open. -/
  | discarded (length : Option Nat)
  /-- How many buffers of a session were open. -/
  | discardedSession (count : Nat)

/-- Does a call concern a key? -/
def AssemblerCall.Concerns (key : MessageKey) : AssemblerCall → Prop
  | handle frame => frame.header.key = key
  | discard other => other = key
  | discardSession session => session = key.session

instance (key : MessageKey) (call : AssemblerCall) : Decidable (call.Concerns key) :=
  match call with
  | .handle frame => inferInstanceAs (Decidable (frame.header.key = key))
  | .discard other => inferInstanceAs (Decidable (other = key))
  | .discardSession session => inferInstanceAs (Decidable (session = key.session))

/-- What of an answer belongs to one key.  The number of open buffers of a
session counts other services too. -/
def AssemblerAnswer.ofKey? : AssemblerAnswer → Option AssemblerAnswer
  | discardedSession _ => none
  | answer => some answer

/-- What the user of a key sees of a call. -/
structure Sighting where
  answer : Option AssemblerAnswer
  isAssembling : Bool
  /-- The open buffer of the key after the call. -/
  buffer : Option PartialMessage

namespace Assembler

/-- Answers a call. -/
def call (a : Assembler) : AssemblerCall → AssemblerAnswer × Assembler
  | .handle frame => (.handled (a.handle frame).1, (a.handle frame).2)
  | .discard key => (.discarded (a.discard key).1, (a.discard key).2)
  | .discardSession session =>
    (.discardedSession (a.discardSession session).1, (a.discardSession session).2)

/-- What the user of a key sees of a call. -/
def sighting (key : MessageKey) (a : Assembler) (call : AssemblerCall) : Sighting :=
  { answer := (a.call call).1.ofKey?
    isAssembling := (a.call call).2.isAssembling key
    buffer := (a.call call).2.get? key }

/-- What the user of a key sees of a sequence of calls: every call that concerns
the key. -/
def sightings (key : MessageKey) (a : Assembler) : List AssemblerCall → List Sighting
  | [] => []
  | call :: rest =>
    if call.Concerns key then
      a.sighting key call :: (a.call call).2.sightings key rest
    else (a.call call).2.sightings key rest

/-- Two assemblers are the same for the user of a key. -/
structure AgreesOn (key : MessageKey) (a b : Assembler) : Prop where
  get?_eq : a.get? key = b.get? key
  limit_eq : a.maxMessageSize = b.maxMessageSize

variable {key : MessageKey} {a b : Assembler}

/-! ## One call -/

/-- A frame of the key meets the same buffer under the same limit. -/
theorem AgreesOn.handle (hab : AgreesOn key a b) {frame : Frame}
    (hkey : frame.header.key = key) :
    (a.handle frame).1 = (b.handle frame).1 ∧
      AgreesOn key (a.handle frame).2 (b.handle frame).2 := by
  subst hkey
  refine ⟨?_, ?_, ?_⟩
  · rw [handle_fst, handle_fst, hab.get?_eq, hab.limit_eq]
  · rw [get?_handle, get?_handle, if_pos rfl, if_pos rfl, hab.get?_eq, hab.limit_eq]
  · rw [maxMessageSize_handle, maxMessageSize_handle]
    exact hab.limit_eq

theorem AgreesOn.discard (hab : AgreesOn key a b) :
    (a.discard key).1 = (b.discard key).1 ∧
      AgreesOn key (a.discard key).2 (b.discard key).2 := by
  refine ⟨?_, ?_, ?_⟩
  · unfold Assembler.discard
    rw [hab.get?_eq]
  · show (a.erase key).get? key = (b.erase key).get? key
    rw [get?_erase, get?_erase, if_pos rfl, if_pos rfl]
  · exact hab.limit_eq

theorem AgreesOn.discardSession (hab : AgreesOn key a b) (session : UInt8) :
    AgreesOn key (a.discardSession session).2 (b.discardSession session).2 := by
  constructor
  · rw [get?_discardSession, get?_discardSession, hab.get?_eq]
  · exact hab.limit_eq

/-- A call that concerns the key cannot tell the two apart. -/
theorem AgreesOn.call (hab : AgreesOn key a b) {call : AssemblerCall}
    (hcall : call.Concerns key) :
    a.sighting key call = b.sighting key call ∧
      AgreesOn key (a.call call).2 (b.call call).2 := by
  have hboth : (a.call call).1.ofKey? = (b.call call).1.ofKey? ∧
      AgreesOn key (a.call call).2 (b.call call).2 := by
    cases call with
    | handle frame =>
      obtain ⟨hresult, hnext⟩ := hab.handle hcall
      refine ⟨?_, hnext⟩
      simp only [Assembler.call, hresult]
    | discard other =>
      cases hcall
      obtain ⟨hlength, hnext⟩ := hab.discard
      refine ⟨?_, hnext⟩
      simp only [Assembler.call, hlength]
    | discardSession session => exact ⟨rfl, hab.discardSession session⟩
  obtain ⟨hanswer, hnext⟩ := hboth
  refine ⟨?_, hnext⟩
  unfold sighting isAssembling
  rw [hanswer, hnext.get?_eq]

/-- A call that does not concern the key leaves its user where it was. -/
theorem agreesOn_call (a : Assembler) {call : AssemblerCall} (hcall : ¬ call.Concerns key) :
    AgreesOn key (a.call call).2 a := by
  cases call with
  | handle frame =>
    constructor
    · show (a.handle frame).2.get? key = a.get? key
      rw [get?_handle, if_neg]
      intro heq
      exact hcall heq.symm
    · exact maxMessageSize_handle a frame
  | discard other =>
    constructor
    · show (a.erase other).get? key = a.get? key
      rw [get?_erase, if_neg]
      intro heq
      exact hcall heq.symm
    · rfl
  | discardSession session =>
    constructor
    · show (a.discardSession session).2.get? key = a.get? key
      rw [get?_discardSession, if_neg]
      intro heq
      exact hcall heq.symm
    · rfl

theorem AgreesOn.trans {c : Assembler} (hab : AgreesOn key a b) (hbc : AgreesOn key b c) :
    AgreesOn key a c :=
  ⟨hab.get?_eq.trans hbc.get?_eq, hab.limit_eq.trans hbc.limit_eq⟩

/-! ## Many calls -/

/-- Two runs that agree at the start are seen as the same, one with all calls
and the other with those that concern the key. -/
theorem AgreesOn.sightings_filter (hab : AgreesOn key a b) (calls : List AssemblerCall) :
    a.sightings key calls = b.sightings key (calls.filter fun call => call.Concerns key) := by
  induction calls generalizing a b with
  | nil => rfl
  | cons call rest ih =>
    by_cases hcall : call.Concerns key
    · obtain ⟨hseen, hnext⟩ := hab.call hcall
      rw [List.filter_cons_of_pos (by simpa using hcall), sightings, sightings, if_pos hcall,
        if_pos hcall, hseen, ih hnext]
    · have hnext : AgreesOn key (a.call call).2 b := (agreesOn_call a hcall).trans hab
      rw [List.filter_cons_of_neg (by simpa using hcall), sightings, if_neg hcall, ih hnext]

/-- The user of a key cannot tell whether anything was called for that does not
concern the key: the answers, and the buffer after every call, are the same
without it. -/
theorem sightings_filter_concerns (key : MessageKey) (a : Assembler)
    (calls : List AssemblerCall) :
    a.sightings key (calls.filter fun call => call.Concerns key) = a.sightings key calls := by
  have hab : AgreesOn key a a := ⟨rfl, rfl⟩
  exact (hab.sightings_filter calls).symm

end Assembler

end HeadUnitLink
