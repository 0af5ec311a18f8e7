import HeadUnitLink.Proofs.Receiver.Chunks
import HeadUnitLink.Proofs.Wire.Damage

/-!
# How much of a malformed frame is skipped

A header that is all there and describes no frame still has a size field.  A
receiver skips the whole frame if the frame is no longer than
`Frame.skipLimit`, and steps over one byte otherwise.

The limit of a receiver is about payloads, and `Frame.skipLimit` is about whole
frames.  `Frame.LimitTold` says when the two tell the same payloads apart.  Two
things can go wrong.

* A short header leaves four bytes of the longest header free, so a payload
  that is over the limit by no more than these counts as within it.
* The sum of the limit and the longest header wraps at the top of the range of
  sizes, so a payload within the limit can count as over it.

`Receiver.step_malformed_iff` says that nothing else can.
-/

namespace HeadUnitLink

namespace Frame

/-! ## A malformed header -/

/-- A byte string starts with all the bytes of a header.  The header has a size
and a payload length, and describes no frame. -/
structure Malformed (bytes : Bytes) (size payload : Nat) (fault : HeaderFault) : Prop where
  size_eq : bytes.head?.bind (fun first => headerSize? (Header.versionOf first)) = some size
  complete : size ≤ bytes.length
  payload_eq : (Word.leading? (bytes.drop 4)).map UInt32.toNat = some payload
  decode_eq : Header.decode bytes = .error (.malformedHeader fault)

variable {bytes : Bytes} {size payload : Nat} {fault : HeaderFault}

theorem Malformed.exists_cons (h : Malformed bytes size payload fault) :
    ∃ first tail, bytes = first :: tail ∧
      headerSize? (Header.versionOf first) = some size := by
  cases bytes with
  | nil => exact absurd h.size_eq (by simp)
  | cons first tail => exact ⟨first, tail, rfl, h.size_eq⟩

/-- A malformed header is damage, whatever the limit. -/
theorem Malformed.decode_frame (h : Malformed bytes size payload fault) (limit : Nat) :
    decode limit bytes = .error (.malformedHeader fault) := by
  obtain ⟨first, tail, rfl, hsize⟩ := h.exists_cons
  exact decode_of_malformed hsize h.complete h.decode_eq

/-- The declared length is that of the header and of the payload. -/
theorem Malformed.declaredLength?_eq (h : Malformed bytes size payload fault) :
    declaredLength? bytes = some (size + payload) := by
  obtain ⟨first, tail, rfl, hsize⟩ := h.exists_cons
  have hshort : shortHeaderSize ≤ (first :: tail).length :=
    Nat.le_trans (headerSize_bounds hsize).1 h.complete
  obtain ⟨service, frameData, session, s₃, s₂, s₁, s₀, rest, rfl⟩ :=
    Header.exists_fixedBytes hshort
  have hpayload : (Word.ofBytes s₃ s₂ s₁ s₀).toNat = payload := Option.some.inj h.payload_eq
  simp only [Frame.declaredLength?, hsize, Option.map_some, hpayload]

theorem Malformed.size_cases (h : Malformed bytes size payload fault) :
    size = shortHeaderSize ∨ size = longHeaderSize := by
  obtain ⟨_, _, _, hsize⟩ := h.exists_cons
  rcases version_cases hsize with ⟨_, hshort⟩ | ⟨_, hlong⟩
  · exact Or.inl hshort
  · exact Or.inr hlong

/-- The size field counts no further than 32 bits. -/
theorem Malformed.payload_lt (h : Malformed bytes size payload fault) : payload < 0x100000000 := by
  obtain ⟨word, -, hword⟩ := Option.map_eq_some_iff.1 h.payload_eq
  rw [← hword]
  exact word.toNat_lt

/-! ## The two limits -/

/-- The limit on frames tells this payload apart as the limit on payloads
does. -/
def LimitTold (limit size payload : Nat) : Prop :=
  if maxHeaderSize + limit < sizeModulus then
    payload ≤ limit ∨ limit + (maxHeaderSize - size) < payload
  else
    size + payload + sizeModulus ≤ maxHeaderSize + limit

/-- A limit at the top of the range leaves only what the sum has over when it
has wrapped. -/
theorem skipLimit_of_wrap {limit : Nat} (hlimit : limit < sizeModulus)
    (hwrap : ¬ maxHeaderSize + limit < sizeModulus) :
    skipLimit limit + sizeModulus = maxHeaderSize + limit := by
  have hmodulus : sizeModulus = 0x10000000000000000 := rfl
  have hheader : maxHeaderSize = 12 := rfl
  have hsum : maxHeaderSize + limit - sizeModulus < sizeModulus := by omega
  unfold skipLimit
  rw [Nat.mod_eq_sub_mod (Nat.le_of_not_lt hwrap), Nat.mod_eq_of_lt hsum]
  omega

theorem limitTold_iff {limit : Nat} (hlimit : limit < sizeModulus)
    (hsize : size ≤ maxHeaderSize) (hpayload : payload < 0x100000000) :
    LimitTold limit size payload ↔
      (size + payload ≤ skipLimit limit ↔ payload ≤ limit) := by
  unfold LimitTold
  split
  · rename_i hfits
    have hexact : skipLimit limit = maxHeaderSize + limit := Nat.mod_eq_of_lt hfits
    rw [hexact]
    omega
  · rename_i hwrap
    have hrest := skipLimit_of_wrap hlimit hwrap
    have hmodulus : sizeModulus = 0x10000000000000000 := rfl
    have hheader : maxHeaderSize = 12 := rfl
    -- a limit that wraps is above every size field
    have hwithin : payload ≤ limit := by omega
    omega

end Frame

namespace Receiver

/-! ## What is done about a malformed frame -/

/-- Steps over the whole of a malformed frame, and tells of it. -/
def skipMalformed (r : Receiver) (length : Nat) (fault : HeaderFault) : Receiver × List Notice :=
  (r.skipFrame length, [.error .malformedHeader (.frame (.malformedHeader fault))])

/-- Steps over one byte of a malformed frame, and tells of it unless a header is
searched for already. -/
def stepMalformed (r : Receiver) (fault : HeaderFault) : Receiver × List Notice :=
  ({ r with buffer := r.buffer.drop 1, resyncing := true },
    if r.resyncing then [] else [.error .unreadableHeader (.frame (.malformedHeader fault))])

theorem skipMalformed_ne_stepMalformed (r : Receiver) (length : Nat) (fault : HeaderFault) :
    r.skipMalformed length fault ≠ r.stepMalformed fault := by
  intro heq
  have hflag := congrArg (fun next => next.1.resyncing) heq
  exact absurd hflag Bool.false_ne_true

variable {config : Config} {r : Receiver} {size payload : Nat} {fault : HeaderFault}

/-- The whole frame is compared with the limit on frames. -/
theorem step_of_malformed (h : Frame.Malformed r.buffer size payload fault) :
    r.step? config =
      some (if size + payload ≤ Frame.skipLimit config.maxMessageSize then
        r.skipMalformed (size + payload) fault else r.stepMalformed fault) := by
  rw [step_of_error (h.decode_frame config.maxMessageSize)]
  unfold resync skipLength?
  simp only [h.declaredLength?_eq]
  split
  · rename_i length hlength
    split at hlength
    · rename_i hfits
      obtain rfl := Option.some.inj hlength
      rw [if_pos hfits]
      rfl
    · cases hlength
  · rename_i hnone
    split at hnone
    · cases hnone
    · rename_i hover
      rw [if_neg hover]
      rfl

/-- The bytes of a skipped frame are dropped, those that have still to arrive
included. -/
theorem buffer_skipFrame_feed (hdiscard : r.discard = 0) (length : Nat) (more : Bytes) :
    ((r.skipFrame length).feed more).buffer = (r.buffer ++ more).drop length := by
  rw [← skipFrame_feed hdiscard, feed_of_discard hdiscard]
  rfl

/-- Which of two things is done tells which condition is in force. -/
theorem some_ite_eq_iff {α : Type} {p q : Prop} [Decidable p] [Decidable q] {x y : α}
    (hne : x ≠ y) :
    some (if p then x else y) = some (if q then x else y) ↔ (p ↔ q) := by
  by_cases hp : p
  · by_cases hq : q
    · simp only [hp, hq]
    · simp only [hp, hq, if_true, if_false, Option.some.injEq, hne, iff_false, not_true]
  · by_cases hq : q
    · simp only [hp, hq, if_true, if_false, Option.some.injEq, hne.symm, false_iff, not_true]
    · simp only [hp, hq]

/-- A malformed frame is skipped whole if its payload is within the limit, and
stepped into otherwise, if and only if the limit on frames tells its payload
apart as the limit on payloads does.  Skipped whole, it is dropped as far as it
reaches, whatever has still to arrive. -/
theorem step_malformed_iff (hlimit : config.maxMessageSize < sizeModulus) (haligned : r.Aligned)
    (h : Frame.Malformed r.buffer size payload fault) :
    (r.step? config =
        some (if payload ≤ config.maxMessageSize then
          r.skipMalformed (size + payload) fault else r.stepMalformed fault) ↔
      Frame.LimitTold config.maxMessageSize size payload) ∧
    ∀ more, ((r.skipMalformed (size + payload) fault).1.feed more).buffer =
      (r.buffer ++ more).drop (size + payload) := by
  have hstep : r.step? config = _ := step_of_malformed h
  constructor
  · have hsize : size ≤ maxHeaderSize := by
      rcases h.size_cases with rfl | rfl
      · decide
      · exact Nat.le_refl _
    rw [hstep, some_ite_eq_iff (r.skipMalformed_ne_stepMalformed _ fault),
      Frame.limitTold_iff hlimit hsize h.payload_lt]
  · exact buffer_skipFrame_feed (haligned.discard_of_step hstep) _

/-- An unknown service, a limit of 8 and a payload of 20 bytes, of which none has
arrived. -/
theorem step_malformed_iff_over_limit :
    let config := { Config.default with maxMessageSize := 8 }
    let r := (ofConfig config).feed [0x11, 0x55, 0, 1, 0, 0, 0, 20]
    config.maxMessageSize < sizeModulus ∧ r.Aligned ∧
      Frame.Malformed r.buffer 8 20 (.unknownService 0x55) ∧
      r.step? config = some (r.stepMalformed (.unknownService 0x55)) := by
  intro config r
  have hlimit : config.maxMessageSize < sizeModulus := by decide
  have haligned : r.Aligned := Or.inl rfl
  have h : Frame.Malformed r.buffer 8 20 (.unknownService 0x55) := ⟨rfl, by decide, rfl, rfl⟩
  have htold : Frame.LimitTold config.maxMessageSize 8 20 := by
    unfold Frame.LimitTold
    decide
  exact ⟨hlimit, haligned, h, (step_malformed_iff hlimit haligned h).1.2 htold⟩

/-- A payload one byte over the limit behind a short header is skipped whole, and
under a limit at the top of the range a payload of one byte is not. -/
theorem skips_other_payloads :
    (let config := { Config.default with maxMessageSize := 8 }
      let r := (ofConfig config).feed [0x11, 0x55, 0, 1, 0, 0, 0, 9]
      (∃ e, Engine.ofConfig config = .ok e) ∧
        Frame.Malformed r.buffer 8 9 (.unknownService 0x55) ∧ ¬ 9 ≤ config.maxMessageSize ∧
        r.step? config = some (r.skipMalformed 17 (.unknownService 0x55))) ∧
    (let config := { Config.default with maxMessageSize := 0xFFFFFFFFFFFFFFF4 }
      let r := (ofConfig config).feed [0x11, 0x55, 0, 1, 0, 0, 0, 1]
      (∃ e, Engine.ofConfig config = .ok e) ∧
        Frame.Malformed r.buffer 8 1 (.unknownService 0x55) ∧ 1 ≤ config.maxMessageSize ∧
        r.step? config = some (r.stepMalformed (.unknownService 0x55))) := by
  refine ⟨⟨⟨_, rfl⟩, ⟨rfl, by decide, rfl, rfl⟩, by decide, ?_⟩,
    ⟨_, rfl⟩, ⟨rfl, by decide, rfl, rfl⟩, by decide, ?_⟩
  · rw [step_of_malformed ⟨rfl, by decide, rfl, rfl⟩]
    rfl
  · rw [step_of_malformed ⟨rfl, by decide, rfl, rfl⟩]
    rfl

end Receiver

end HeadUnitLink
