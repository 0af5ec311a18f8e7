import HeadUnitLink.Proofs.Wire.Codec

/-!
# What a prefix of a stream decides

A stream is read before all of it is there.  What the reader finds in the bytes
at hand has to hold whatever arrives later, and it must not wait for ever.

* `Frame.decode_append` says that later bytes change nothing, and
  `Frame.takeFrom_eq` carries it over to the buffer.
* `Frame.declaredLength?_of_frame` ties the length that a stream would step over
  to the length of the frame that it reads.
* `Frame.length_lt_of_waits` bounds how many bytes are waited for: the longest
  header and the greatest payload that a size field can name.
-/

namespace HeadUnitLink

namespace Frame

variable {limit : Nat} {buffer : Bytes}

/-! ## Waiting -/

/-- A payload is taken as soon as all of it is there. -/
theorem length_lt_of_takePayload_none {header : Header} {body : Bytes}
    (h : takePayload header body = none) : body.length < header.dataSize.toNat := by
  unfold takePayload at h
  simp only at h
  split at h
  · rename_i hshort
    rw [List.length_take] at hshort
    omega
  · exact absurd h (by simp)

/-- No buffer is so long that more bytes are waited for whatever they are. -/
theorem length_lt_of_waits (h : decode limit buffer = .ok none) :
    buffer.length < maxHeaderSize + UInt32.size := by
  rcases decode_ok_cases h with ⟨-, hshort⟩ | ⟨_, _, size, header, -, hsize, -, -, htake⟩
  · exact Nat.lt_add_right _ hshort
  · have hbody := length_lt_of_takePayload_none htake.symm
    have hdata := header.dataSize.toNat_lt
    have hmax := (headerSize_bounds hsize).2
    rw [List.length_drop] at hbody
    rw [UInt32.size]
    omega

theorem exists_not_waits (limit : Nat) (buffer : Bytes) :
    ∃ suffix, decode limit (buffer ++ suffix) ≠ .ok none := by
  refine ⟨List.replicate (maxHeaderSize + UInt32.size) 0, fun hwaits => ?_⟩
  have hlt := length_lt_of_waits hwaits
  rw [List.length_append, List.length_replicate] at hlt
  exact absurd hlt (Nat.not_lt.2 (Nat.le_add_left _ _))

/-! ## The declared length -/

/-- A frame declares the bytes that were taken. -/
theorem declaredLength?_of_frame {f : Frame} {rest : Bytes}
    (h : decode limit buffer = .ok (some (f, rest))) :
    declaredLength? buffer = some f.wireSize := by
  obtain ⟨first, tail, size, rfl, hsize, hheader, htake⟩ := decode_eq_frame h
  have hlength : size ≤ (first :: tail).length := by
    refine Decidable.byContradiction fun hshort => ?_
    rw [decode_of_short hsize hshort] at h
    exact absurd h (by simp)
  obtain ⟨service, frameData, session, dataSize, messageId, hfields, -, hdeclared⟩ :=
    Header.decode_eq_ofFields hsize hlength
  rw [hheader] at hfields
  rcases Header.ofFields_cases first service frameData session dataSize messageId with
    ⟨fault, hfault⟩ | ⟨header, hread, hversion, hdata⟩
  · exact absurd (hfields.trans hfault) (by simp)
  · obtain rfl := Except.ok.inj (hfields.trans hread)
    obtain ⟨-, hpayload, -⟩ := takePayload_eq_some htake
    rw [hdeclared]
    unfold wireSize
    rw [hversion, hsize, Option.getD_some, ← hpayload, hdata]

/-! ## The result -/

/-- What a buffer holds decides, or it is waited for.  A frame and an error stay
what they are when more bytes arrive; the bytes after the frame are left over, and
an error leaves the buffer alone.  So does waiting, and there are bytes that end
it.  The declared length of a frame that is read is its length, and a malformed
header has a declared length that later bytes do not change. -/
theorem takeFrom_decides (limit : Nat) (buffer more : Bytes) :
    (∀ f rest, takeFrom limit buffer = (.ok (some f), rest) →
      takeFrom limit (buffer ++ more) = (.ok (some f), rest ++ more) ∧
        declaredLength? buffer = some f.wireSize) ∧
    (∀ e rest, takeFrom limit buffer = (.error e, rest) →
      rest = buffer ∧ takeFrom limit (buffer ++ more) = (.error e, buffer ++ more)) ∧
    (∀ rest, takeFrom limit buffer = (.ok none, rest) →
      rest = buffer ∧ ∃ suffix, (takeFrom limit (buffer ++ suffix)).1 ≠ .ok none) ∧
    ∀ fault rest, takeFrom limit buffer = (.error (.malformedHeader fault), rest) →
      ∃ length, declaredLength? buffer = some length ∧
        ∀ suffix, declaredLength? (buffer ++ suffix) = some length := by
  refine ⟨fun f rest h => ?_, fun e rest h => ?_, fun rest h => ?_, fun fault rest h => ?_⟩
  · rw [takeFrom_frame_iff] at h ⊢
    exact ⟨decode_append_of_frame h more, declaredLength?_of_frame h⟩
  · obtain ⟨herror, hrest⟩ := takeFrom_error_iff.1 h
    exact ⟨hrest, takeFrom_error_iff.2 ⟨decode_append_of_error herror more, rfl⟩⟩
  · obtain ⟨-, hrest⟩ := takeFrom_waits_iff.1 h
    obtain ⟨suffix, hdecided⟩ := exists_not_waits limit buffer
    exact ⟨hrest, suffix, fun hnone =>
      hdecided (takeFrom_waits_iff.1 (Prod.ext hnone rfl)).1⟩
  · obtain ⟨herror, -⟩ := takeFrom_error_iff.1 h
    obtain ⟨length, hlength⟩ := declaredLength?_of_malformed herror
    exact ⟨length, hlength, declaredLength?_append hlength⟩

end Frame

end HeadUnitLink
