import HeadUnitLink.Proofs.Wire.Decode

/-!
# What can be wrong at the start of a byte string

`Frame.decode` refuses bytes for one of three reasons: the version has no
layout, the header is malformed, or the payload is over the limit.  The reason
and the declared length are tied together, and whoever steps over the damage
has nothing else to go by: `Frame.decode_error_cases`.

A malformed header is told from its own bytes: `Frame.decode_of_malformed`.
-/

namespace HeadUnitLink

namespace Header

/-- The message id is read off the bytes of the header, whatever comes behind
them. -/
theorem exists_messageIdOf? {version : UInt8} {size : Nat} {tail : Bytes}
    (hsize : headerSize? version = some size) (hlength : size ≤ shortHeaderSize + tail.length) :
    ∃ messageId, messageIdOf? size tail = some messageId ∧
      messageIdOf? size (tail.take (size - shortHeaderSize)) = some messageId := by
  rcases version_cases hsize with ⟨_, rfl⟩ | ⟨_, rfl⟩
  · exact ⟨0, rfl, rfl⟩
  · rcases tail with _ | ⟨i₃, _ | ⟨i₂, _ | ⟨i₁, _ | ⟨i₀, more⟩⟩⟩⟩
    case cons.cons.cons.cons => exact ⟨_, rfl, rfl⟩
    all_goals simp [shortHeaderSize, longHeaderSize] at hlength

/-- A header whose bytes are all there is judged by its codes only, and by
nothing that comes behind it. -/
theorem decode_eq_ofFields {first : UInt8} {tail : Bytes} {size : Nat}
    (hsize : headerSize? (versionOf first) = some size) (hlength : size ≤ (first :: tail).length) :
    ∃ service frameData session dataSize messageId,
      decode (first :: tail) = ofFields first service frameData session dataSize messageId ∧
      decode ((first :: tail).take size) =
        ofFields first service frameData session dataSize messageId ∧
      Frame.declaredLength? (first :: tail) = some (size + dataSize.toNat) := by
  have hheader := headerSize_eq_ok_iff.2 hsize
  have hshort := (headerSize_bounds hsize).1
  obtain ⟨service, frameData, session, s₃, s₂, s₁, s₀, rest, rfl⟩ :=
    exists_fixedBytes (Nat.le_trans hshort hlength)
  have hrest : size ≤ shortHeaderSize + rest.length := by
    simp only [List.length_cons] at hlength
    simp only [shortHeaderSize]
    omega
  obtain ⟨messageId, hid, htake⟩ := exists_messageIdOf? hsize hrest
  have hcut : (first :: service :: frameData :: session :: s₃ :: s₂ :: s₁ :: s₀ :: rest).take size =
      first :: service :: frameData :: session :: s₃ :: s₂ :: s₁ :: s₀ ::
        rest.take (size - shortHeaderSize) := by
    obtain ⟨more, rfl⟩ := Nat.exists_eq_add_of_le' hshort
    rw [Nat.add_sub_cancel]
    rfl
  refine ⟨service, frameData, session, Word.ofBytes s₃ s₂ s₁ s₀, messageId, ?_, ?_, ?_⟩
  · simp only [decode, hheader, hid]
  · rw [hcut]
    simp only [decode, hheader, htake]
  · simp only [Frame.declaredLength?, hsize, Option.map_some]

theorem ofFields_cases (first service frameData session : UInt8) (dataSize messageId : UInt32) :
    (∃ fault, ofFields first service frameData session dataSize messageId =
        .error (.malformedHeader fault)) ∨
      ∃ header, ofFields first service frameData session dataSize messageId = .ok header ∧
        header.version = versionOf first ∧ header.dataSize = dataSize := by
  unfold ofFields
  split
  · exact Or.inl ⟨_, rfl⟩
  · split
    · exact Or.inl ⟨_, rfl⟩
    · split
      · exact Or.inl ⟨_, rfl⟩
      · exact Or.inr ⟨_, rfl, rfl, rfl⟩

end Header

namespace Frame

/-- Decoding looks at a header once its bytes are all there. -/
theorem decode_of_headerSize {limit size : Nat} {first : UInt8} {tail : Bytes}
    (hsize : headerSize? (Header.versionOf first) = some size)
    (hlength : size ≤ (first :: tail).length) :
    decode limit (first :: tail) =
      match Header.decode (first :: tail) with
      | .error e => .error e
      | .ok header =>
        if limit < header.dataSize.toNat then
          .error (.payloadTooLarge header.dataSize.toNat limit)
        else .ok (takePayload header ((first :: tail).drop size)) := by
  have hfull := Nat.not_lt.2 hlength
  obtain ⟨service, frameData, session, dataSize, messageId, hdecode, htake, -⟩ :=
    Header.decode_eq_ofFields hsize hlength
  rw [decode_cons]
  cases hfields : Header.ofFields first service frameData session dataSize messageId with
  | error e =>
    rw [hfields] at hdecode htake
    simp only [headerSize_eq_ok_iff.2 hsize, if_neg hfull, htake, hdecode]
  | ok header =>
    rw [hfields] at hdecode htake
    simp only [headerSize_eq_ok_iff.2 hsize, if_neg hfull, htake, hdecode]

/-- A malformed header is damage, whatever the payload. -/
theorem decode_of_malformed {limit size : Nat} {first : UInt8} {tail : Bytes}
    {fault : HeaderFault} (hsize : headerSize? (Header.versionOf first) = some size)
    (hlength : size ≤ (first :: tail).length)
    (hfault : Header.decode (first :: tail) = .error (.malformedHeader fault)) :
    decode limit (first :: tail) = .error (.malformedHeader fault) := by
  rw [decode_of_headerSize hsize hlength, hfault]

/-- A version without a layout is damage, whatever comes behind it. -/
theorem decode_of_noVersion {limit : Nat} {first : UInt8}
    (hsize : headerSize? (Header.versionOf first) = none) (tail : Bytes) :
    decode limit (first :: tail) = .error (.unsupportedVersion (Header.versionOf first)) := by
  rw [decode_cons]
  simp only [headerSize, hsize]

/-- A header that is not all there is waited for. -/
theorem decode_of_short {limit size : Nat} {first : UInt8} {tail : Bytes}
    (hsize : headerSize? (Header.versionOf first) = some size)
    (hlength : ¬ size ≤ (first :: tail).length) : decode limit (first :: tail) = .ok none := by
  rw [decode_cons]
  simp only [headerSize_eq_ok_iff.2 hsize]
  rw [if_pos (Nat.lt_of_not_le hlength)]

/-- The three ways in which bytes can be damaged, and the declared length in
each of them. -/
theorem decode_error_cases {limit : Nat} {bytes : Bytes} {e : FrameError}
    (h : decode limit bytes = .error e) :
    (∃ version, e = .unsupportedVersion version ∧ declaredLength? bytes = none) ∨
      (∃ fault length, e = .malformedHeader fault ∧ declaredLength? bytes = some length) ∨
      ∃ first tail size payload, bytes = first :: tail ∧
        headerSize? (Header.versionOf first) = some size ∧
        e = .payloadTooLarge payload limit ∧ limit < payload ∧
        declaredLength? bytes = some (size + payload) := by
  cases bytes with
  | nil => exact absurd h (by simp)
  | cons first tail =>
    cases hsize : headerSize? (Header.versionOf first) with
    | none =>
      rw [decode_of_noVersion hsize] at h
      refine Or.inl ⟨_, (Except.error.inj h).symm, ?_⟩
      unfold declaredLength?
      split
      · rename_i heq
        obtain rfl := (List.cons.inj heq).1
        rw [hsize, Option.map_none]
      · rfl
    | some size =>
      by_cases hlength : size ≤ (first :: tail).length
      · obtain ⟨service, frameData, session, dataSize, messageId, hdecode, -, hdeclared⟩ :=
          Header.decode_eq_ofFields hsize hlength
        rw [decode_of_headerSize hsize hlength, hdecode] at h
        rcases Header.ofFields_cases first service frameData session dataSize messageId with
          ⟨fault, hfields⟩ | ⟨header, hfields, -, hdata⟩
        · rw [hfields] at h
          exact Or.inr (Or.inl ⟨fault, _, (Except.error.inj h).symm, hdeclared⟩)
        · rw [hfields] at h
          simp only [hdata] at h
          split at h
          · rename_i hover
            exact Or.inr (Or.inr ⟨first, tail, size, _, rfl, hsize, (Except.error.inj h).symm,
              hover, hdeclared⟩)
          · exact absurd h (by simp)
      · rw [decode_of_short hsize hlength] at h
        exact absurd h (by simp)

/-- The declared length of damage is known before the bytes behind it
arrive. -/
theorem declaredLength?_append_of_error {limit : Nat} {bytes : Bytes} {e : FrameError}
    (h : decode limit bytes = .error e) (more : Bytes) :
    declaredLength? (bytes ++ more) = declaredLength? bytes := by
  rcases decode_error_cases h with
    ⟨version, rfl, hnone⟩ | ⟨_, length, _, hlength⟩ | ⟨_, _, _, _, _, _, _, _, hlength⟩
  · rcases decode_error_cases (decode_append_of_error h more) with
      ⟨_, _, hmore⟩ | ⟨_, _, heq, _⟩ | ⟨_, _, _, _, _, _, heq, _, _⟩
    · rw [hmore, hnone]
    · exact absurd heq (by simp)
    · exact absurd heq (by simp)
  · rw [declaredLength?_append hlength, hlength]
  · rw [declaredLength?_append hlength, hlength]

end Frame

end HeadUnitLink
