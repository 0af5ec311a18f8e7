import HeadUnitLink.Wire.Frame

/-!
# Reading frames off a byte string

Two facts about `Frame.decode` carry everything that is said of streams.

* `Frame.decode_append`: once the bytes at hand decide the outcome, bytes that
  come after them change nothing, and are left over untouched.
* `Frame.decode_encode_append`: reading what was written gives the frame back.
  `Header.received` says in what sense: a layout without a message id loses
  the message id.
-/

namespace HeadUnitLink

theorem version_cases {version : UInt8} {size : Nat} (h : headerSize? version = some size) :
    (version = 1 ∨ version = 2) ∧ size = shortHeaderSize ∨
      (version = 3 ∨ version = 4) ∧ size = longHeaderSize := by
  unfold headerSize? at h
  split at h
  · rename_i hshort
    exact Or.inl ⟨hshort, (Option.some.inj h).symm⟩
  · split at h
    · rename_i hlong
      exact Or.inr ⟨hlong, (Option.some.inj h).symm⟩
    · exact absurd h (by simp)

theorem headerSize_bounds {version : UInt8} {size : Nat} (h : headerSize? version = some size) :
    shortHeaderSize ≤ size ∧ size ≤ maxHeaderSize := by
  rcases version_cases h with ⟨_, rfl⟩ | ⟨_, rfl⟩ <;> decide

/-- The versions with a layout are those from the lowest to the highest. -/
theorem exists_headerSize?_iff {version : UInt8} :
    (∃ size, headerSize? version = some size) ↔
      minVersion ≤ version ∧ version ≤ maxVersion := by
  constructor
  · rintro ⟨size, hsize⟩
    rcases version_cases hsize with ⟨rfl | rfl, _⟩ | ⟨rfl | rfl, _⟩ <;> decide
  · rintro ⟨hmin, hmax⟩
    rw [UInt8.le_iff_toNat_le] at hmin hmax
    have hmin' : 1 ≤ version.toNat := hmin
    have hmax' : version.toNat ≤ 4 := hmax
    have hversion : version = 1 ∨ version = 2 ∨ version = 3 ∨ version = 4 := by
      simp only [← UInt8.toNat_inj]
      have h1 : (1 : UInt8).toNat = 1 := rfl
      have h2 : (2 : UInt8).toNat = 2 := rfl
      have h3 : (3 : UInt8).toNat = 3 := rfl
      have h4 : (4 : UInt8).toNat = 4 := rfl
      omega
    rcases hversion with rfl | rfl | rfl | rfl
    · exact ⟨_, rfl⟩
    · exact ⟨_, rfl⟩
    · exact ⟨_, rfl⟩
    · exact ⟨_, rfl⟩

/-- The eight bytes that every layout has. -/
theorem Header.exists_fixedBytes {first : UInt8} {tail : Bytes}
    (h : shortHeaderSize ≤ (first :: tail).length) :
    ∃ service frameData session s₃ s₂ s₁ s₀ rest,
      tail = service :: frameData :: session :: s₃ :: s₂ :: s₁ :: s₀ :: rest := by
  rcases tail with _ | ⟨b₁, _ | ⟨b₂, _ | ⟨b₃, _ | ⟨s₃, _ | ⟨s₂, _ | ⟨s₁, _ | ⟨s₀, rest⟩⟩⟩⟩⟩⟩⟩
  case cons.cons.cons.cons.cons.cons.cons => exact ⟨_, _, _, _, _, _, _, _, rfl⟩
  all_goals simp [shortHeaderSize] at h

/-! ## More bytes behind -/

namespace Frame

theorem takePayload_append {header : Header} {body rest : Bytes} {frame : Frame}
    (h : takePayload header body = some (frame, rest)) (more : Bytes) :
    takePayload header (body ++ more) = some (frame, rest ++ more) := by
  unfold takePayload at h ⊢
  simp only at h ⊢
  split at h
  · exact absurd h (by simp)
  · rename_i hfull
    obtain ⟨rfl, rfl⟩ := Prod.mk.inj (Option.some.inj h)
    have hle : header.dataSize.toNat ≤ body.length := by
      rw [List.length_take] at hfull
      omega
    rw [List.take_append_of_le_length hle, List.drop_append_of_le_length hle, if_neg hfull]

/-- Once an outcome is decided, more bytes leave it alone. -/
theorem decode_append {limit : Nat} {bytes : Bytes} (h : decode limit bytes ≠ .ok none)
    (more : Bytes) :
    decode limit (bytes ++ more) =
      (decode limit bytes).map (Option.map fun (frame, rest) => (frame, rest ++ more)) := by
  cases bytes with
  | nil => exact absurd rfl h
  | cons first tail =>
    rw [List.cons_append]
    simp only [decode_cons] at h ⊢
    split
    · rfl
    · rename_i size hsize
      simp only [hsize, ← List.cons_append] at h ⊢
      have hlong : ¬ (first :: tail).length < size := by
        intro hshort
        rw [if_pos hshort] at h
        exact h rfl
      have hle := Nat.le_of_not_lt hlong
      have hmore : ¬ ((first :: tail) ++ more).length < size := by
        rw [List.length_append]
        omega
      rw [if_neg hlong] at h
      rw [List.take_append_of_le_length hle, List.drop_append_of_le_length hle,
        if_neg hlong, if_neg hmore]
      cases hheader : Header.decode ((first :: tail).take size) with
      | error e => rfl
      | ok header =>
        simp only [hheader] at h ⊢
        split
        · rfl
        · rename_i hlimit
          rw [if_neg hlimit] at h
          cases htake : takePayload header ((first :: tail).drop size) with
          | none =>
            rw [htake] at h
            exact absurd rfl h
          | some result =>
            obtain ⟨frame, rest⟩ := result
            rw [takePayload_append htake]
            rfl

theorem decode_append_of_frame {limit : Nat} {bytes rest : Bytes} {frame : Frame}
    (h : decode limit bytes = .ok (some (frame, rest))) (more : Bytes) :
    decode limit (bytes ++ more) = .ok (some (frame, rest ++ more)) := by
  rw [decode_append (by rw [h]; simp), h]
  rfl

theorem decode_append_of_error {limit : Nat} {bytes : Bytes} {e : FrameError}
    (h : decode limit bytes = .error e) (more : Bytes) :
    decode limit (bytes ++ more) = .error e := by
  rw [decode_append (by rw [h]; simp), h]
  rfl

/-- A frame whose header is all there declares its length. -/
theorem declaredLength?_of_headerSize {first : UInt8} {tail : Bytes} {size : Nat}
    (hsize : headerSize? (Header.versionOf first) = some size)
    (hlength : shortHeaderSize ≤ (first :: tail).length) :
    ∃ length, declaredLength? (first :: tail) = some length := by
  obtain ⟨_, _, _, _, _, _, _, _, rfl⟩ := Header.exists_fixedBytes hlength
  simp only [declaredLength?, hsize, Option.map_some, Option.some.injEq, exists_eq']

/-- What is wrong with a header is found only once the header is all there. -/
theorem declaredLength?_of_malformed {limit : Nat} {bytes : Bytes} {fault : HeaderFault}
    (h : decode limit bytes = .error (.malformedHeader fault)) :
    ∃ length, declaredLength? bytes = some length := by
  cases bytes with
  | nil => exact absurd h (by simp)
  | cons first tail =>
    rw [decode_cons] at h
    split at h
    · rename_i cause hsize
      unfold headerSize at hsize
      split at hsize
      · exact absurd hsize (by simp)
      · obtain rfl := Except.error.inj hsize
        exact absurd (Except.error.inj h) (by simp)
    · rename_i size hsize
      have hsome := headerSize_eq_ok_iff.1 hsize
      split at h
      · exact absurd h (by simp)
      · rename_i hlong
        have hshort := (headerSize_bounds hsome).1
        exact declaredLength?_of_headerSize hsome (by omega)

theorem declaredLength?_append {bytes : Bytes} {length : Nat}
    (h : declaredLength? bytes = some length) (more : Bytes) :
    declaredLength? (bytes ++ more) = some length := by
  unfold declaredLength? at h
  split at h
  · exact h
  · exact absurd h (by simp)

end Frame

/-! ## Reading what was written -/

theorem Word.exists_bytes (w : UInt32) :
    ∃ b₃ b₂ b₁ b₀, toBytes w = [b₃, b₂, b₁, b₀] ∧ ofBytes b₃ b₂ b₁ b₀ = w := by
  have hsplit := split?_toBytes_append w []
  exact ⟨_, _, _, _, rfl, (Prod.mk.inj (Option.some.inj hsplit)).1⟩

namespace Header

/-- What of a header arrives: a layout without a message id loses it. -/
def received (h : Header) : Header :=
  { h with messageId := if 3 ≤ h.version then h.messageId else 0 }

/-- A control frame needs a known kind to be read. -/
def Readable (h : Header) : Prop :=
  h.frameType = .control → ControlKind.ofByte? h.frameData ≠ none

instance (h : Header) : Decidable h.Readable :=
  inferInstanceAs (Decidable (h.frameType = .control → ControlKind.ofByte? h.frameData ≠ none))

/-- The first byte keeps its three fields apart. -/
theorem firstByte_fields {h : Header} {size : Nat} (hsize : headerSize? h.version = some size) :
    versionOf h.firstByte = h.version ∧ compressedOf h.firstByte = h.compressed ∧
      typeCodeOf h.firstByte = h.frameType.toByte := by
  have hversion : h.version = 1 ∨ h.version = 2 ∨ h.version = 3 ∨ h.version = 4 := by
    rcases version_cases hsize with ⟨h12, _⟩ | ⟨h34, _⟩
    · rcases h12 with h1 | h2
      · exact Or.inl h1
      · exact Or.inr (Or.inl h2)
    · exact Or.inr (Or.inr h34)
  unfold firstByte versionOf compressedOf typeCodeOf
  rcases hversion with hv | hv | hv | hv <;> rw [hv] <;>
    cases h.compressed <;> cases h.frameType <;> decide

theorem encode_eq_ok {h : Header} {bytes : Bytes} (hencode : h.encode = .ok bytes) :
    ∃ size, headerSize? h.version = some size ∧
      bytes = h.fixedBytes ++ if size = longHeaderSize then Word.toBytes h.messageId else [] := by
  rw [encode_eq] at hencode
  split at hencode
  · exact absurd hencode (by simp)
  · rename_i size hsize
    exact ⟨size, headerSize_eq_ok_iff.1 hsize, (Except.ok.inj hencode).symm⟩

theorem length_fixedBytes (h : Header) : h.fixedBytes.length = shortHeaderSize := rfl

/-- A header is as long as its version says. -/
theorem length_of_encode {h : Header} {bytes : Bytes} (hencode : h.encode = .ok bytes) :
    headerSize? h.version = some bytes.length := by
  obtain ⟨size, hsize, rfl⟩ := encode_eq_ok hencode
  rw [hsize, List.length_append, length_fixedBytes]
  rcases version_cases hsize with ⟨_, rfl⟩ | ⟨_, rfl⟩ <;> rfl

theorem ofFields_of_readable {h : Header} {size : Nat} (hsize : headerSize? h.version = some size)
    (hread : h.Readable) (messageId : UInt32) :
    ofFields h.firstByte h.service.toByte h.frameData h.session h.dataSize messageId =
      .ok { h with messageId } := by
  obtain ⟨hversion, hcompressed, htype⟩ := firstByte_fields hsize
  have hkind : ¬ (h.frameType = .control ∧ ControlKind.ofByte? h.frameData = none) :=
    fun ⟨hcontrol, hnone⟩ => hread hcontrol hnone
  unfold ofFields
  rw [htype, FrameType.ofByte?_toByte, Service.ofByte?_toByte, hversion, hcompressed]
  simp only [if_neg hkind]

theorem messageIdOf?_encode {h : Header} {size : Nat} (hsize : headerSize? h.version = some size) :
    messageIdOf? size (if size = longHeaderSize then Word.toBytes h.messageId else []) =
      some h.received.messageId := by
  rcases version_cases hsize with ⟨hversion, rfl⟩ | ⟨hversion, rfl⟩
  · rcases hversion with hv | hv <;>
      simp [messageIdOf?, received, hv, shortHeaderSize, longHeaderSize]
  · have hleading := Word.split?_toBytes_append h.messageId []
    rw [List.append_nil] at hleading
    rcases hversion with hv | hv <;> simp [messageIdOf?, Word.leading?, hleading, received, hv]

/-- Reading a header that was written judges the codes that were written. -/
theorem decode_encode_eq {h : Header} {bytes : Bytes} (hencode : h.encode = .ok bytes) :
    decode bytes = ofFields h.firstByte h.service.toByte h.frameData h.session h.dataSize
      h.received.messageId := by
  obtain ⟨size, hsize, rfl⟩ := encode_eq_ok hencode
  have hheader : headerSize (versionOf h.firstByte) = .ok size := by
    rw [(firstByte_fields hsize).1]
    exact headerSize_eq_ok_iff.2 hsize
  obtain ⟨s₃, s₂, s₁, s₀, hbytes, hword⟩ := Word.exists_bytes h.dataSize
  have hid := messageIdOf?_encode hsize
  unfold fixedBytes
  rw [hbytes]
  generalize (if size = longHeaderSize then Word.toBytes h.messageId else []) = tail at hid ⊢
  show decode (h.firstByte :: h.service.toByte :: h.frameData :: h.session ::
    s₃ :: s₂ :: s₁ :: s₀ :: tail) = _
  unfold decode
  simp only [hheader, hid, hword]

/-- A header that is written and read loses at most its message id. -/
theorem decode_encode {h : Header} {bytes : Bytes} (hencode : h.encode = .ok bytes)
    (hread : h.Readable) : decode bytes = .ok h.received := by
  obtain ⟨size, hsize, _⟩ := encode_eq_ok hencode
  rw [decode_encode_eq hencode]
  exact ofFields_of_readable hsize hread _

end Header

namespace Frame

/-- What of a frame arrives. -/
def received (f : Frame) : Frame := { f with header := f.header.received }

theorem encode_eq_ok {f : Frame} {bytes : Bytes} (hencode : f.encode = .ok bytes) :
    ∃ headerBytes, f.header.encode = .ok headerBytes ∧ bytes = headerBytes ++ f.payload ∧
      f.header.dataSize.toNat = f.payload.length := by
  rw [encode_eq] at hencode
  split at hencode
  · exact absurd hencode (by simp)
  · rename_i hsize
    split at hencode
    · exact absurd hencode (by simp)
    · rename_i headerBytes hheader
      exact ⟨headerBytes, hheader, (Except.ok.inj hencode).symm, Decidable.not_not.1 hsize⟩

theorem takePayload_of_length {header : Header} {payload : Bytes}
    (h : header.dataSize.toNat = payload.length) (rest : Bytes) :
    takePayload header (payload ++ rest) = some ({ header, payload }, rest) := by
  unfold takePayload
  simp only [h, List.take_left, List.drop_left, Nat.lt_irrefl, if_false]

/-- Reading what was written gives the frame back, whatever comes after it. -/
theorem decode_encode_append {f : Frame} {bytes : Bytes} {limit : Nat}
    (hencode : f.encode = .ok bytes) (hread : f.header.Readable)
    (hlimit : f.payload.length ≤ limit) (rest : Bytes) :
    decode limit (bytes ++ rest) = .ok (some (f.received, rest)) := by
  obtain ⟨headerBytes, hheader, rfl, hsize⟩ := encode_eq_ok hencode
  have hlength := Header.length_of_encode hheader
  have hdecode := Header.decode_encode hheader hread
  obtain ⟨first, tail, rfl⟩ : ∃ first tail, headerBytes = first :: tail := by
    obtain ⟨size, _, rfl⟩ := Header.encode_eq_ok hheader
    exact ⟨_, _, rfl⟩
  have hversion : headerSize (Header.versionOf first) = .ok (first :: tail).length := by
    obtain ⟨size, hs, hbytes⟩ := Header.encode_eq_ok hheader
    obtain rfl : first = f.header.firstByte := (List.cons.inj hbytes).1
    rw [(Header.firstByte_fields hs).1]
    exact headerSize_eq_ok_iff.2 hlength
  have htake : ((first :: tail) ++ (f.payload ++ rest)).take (first :: tail).length =
      first :: tail := List.take_left
  have hdrop : ((first :: tail) ++ (f.payload ++ rest)).drop (first :: tail).length =
      f.payload ++ rest := List.drop_left
  have hlong : ¬ ((first :: tail) ++ (f.payload ++ rest)).length < (first :: tail).length := by
    rw [List.length_append]
    exact Nat.not_lt.2 (Nat.le_add_right _ _)
  have hreceived : f.header.received.dataSize = f.header.dataSize := rfl
  rw [List.append_assoc]
  show decode limit (first :: (tail ++ (f.payload ++ rest))) = _
  rw [decode_cons]
  simp only [hversion, ← List.cons_append, htake, hdrop, if_neg hlong, hdecode, hreceived, hsize]
  rw [if_neg (by omega), takePayload_of_length (by rw [hreceived]; exact hsize)]
  rfl

end Frame

end HeadUnitLink
