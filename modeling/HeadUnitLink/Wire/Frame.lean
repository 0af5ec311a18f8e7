import HeadUnitLink.Wire.Header

/-!
# Frames

A frame is a header and as many payload bytes as the header declares.

* `Frame.appendTo` writes a frame behind the bytes of a buffer.  It refuses a
  header that declares another size than the payload has, and then a version
  without a layout.  `Frame.encode` is what it writes into an empty buffer, and
  `Frame.appendTo_eq` says that any other buffer gets the same bytes.
* `Frame.takeFrom` takes one frame off the start of a buffer.  It answers that
  the buffer is too short (`none`) before it judges anything that the missing
  bytes could change.  `Frame.decode` is its answer together with what it leaves
  behind a frame, and `Frame.takeFrom_eq` says that it leaves all else alone.
* `Frame.declaredLength?` reads the length of the frame at the start of a byte
  string from its size field alone, so that a stream can step over a frame
  whose other fields are damaged.
-/

namespace HeadUnitLink

/-- A header and its payload. -/
structure Frame where
  header : Header
  payload : Bytes
  deriving DecidableEq, Repr

namespace Frame

/-- The default transport unit, header included. -/
def defaultMtu : Nat := 1500

/-- The payload that the default transport unit leaves room for. -/
def defaultMaxDataSize : Nat := defaultMtu - maxHeaderSize

/-- The largest payload that is accepted unless another limit is set. -/
def defaultMaxPayload : Nat := 16 * 1024 * 1024

/-- A frame whose header declares the size of the payload. -/
def stamped (header : Header) (payload : Bytes) : Frame :=
  { header := { header with dataSize := UInt32.ofNat payload.length }, payload }

/-- The number of bytes of a frame; a version without a layout counts with the
largest header. -/
def wireSize (f : Frame) : Nat :=
  (headerSize? f.header.version).getD maxHeaderSize + f.payload.length

/-! ## Writing -/

/-- Writes a frame behind the bytes of a buffer: its header, then its payload.
A frame that is refused leaves the buffer alone. -/
def appendTo (f : Frame) (buffer : Bytes) : Except FrameError Unit × Bytes :=
  if f.header.dataSize.toNat ≠ f.payload.length then
    (.error (.dataSizeMismatch f.header.dataSize.toNat f.payload.length), buffer)
  else
    match f.header.appendTo buffer with
    | (.error e, buffer) => (.error e, buffer)
    | (.ok (), buffer) => (.ok (), buffer ++ f.payload)

/-- Writes a frame whose payload has at most `limit` bytes behind the bytes of a
buffer. -/
def appendWithin (limit : Nat) (f : Frame) (buffer : Bytes) : Except FrameError Unit × Bytes :=
  if limit < f.payload.length then (.error (.payloadTooLarge f.payload.length limit), buffer)
  else f.appendTo buffer

/-- Writes frames in a row behind the bytes of a buffer, up to the first one
that is refused. -/
def appendUntil (limit : Nat) (frames : List Frame) (buffer : Bytes) :
    Except FrameError Unit × Bytes :=
  match frames with
  | [] => (.ok (), buffer)
  | f :: rest =>
    match f.appendWithin limit buffer with
    | (.error e, buffer) => (.error e, buffer)
    | (.ok (), buffer) => appendUntil limit rest buffer

/-- The bytes of a frame, written into an empty buffer. -/
def encode (f : Frame) : Except FrameError Bytes :=
  match f.appendTo [] with
  | (.error e, _) => .error e
  | (.ok (), bytes) => .ok bytes

theorem encode_eq (f : Frame) :
    f.encode =
      if f.header.dataSize.toNat ≠ f.payload.length then
        .error (.dataSizeMismatch f.header.dataSize.toNat f.payload.length)
      else
        match f.header.encode with
        | .error e => .error e
        | .ok bytes => .ok (bytes ++ f.payload) := by
  unfold encode appendTo
  by_cases hsize : f.header.dataSize.toNat ≠ f.payload.length
  · simp only [if_pos hsize]
  · simp only [if_neg hsize, Header.appendTo_eq]
    cases f.header.encode with
    | error e => rfl
    | ok bytes => rfl

/-- A frame is put behind the bytes of a buffer as a whole or not at all. -/
theorem appendTo_eq (f : Frame) (buffer : Bytes) :
    f.appendTo buffer =
      match f.encode with
      | .error e => (.error e, buffer)
      | .ok bytes => (.ok (), buffer ++ bytes) := by
  rw [encode_eq]
  unfold appendTo
  split
  · rfl
  · rw [Header.appendTo_eq]
    cases f.header.encode with
    | error e => rfl
    | ok bytes => simp only [List.append_assoc]

/-! ## Reading -/

/-- Takes one frame with at most `limit` payload bytes off the start of a buffer:
the outcome, and what the buffer holds after it.  The buffer keeps its bytes
unless a frame is taken. -/
def takeFrom (limit : Nat) (buffer : Bytes) : Except FrameError (Option Frame) × Bytes :=
  match buffer with
  | [] => (.ok none, buffer)
  | first :: _ =>
    match headerSize (Header.versionOf first) with
    | .error e => (.error e, buffer)
    | .ok size =>
      if buffer.length < size then (.ok none, buffer)
      else
        match Header.decode (buffer.take size) with
        | .error e => (.error e, buffer)
        | .ok header =>
          let length := header.dataSize.toNat
          if limit < length then (.error (.payloadTooLarge length limit), buffer)
          else if buffer.length < size + length then (.ok none, buffer)
          else
            let body := buffer.drop size
            (.ok (some { header, payload := body.take length }), body.drop length)

/-- What a byte string starts with: `none` while bytes are missing, else the
frame that is taken off it and what follows the frame. -/
def decode (limit : Nat) (bytes : Bytes) : Except FrameError (Option (Frame × Bytes)) :=
  match takeFrom limit bytes with
  | (.error e, _) => .error e
  | (.ok none, _) => .ok none
  | (.ok (some frame), rest) => .ok (some (frame, rest))

/-- The payload of a decoded header, at the start of the bytes after it: `none`
while bytes are missing, else the frame and what follows it. -/
def takePayload (header : Header) (body : Bytes) : Option (Frame × Bytes) :=
  let payload := body.take header.dataSize.toNat
  if payload.length < header.dataSize.toNat then none
  else some ({ header, payload }, body.drop header.dataSize.toNat)

/-- A payload that ends with the buffer or before it is all there. -/
theorem takePayload_drop (header : Header) {size : Nat} {buffer : Bytes}
    (hlength : size ≤ buffer.length) :
    takePayload header (buffer.drop size) =
      if buffer.length < size + header.dataSize.toNat then none
      else some ({ header, payload := (buffer.drop size).take header.dataSize.toNat },
        (buffer.drop size).drop header.dataSize.toNat) := by
  have hiff : ((buffer.drop size).take header.dataSize.toNat).length < header.dataSize.toNat ↔
      buffer.length < size + header.dataSize.toNat := by
    rw [List.length_take, List.length_drop]
    omega
  unfold takePayload
  simp only [hiff]

@[simp] theorem decode_nil (limit : Nat) : decode limit [] = .ok none := rfl

theorem decode_cons (limit : Nat) (first : UInt8) (tail : Bytes) :
    decode limit (first :: tail) =
      match headerSize (Header.versionOf first) with
      | .error e => .error e
      | .ok size =>
        if (first :: tail).length < size then .ok none
        else
          match Header.decode ((first :: tail).take size) with
          | .error e => .error e
          | .ok header =>
            if limit < header.dataSize.toNat then
              .error (.payloadTooLarge header.dataSize.toNat limit)
            else .ok (takePayload header ((first :: tail).drop size)) := by
  cases hsize : headerSize (Header.versionOf first) with
  | error e => simp only [decode, takeFrom, hsize]
  | ok size =>
    simp only [decode, takeFrom, hsize]
    by_cases hshort : (first :: tail).length < size
    · simp only [if_pos hshort]
    · simp only [if_neg hshort]
      cases Header.decode ((first :: tail).take size) with
      | error e => rfl
      | ok header =>
        by_cases hlimit : limit < header.dataSize.toNat
        · simp only [if_pos hlimit]
        · simp only [if_neg hlimit, takePayload_drop header (Nat.le_of_not_lt hshort)]
          by_cases hmissing : (first :: tail).length < size + header.dataSize.toNat
          · simp only [if_pos hmissing]
          · simp only [if_neg hmissing]

/-- The buffer keeps its bytes unless a frame is taken. -/
theorem takeFrom_kept {limit : Nat} {buffer rest : Bytes}
    {outcome : Except FrameError (Option Frame)}
    (h : takeFrom limit buffer = (outcome, rest)) (hkept : ∀ frame, outcome ≠ .ok (some frame)) :
    rest = buffer := by
  unfold takeFrom at h
  split at h
  · exact (Prod.mk.inj h).2.symm
  · split at h
    · exact (Prod.mk.inj h).2.symm
    · split at h
      · exact (Prod.mk.inj h).2.symm
      · split at h
        · exact (Prod.mk.inj h).2.symm
        · simp only at h
          split at h
          · exact (Prod.mk.inj h).2.symm
          · split at h
            · exact (Prod.mk.inj h).2.symm
            · exact absurd (Prod.mk.inj h).1.symm (hkept _)

theorem takeFrom_eq (limit : Nat) (buffer : Bytes) :
    takeFrom limit buffer =
      match decode limit buffer with
      | .ok (some (frame, rest)) => (.ok (some frame), rest)
      | .ok none => (.ok none, buffer)
      | .error e => (.error e, buffer) := by
  unfold decode
  rcases h : takeFrom limit buffer with ⟨_ | _ | frame, rest⟩
  · rw [takeFrom_kept h (by simp)]
  · rw [takeFrom_kept h (by simp)]
  · rfl

theorem length_le_of_takePayload {header : Header} {body rest : Bytes} {frame : Frame}
    (h : takePayload header body = some (frame, rest)) : rest.length ≤ body.length := by
  unfold takePayload at h
  simp only at h
  split at h
  · exact absurd h (by simp)
  · obtain ⟨-, rfl⟩ := Prod.mk.inj (Option.some.inj h)
    rw [List.length_drop]
    exact Nat.sub_le _ _

/-- A decoded frame leaves less than there was. -/
theorem length_lt_of_decode {limit : Nat} {bytes rest : Bytes} {frame : Frame}
    (h : decode limit bytes = .ok (some (frame, rest))) : rest.length < bytes.length := by
  cases bytes with
  | nil => exact absurd h (by simp)
  | cons first tail =>
    rw [decode_cons] at h
    split at h
    · exact absurd h (by simp)
    · rename_i size hsize
      have hpos := headerSize?_pos (headerSize_eq_ok_iff.1 hsize)
      split at h
      · exact absurd h (by simp)
      · split at h
        · exact absurd h (by simp)
        · split at h
          · exact absurd h (by simp)
          · have hle := length_le_of_takePayload (Except.ok.inj h)
            rw [List.length_drop] at hle
            have hcons : (first :: tail).length = tail.length + 1 := rfl
            omega

/-- Decoding finds fault with the bytes only. -/
theorem isDamage_of_decode {limit : Nat} {bytes : Bytes} {e : FrameError}
    (h : decode limit bytes = .error e) : e.isDamage = true := by
  cases bytes with
  | nil => exact absurd h (by simp)
  | cons first tail =>
    rw [decode_cons] at h
    split at h
    · rename_i cause hsize
      obtain rfl := Except.error.inj h
      exact isDamage_of_headerSize hsize
    · split at h
      · exact absurd h (by simp)
      · split at h
        · rename_i cause hheader
          obtain rfl := Except.error.inj h
          exact Header.isDamage_of_decode hheader
        · split at h
          · obtain rfl := Except.error.inj h
            rfl
          · exact absurd h (by simp)

/-- An error is about bytes that are there. -/
theorem length_pos_of_decode_error {limit : Nat} {bytes : Bytes} {e : FrameError}
    (h : decode limit bytes = .error e) : 0 < bytes.length := by
  cases bytes with
  | nil => exact absurd h (by simp)
  | cons _ _ => exact Nat.succ_pos _

section Outcomes

variable {limit : Nat} {buffer rest : Bytes} {frame : Frame} {e : FrameError}

theorem takeFrom_frame_iff :
    takeFrom limit buffer = (.ok (some frame), rest) ↔
      decode limit buffer = .ok (some (frame, rest)) := by
  rw [takeFrom_eq]
  cases decode limit buffer with
  | error cause => simp
  | ok result =>
    cases result with
    | none => simp
    | some taken => simp [Prod.ext_iff]

theorem takeFrom_waits_iff :
    takeFrom limit buffer = (.ok none, rest) ↔ decode limit buffer = .ok none ∧ rest = buffer := by
  rw [takeFrom_eq]
  cases decode limit buffer with
  | error cause => simp
  | ok result =>
    cases result with
    | none => simp [eq_comm]
    | some taken => simp

theorem takeFrom_error_iff :
    takeFrom limit buffer = (.error e, rest) ↔ decode limit buffer = .error e ∧ rest = buffer := by
  rw [takeFrom_eq]
  cases decode limit buffer with
  | error cause => simp [eq_comm]
  | ok result =>
    cases result with
    | none => simp
    | some taken => simp

end Outcomes

/-- Takes frames off the start of a buffer and puts them, last first, onto
`taken`. -/
def decodeAllOnto (limit : Nat) (taken : List Frame) (buffer : Bytes) :
    List Frame × Option FrameError × Bytes :=
  match _h : takeFrom limit buffer with
  | (.ok (some frame), rest) => decodeAllOnto limit (frame :: taken) rest
  | (.ok none, rest) => (taken, none, rest)
  | (.error e, rest) => (taken, some e, rest)
termination_by buffer.length
decreasing_by exact length_lt_of_decode (takeFrom_frame_iff.1 _h)

/-- Takes frames off the start of a byte string until bytes are missing or one
cannot be decoded: the frames, the error that ended it, and what is left. -/
def decodeAll (limit : Nat) (bytes : Bytes) : List Frame × Option FrameError × Bytes :=
  let (taken, e, rest) := decodeAllOnto limit [] bytes
  (taken.reverse, e, rest)

/-- The length of the frame at the start of a byte string, by its version and
its size field; no other field is looked at. -/
def declaredLength? (bytes : Bytes) : Option Nat :=
  match bytes with
  | first :: _ :: _ :: _ :: s₃ :: s₂ :: s₁ :: s₀ :: _ =>
    (headerSize? (Header.versionOf first)).map (· + (Word.ofBytes s₃ s₂ s₁ s₀).toNat)
  | _ => none

/-- A declared length counts at least a header. -/
theorem declaredLength?_pos {bytes : Bytes} {length : Nat}
    (h : declaredLength? bytes = some length) : 0 < length := by
  unfold declaredLength? at h
  split at h
  · obtain ⟨size, hsize, rfl⟩ := Option.map_eq_some_iff.1 h
    exact Nat.add_pos_left (headerSize?_pos hsize) _
  · exact absurd h (by simp)

/-- The longest frame that a stream with this payload limit steps over in one
go.  Sizes are 64-bit words, so the sum wraps. -/
def skipLimit (limit : Nat) : Nat :=
  (maxHeaderSize + limit) % sizeModulus

end Frame

end HeadUnitLink
