import HeadUnitLink.Proofs.Capture.Reading

/-!
# The bytes of a capture

A capture counts its bytes in three places: those of the frames, those that were
stepped over, and those that are left at the end.  The three make up the capture,
unless it ends in the middle of a malformed frame.  Such a frame is stepped over
with its declared length, and the bytes of it that never come are counted too.

* `Capture.EndsInDamage` says of the bytes alone that this happens, and how many
  bytes are missing.
* `Reading.endsInDamage_iff` is the induction on the reading.
* `Capture.accounts_iff` is the result, and `Capture.skips_beyond_end` is a capture
  of 12 bytes of which 17 are said to be skipped.
-/

namespace HeadUnitLink

namespace Capture

/-- The number of bytes that events take. -/
def totalSize : List StreamEvent → Nat
  | [] => 0
  | event :: rest => event.size + totalSize rest

/-- The number of bytes of listed frames. -/
def framedBytes : List PlacedFrame → Nat
  | [] => 0
  | item :: rest => item.frame.wireSize + framedBytes rest

/-- What events take is framed or skipped. -/
theorem framedBytes_add_skippedBytes (index offset : Nat) (events : List StreamEvent) :
    framedBytes (place index offset events) + skippedBytes events = totalSize events := by
  induction events generalizing index offset with
  | nil => rfl
  | cons event rest ih =>
    cases event with
    | frame f =>
      have hrest := ih (index + 1) (offset + f.wireSize)
      simp only [place, framedBytes, skippedBytes, totalSize, StreamEvent.skipped,
        StreamEvent.size]
      omega
    | damage e count =>
      have hrest := ih index (offset + count)
      simp only [place, skippedBytes, totalSize, StreamEvent.skipped, StreamEvent.size] at hrest ⊢
      omega
    | fault cause =>
      have hrest := ih index (offset + 0)
      simp only [place, skippedBytes, totalSize, StreamEvent.skipped, StreamEvent.size] at hrest ⊢
      omega

/-- Read from its start, a byte string comes to a malformed frame that is stepped over
whole and of which the last `missing` bytes are not there. -/
inductive EndsInDamage (limit missing : Nat) : Bytes → Prop where
  | here {bytes : Bytes} {e : FrameError} (hdecode : Frame.decode limit bytes = .error e)
      (hdeclared : Frame.declaredLength? bytes = some (bytes.length + missing))
      (hlimit : bytes.length + missing ≤ Frame.skipLimit limit) (hmissing : 0 < missing) :
      EndsInDamage limit missing bytes
  | frame {bytes rest : Bytes} {f : Frame}
      (hdecode : Frame.decode limit bytes = .ok (some (f, rest)))
      (tail : EndsInDamage limit missing rest) : EndsInDamage limit missing bytes
  | damage {bytes : Bytes} {e : FrameError} (hdecode : Frame.decode limit bytes = .error e)
      (tail : EndsInDamage limit missing (bytes.drop (FrameReader.reach limit bytes e))) :
      EndsInDamage limit missing bytes

end Capture

/-- Damage reaches beyond the last byte if it is a frame that does and is stepped over
whole. -/
theorem FrameReader.reach_beyond_iff {limit missing : Nat} {bytes : Bytes} {e : FrameError}
    (hdecode : Frame.decode limit bytes = .error e) (hmissing : 0 < missing) :
    reach limit bytes e = bytes.length + missing ↔
      Frame.declaredLength? bytes = some (bytes.length + missing) ∧
        bytes.length + missing ≤ Frame.skipLimit limit := by
  have hpos := Frame.length_pos_of_decode_error hdecode
  unfold reach skipLength
  simp only
  split
  · rename_i length hlength
    rw [hlength, Option.some.injEq]
    split
    · rename_i hle
      constructor
      · rintro rfl
        exact ⟨rfl, hle⟩
      · exact And.left
    · rename_i hlong
      constructor
      · intro hone
        omega
      · rintro ⟨rfl, hle⟩
        exact absurd hle hlong
  · rename_i hnone
    rw [hnone]
    constructor
    · intro hone
      omega
    · intro h
      cases h.1

namespace Capture

variable {limit missing : Nat} {bytes rest : Bytes} {e : FrameError} {f : Frame}

theorem EndsInDamage.missing_pos (h : EndsInDamage limit missing bytes) : 0 < missing := by
  induction h with
  | here _ _ _ hmissing => exact hmissing
  | frame _ _ ih => exact ih
  | damage _ _ ih => exact ih

/-- Bytes that are waited for are no damage. -/
theorem not_endsInDamage (hdecode : Frame.decode limit bytes = .ok none) :
    ¬ EndsInDamage limit missing bytes := by
  intro hends
  cases hends with
  | here hdecode' _ _ _ => cases hdecode.symm.trans hdecode'
  | frame hdecode' _ => cases hdecode.symm.trans hdecode'
  | damage hdecode' _ => cases hdecode.symm.trans hdecode'

theorem endsInDamage_of_frame (hdecode : Frame.decode limit bytes = .ok (some (f, rest))) :
    EndsInDamage limit missing bytes ↔ EndsInDamage limit missing rest := by
  constructor
  · intro hends
    cases hends with
    | here hdecode' _ _ _ => cases hdecode.symm.trans hdecode'
    | frame hdecode' tail =>
      have heq := Option.some.inj (Except.ok.inj (hdecode.symm.trans hdecode'))
      rw [(Prod.mk.inj heq).2]
      exact tail
    | damage hdecode' _ => cases hdecode.symm.trans hdecode'
  · exact .frame hdecode

theorem endsInDamage_of_error (hdecode : Frame.decode limit bytes = .error e)
    (hmissing : 0 < missing) :
    EndsInDamage limit missing bytes ↔
      FrameReader.reach limit bytes e = bytes.length + missing ∨
        EndsInDamage limit missing (bytes.drop (FrameReader.reach limit bytes e)) := by
  rw [FrameReader.reach_beyond_iff hdecode hmissing]
  constructor
  · intro hends
    cases hends with
    | here _ hdeclared hlimit _ => exact Or.inl ⟨hdeclared, hlimit⟩
    | frame hdecode' _ => cases hdecode.symm.trans hdecode'
    | damage hdecode' tail =>
      obtain rfl := Except.error.inj (hdecode.symm.trans hdecode')
      exact Or.inr tail
  · rintro (⟨hdeclared, hlimit⟩ | tail)
    · exact .here hdecode hdeclared hlimit hmissing
    · exact .damage hdecode tail

end Capture

namespace Reading

open Capture

variable {limit : Nat} {bytes last : Bytes} {events : List StreamEvent}

/-- Events and rest make up the bytes, and so many more as are missing at the end. -/
theorem endsInDamage_iff
    (h : Reading limit (FrameReader.reach limit) bytes events last) {missing : Nat}
    (hmissing : 0 < missing) :
    EndsInDamage limit missing bytes ↔
      totalSize events + last.length = bytes.length + missing := by
  induction h with
  | stop hdecode =>
    refine iff_of_false (not_endsInDamage hdecode) ?_
    simp only [totalSize]
    omega
  | frame hdecode _ ih =>
    obtain ⟨encoded, hencode, hbytes⟩ := Frame.exists_encode_of_decode hdecode
    have hlength := congrArg List.length hbytes
    rw [List.length_append, Frame.length_of_encode hencode] at hlength
    rw [endsInDamage_of_frame hdecode, ih]
    simp only [totalSize, StreamEvent.size]
    omega
  | @damage bytes _ e _ hdecode tail ih =>
    rw [endsInDamage_of_error hdecode hmissing]
    -- the damage here ends within the bytes, or it is the last of all
    rcases Nat.lt_or_ge bytes.length (FrameReader.reach limit bytes e) with hbeyond | hwithin
    · obtain ⟨rfl, rfl⟩ := tail.of_length_le (Nat.le_of_lt hbeyond)
      have hnil := List.drop_eq_nil_of_le (Nat.le_of_lt hbeyond)
      rw [hnil, or_iff_left (not_endsInDamage rfl)]
      exact Iff.rfl
    · rw [or_iff_right (by omega), ih]
      simp only [totalSize, StreamEvent.size, List.length_drop]
      omega

/-- No byte is left out. -/
theorem length_le (h : Reading limit (FrameReader.reach limit) bytes events last) :
    bytes.length ≤ totalSize events + last.length := by
  induction h with
  | stop _ => exact Nat.le_add_left _ _
  | frame hdecode _ ih =>
    obtain ⟨encoded, hencode, hbytes⟩ := Frame.exists_encode_of_decode hdecode
    rw [hbytes, List.length_append, Frame.length_of_encode hencode]
    simp only [totalSize, StreamEvent.size]
    omega
  | damage _ _ ih =>
    rw [List.length_drop] at ih
    simp only [totalSize, StreamEvent.size]
    omega

end Reading

namespace Capture

/-- However a capture is handed over, the bytes of its frames, those stepped over and
those left at the end make up the capture if and only if it does not end in the middle
of a malformed frame that is stepped over whole.  If it does, the bytes of this frame
that are missing are counted as well. -/
theorem accounts_iff (limit : Nat) {source : Source} (hopen : source.Open)
    (hfaults : source.faults = []) :
    ∃ c, ofSource limit source = .ok c ∧
      (framedBytes c.frames + c.skipped + c.trailing = source.content.length ↔
        ∀ missing, ¬ EndsInDamage limit missing source.content) ∧
      ∀ missing, EndsInDamage limit missing source.content →
        framedBytes c.frames + c.skipped + c.trailing = source.content.length + missing := by
  obtain ⟨events, last, hreading, hcapture⟩ := exists_reading limit hopen hfaults
  have hsum := framedBytes_add_skippedBytes 0 0 events
  have hle := hreading.length_le
  refine ⟨_, hcapture, ?_, ?_⟩
  · simp only [hsum]
    constructor
    · intro heq missing hends
      have hmore := (hreading.endsInDamage_iff hends.missing_pos).1 hends
      have hpos := hends.missing_pos
      omega
    · intro hnone
      -- what the count has too much would be missing
      rcases Nat.eq_or_lt_of_le hle with heq | hlt
      · exact heq.symm
      · refine absurd ((hreading.endsInDamage_iff (Nat.sub_pos_of_lt hlt)).2 ?_) (hnone _)
        omega
  · intro missing hends
    rw [hsum]
    exact (hreading.endsInDamage_iff hends.missing_pos).1 hends

/-- A frame of an unknown service is cut off with 5 bytes missing, after an
interruption inside its header. -/
theorem accounts_iff_cut_off :
    let source : Source :=
      [.bytes [0x31, 0x55, 0, 1, 0, 0], .fault .interrupted, .bytes [0, 5, 0, 0, 0, 1]]
    source.Open ∧ source.faults = [] ∧
      ∃ c, ofSource Frame.defaultMaxPayload source = .ok c ∧
        framedBytes c.frames + c.skipped + c.trailing = source.content.length + 5 := by
  intro source
  have hopen : source.Open := by decide
  have hfaults : source.faults = [] := rfl
  have hends : EndsInDamage Frame.defaultMaxPayload 5 source.content :=
    .here (e := .malformedHeader (.unknownService 0x55)) rfl rfl (by decide) (by decide)
  obtain ⟨c, hcapture, -, hmissing⟩ := accounts_iff Frame.defaultMaxPayload hopen hfaults
  exact ⟨hopen, hfaults, c, hcapture, hmissing 5 hends⟩

/-- More bytes are skipped than the capture has. -/
theorem skips_beyond_end :
    let limit := Frame.defaultMaxPayload
    let content : Bytes := [0x31, 0x55, 0, 1, 0, 0, 0, 5, 0, 0, 0, 1]
    maxHeaderSize + limit < sizeModulus ∧
      ofSource limit [.bytes content] = .ok { frames := [], skipped := 17, trailing := 0 } ∧
      content.length < 17 := by
  intro limit content
  have hread : (ofSource limit [.bytes content]).toOption =
      some { frames := [], skipped := 17, trailing := 0 } := by decide +kernel
  refine ⟨by decide, ?_, by decide⟩
  cases hcapture : ofSource limit [.bytes content] with
  | error cause =>
    rw [hcapture] at hread
    cases hread
  | ok c =>
    rw [hcapture] at hread
    exact congrArg Except.ok (Option.some.inj hread)

end Capture

end HeadUnitLink
