import HeadUnitLink.Wire.Frame

/-!
# Reading frames from a byte stream

A `Source` is what a stream will hand over: byte strings and faults, in order.
A `FrameReader` keeps the bytes that are not yet a frame.

* `FrameReader.read` returns the next frame, taking from the source as often
  as it needs.  After a decode error the bytes stay where they are.
* `FrameReader.skip` steps over whatever made the last read fail: over the
  whole frame when its declared length is within bounds, even when part of it
  has not arrived yet, and over one byte otherwise.

The bytes of a skipped frame that have not arrived are counted in `discard`
and dropped on arrival.
-/

namespace HeadUnitLink

/-! ## Sources -/

/-- One thing that a stream hands over. -/
inductive Arrival where
  /-- Bytes; a read that yields no byte says that the stream has ended. -/
  | bytes (content : Bytes)
  /-- A failed read. -/
  | fault (cause : IoFault)
  deriving DecidableEq, Repr

/-- What a stream hands over, in order, before it ends. -/
abbrev Source := List Arrival

/-- What one read from a source brings. -/
inductive Supply where
  | bytes (content : Bytes)
  | fault (cause : IoFault)
  | closed
  deriving DecidableEq, Repr

namespace Source

/-- The next read of at most `capacity` bytes, and the source after it.
Interrupted reads are repeated. -/
def next (capacity : Nat) : Source → Supply × Source
  | [] => (.closed, [])
  | .fault .interrupted :: rest => next capacity rest
  | .fault cause :: rest => (.fault cause, rest)
  | .bytes content :: rest =>
    if content = [] then (.closed, rest)
    else if content.length ≤ capacity then (.bytes content, rest)
    else (.bytes (content.take capacity), .bytes (content.drop capacity) :: rest)

/-- A bound on the number of reads that a source can serve. -/
def weight : Source → Nat
  | [] => 0
  | .bytes content :: rest => content.length + 1 + weight rest
  | .fault _ :: rest => 1 + weight rest

/-- A read that brings bytes brings at least one and uses the source up by as
many. -/
theorem weight_next {capacity : Nat} (hc : 0 < capacity) {source rest : Source}
    {content : Bytes} (h : next capacity source = (.bytes content, rest)) :
    0 < content.length ∧ content.length + weight rest ≤ weight source := by
  induction source with
  | nil => simp [next] at h
  | cons a tail ih =>
    cases a with
    | fault cause =>
      cases cause with
      | interrupted =>
        obtain ⟨hpos, hle⟩ := ih h
        refine ⟨hpos, ?_⟩
        simp only [weight] at hle ⊢
        omega
      | _ => simp [next] at h
    | bytes c =>
      simp only [next] at h
      split at h
      · simp at h
      · rename_i hne
        have hc' := List.length_pos_iff.2 hne
        split at h
        · obtain ⟨heq, rfl⟩ := Prod.mk.inj h
          obtain rfl := Supply.bytes.inj heq
          simp only [weight]
          omega
        · obtain ⟨heq, rfl⟩ := Prod.mk.inj h
          obtain rfl := Supply.bytes.inj heq
          simp only [weight, List.length_drop, List.length_take]
          omega

/-- A failed read uses its fault up. -/
theorem weight_next_fault_lt {capacity : Nat} {source rest : Source} {cause : IoFault}
    (h : next capacity source = (.fault cause, rest)) : weight rest < weight source := by
  induction source with
  | nil => simp [next] at h
  | cons a tail ih =>
    cases a with
    | fault first =>
      have htail : weight tail < weight (.fault first :: tail) := by simp [weight]
      cases first with
      | interrupted => exact Nat.lt_trans (ih h) htail
      | _ =>
        obtain ⟨-, rfl⟩ := Prod.mk.inj h
        exact htail
    | bytes content =>
      simp only [next] at h
      split at h
      · simp at h
      · split at h <;> simp at h

end Source

/-! ## The reader -/

/-- The most bytes that one read takes from the source. -/
def readCapacity : Nat := 8 * 1024

/-- A reader of frames with at most `limit` payload bytes. -/
structure FrameReader where
  limit : Nat
  source : Source
  /-- The bytes read that are not yet part of a returned frame. -/
  buffer : Bytes
  /-- How many bytes of a skipped frame have still to arrive. -/
  discard : Nat
  deriving DecidableEq, Repr

namespace FrameReader

/-- A reader at the start of a source. -/
def ofSource (limit : Nat) (source : Source) : FrameReader :=
  { limit, source, buffer := [], discard := 0 }

/-- Drops the bytes of a skipped frame that have arrived. -/
def drain (r : FrameReader) : FrameReader :=
  { r with buffer := r.buffer.drop r.discard, discard := r.discard - r.buffer.length }

/-- What the buffer alone answers: a frame, an error, or nothing yet. -/
def fromBuffer? (r : FrameReader) : Option (Except FrameError Frame × FrameReader) :=
  if r.discard = 0 then
    match Frame.takeFrom r.limit r.buffer with
    | (.error e, buffer) => some (.error e, { r with buffer })
    | (.ok (some frame), buffer) => some (.ok frame, { r with buffer })
    | (.ok none, _) => none
  else none

theorem fromBuffer?_eq (r : FrameReader) :
    r.fromBuffer? =
      if r.discard = 0 then
        match Frame.decode r.limit r.buffer with
        | .error e => some (.error e, r)
        | .ok (some (frame, rest)) => some (.ok frame, { r with buffer := rest })
        | .ok none => none
      else none := by
  unfold fromBuffer?
  rw [Frame.takeFrom_eq]
  rcases Frame.decode r.limit r.buffer with e | _ | ⟨frame, rest⟩
  · rfl
  · rfl
  · rfl

/-- The next frame.  At the end of the stream an incomplete frame stays in the
buffer. -/
def read (r : FrameReader) : Except FrameError Frame × FrameReader :=
  match r.drain.fromBuffer? with
  | some answer => answer
  | none =>
    match _h : Source.next readCapacity r.source with
    | (.bytes content, rest) =>
      read { r.drain with buffer := r.drain.buffer ++ content, source := rest }
    | (.fault cause, rest) => (.error (.io cause), { r.drain with source := rest })
    | (.closed, rest) => (.error .connectionClosed, { r.drain with source := rest })
termination_by r.source.weight
decreasing_by
  have := Source.weight_next (by decide) _h
  omega

/-! ## What a read uses up -/

/-- A bound on what a reader can still return or step over. -/
def weight (r : FrameReader) : Nat := r.buffer.length + r.source.weight

theorem weight_drain_le (r : FrameReader) : r.drain.weight ≤ r.weight := by
  simp only [weight, drain, List.length_drop]
  omega

/-- A frame from the buffer uses the buffer up. -/
theorem weight_fromBuffer?_lt {r r' : FrameReader} {frame : Frame}
    (h : r.fromBuffer? = some (.ok frame, r')) : r'.weight < r.weight := by
  rw [fromBuffer?_eq] at h
  split at h
  · split at h
    · simp at h
    · rename_i decoded rest hdecode
      have hlt := Frame.length_lt_of_decode hdecode
      obtain ⟨-, rfl⟩ := Prod.mk.inj (Option.some.inj h)
      simp only [weight]
      omega
    · simp at h
  · simp at h

/-- An error from the buffer is damage in it and leaves it as it is. -/
theorem fromBuffer?_error {r r' : FrameReader} {e : FrameError}
    (h : r.fromBuffer? = some (.error e, r')) :
    e.isDamage = true ∧ r' = r ∧ 0 < r.buffer.length := by
  rw [fromBuffer?_eq] at h
  split at h
  · split at h
    · rename_i cause hdecode
      obtain ⟨hcause, rfl⟩ := Prod.mk.inj (Option.some.inj h)
      obtain rfl := Except.error.inj hcause
      exact ⟨Frame.isDamage_of_decode hdecode, rfl, Frame.length_pos_of_decode_error hdecode⟩
    · simp at h
    · simp at h
  · simp at h

/-- What a read leaves behind: less than there was after a frame or a failed
read, and no more than that, but not nothing, after damage. -/
def Consumes (r : FrameReader) : Except FrameError Frame × FrameReader → Prop
  | (.ok _, r') => r'.weight < r.weight
  | (.error (.io _), r') => r'.weight < r.weight
  | (.error .connectionClosed, _) => True
  | (.error _, r') => r'.weight ≤ r.weight ∧ 0 < r'.buffer.length

/-- A reader that has more to start with has more used up. -/
theorem Consumes.mono {r s : FrameReader} (h : r.weight ≤ s.weight)
    {answer : Except FrameError Frame × FrameReader} (ha : r.Consumes answer) :
    s.Consumes answer := by
  obtain ⟨result, r'⟩ := answer
  cases result with
  | ok frame => exact Nat.lt_of_lt_of_le ha h
  | error e =>
    cases e with
    | io cause => exact Nat.lt_of_lt_of_le ha h
    | connectionClosed => trivial
    | _ => exact ⟨Nat.le_trans ha.1 h, ha.2⟩

/-- Damage leaves the buffer as it is. -/
theorem consumes_of_isDamage {r : FrameReader} {e : FrameError} (he : e.isDamage = true)
    (hpos : 0 < r.buffer.length) : r.Consumes (.error e, r) := by
  cases e with
  | io cause => exact absurd he Bool.false_ne_true
  | connectionClosed => trivial
  | _ => exact ⟨Nat.le_refl _, hpos⟩

/-- After damage there are bytes to step over. -/
theorem Consumes.pos_of_isDamage {r r' : FrameReader} {e : FrameError}
    (ha : r.Consumes (.error e, r')) (he : e.isDamage = true) :
    r'.weight ≤ r.weight ∧ 0 < r'.buffer.length := by
  cases e with
  | io cause => exact absurd he Bool.false_ne_true
  | connectionClosed => exact absurd he Bool.false_ne_true
  | _ => exact ha

/-- Every read uses the reader up, unless the stream has ended. -/
theorem consumes_read (r : FrameReader) : r.Consumes r.read := by
  fun_induction read r with
  | case1 r answer hbuffer =>
    obtain ⟨result, r'⟩ := answer
    cases result with
    | ok frame => exact Nat.lt_of_lt_of_le (weight_fromBuffer?_lt hbuffer) (weight_drain_le r)
    | error e =>
      obtain ⟨hdamage, rfl, hpos⟩ := fromBuffer?_error hbuffer
      exact (consumes_of_isDamage hdamage hpos).mono (weight_drain_le r)
  | case2 r hbuffer content rest hnext ih =>
    refine ih.mono ?_
    have hdrain := weight_drain_le r
    have hsource := (Source.weight_next (by decide) hnext).2
    simp only [weight, List.length_append] at hdrain ⊢
    simp only [drain] at hdrain ⊢
    omega
  | case3 r hbuffer cause rest hnext =>
    have hdrain := weight_drain_le r
    have hsource := Source.weight_next_fault_lt hnext
    simp only [Consumes, weight] at hdrain ⊢
    simp only [drain] at hdrain ⊢
    omega
  | case4 r hbuffer rest hnext => trivial

/-! ## Stepping over damage -/

/-- How far `skip` steps: the declared length when it is within bounds, else
one byte. -/
def skipLength (r : FrameReader) : Nat :=
  match Frame.declaredLength? r.buffer with
  | some length => if length ≤ Frame.skipLimit r.limit then length else 1
  | none => 1

/-- Steps over whatever made the last read fail, and says over how many
bytes. -/
def skip (r : FrameReader) : Nat × FrameReader :=
  let length := r.skipLength
  if r.buffer.length < length then
    (length, { r with buffer := [], discard := length - r.buffer.length })
  else (length, { r with buffer := r.buffer.drop length })

theorem skipLength_pos (r : FrameReader) : 0 < r.skipLength := by
  unfold skipLength
  split
  · rename_i length hlength
    split
    · exact Frame.declaredLength?_pos hlength
    · exact Nat.one_pos
  · exact Nat.one_pos

/-- Stepping over buffered bytes uses them up. -/
theorem weight_skip_lt {r : FrameReader} (h : 0 < r.buffer.length) :
    r.skip.2.weight < r.weight := by
  have hpos := r.skipLength_pos
  simp only [skip]
  split
  · simp only [weight, List.length_nil]
    omega
  · simp only [weight, List.length_drop]
    omega

end FrameReader

end HeadUnitLink
