import HeadUnitLink.Stream.Writer

/-!
# Writing to a stream that stutters

A stream may take a few bytes at a time and fail for the moment between them.
As long as it takes some byte in the end, a writer is done only when the stream
has all the bytes, each of them once.

* `Sink.Willing` is what a stream may do.
* `Sink.writeAll_of_willing` is the loop over the writes.
* `FrameWriter.writeFrames_of_willing` is the result for a list of frames.
-/

namespace HeadUnitLink

/-! ## Streams -/

/-- A write takes some byte, or may take one when it is repeated. -/
def Acceptance.isWilling : Acceptance → Bool
  | .upTo count => 0 < count
  | .fault cause => cause.isTransient

namespace Sink

/-- No write and no flush fails for good. -/
structure Willing (s : Sink) : Prop where
  writes : ∀ outcome ∈ s.writes, outcome.isWilling = true
  flushes : ∀ cause, some cause ∈ s.flushes → cause.isTransient = true

theorem willing_accepting : accepting.Willing :=
  ⟨fun _ houtcome => absurd houtcome List.not_mem_nil,
    fun _ hcause => absurd hcause List.not_mem_nil⟩

/-- All bytes are taken in order, however many each write takes. -/
theorem writeAll_of_willing (pending : Bytes) (outcomes : List Acceptance) (s : Sink)
    (h : ∀ outcome ∈ outcomes, outcome.isWilling = true) :
    (s.writeAll pending outcomes).1 = .ok () ∧
      (s.writeAll pending outcomes).2.accepted = s.accepted ++ pending ∧
      (s.writeAll pending outcomes).2.flushes = s.flushes := by
  -- along the loop: the outcomes that are left are as willing as the first ones
  fun_induction writeAll pending outcomes s with
  | case1 outcomes s => exact ⟨rfl, (List.append_nil _).symm, rfl⟩
  | case2 s => exact ⟨rfl, rfl, rfl⟩
  | case3 s first more cause rest htransient ih =>
    obtain ⟨hok, haccepted, hflushes⟩ := ih (List.forall_mem_cons.1 h).2
    refine ⟨hok, ?_, hflushes⟩
    rw [haccepted]
    show (s.accepted ++ []) ++ _ = _
    rw [List.append_nil]
  | case4 s first more cause rest hlasting =>
    exact absurd (h _ List.mem_cons_self) hlasting
  | case5 s first more rest =>
    exact absurd (h _ List.mem_cons_self) (by decide)
  | case6 s first more count rest hcount ih =>
    obtain ⟨hok, haccepted, hflushes⟩ := ih (List.forall_mem_cons.1 h).2
    refine ⟨hok, ?_, hflushes⟩
    rw [haccepted]
    show (s.accepted ++ (first :: more).take count) ++ _ = _
    rw [List.append_assoc, List.take_append_drop]

/-- A flush takes no bytes and is repeated until it succeeds. -/
theorem flushAll_of_willing (outcomes : List (Option IoFault)) (s : Sink)
    (h : ∀ cause, some cause ∈ outcomes → cause.isTransient = true) :
    (s.flushAll outcomes).1 = .ok () ∧ (s.flushAll outcomes).2.accepted = s.accepted := by
  fun_induction flushAll outcomes s with
  | case1 s => exact ⟨rfl, rfl⟩
  | case2 s rest => exact ⟨rfl, rfl⟩
  | case3 s cause rest htransient ih =>
    exact ih fun other hother => h other (List.mem_cons_of_mem _ hother)
  | case4 s cause rest hlasting => exact absurd (h cause List.mem_cons_self) hlasting

/-- A willing stream takes all that is delivered to it. -/
theorem deliver_of_willing {s : Sink} (h : s.Willing) (content : Bytes) :
    (s.deliver content).1 = .ok () ∧ (s.deliver content).2.accepted = s.accepted ++ content := by
  obtain ⟨hok, haccepted, hflushes⟩ := writeAll_of_willing content s.writes s h.writes
  unfold deliver
  cases hwritten : s.writeAll content s.writes with
  | mk result written =>
    rw [hwritten] at hok haccepted hflushes
    simp only at hok haccepted hflushes
    subst hok
    have hflush := flushAll_of_willing written.flushes written (hflushes ▸ h.flushes)
    rw [haccepted] at hflush
    exact hflush

end Sink

/-! ## Frames -/

/-- Frames that can be written one by one, and are within the limit, are written
together. -/
theorem Frame.appendUntil_of_encoded {limit : Nat} {frames : List Frame}
    {encoded : List Bytes} (hencoded : frames.map encode = encoded.map .ok)
    (hlimit : ∀ frame ∈ frames, frame.payload.length ≤ limit) (buffer : Bytes) :
    appendUntil limit frames buffer = (.ok (), buffer ++ encoded.flatten) := by
  induction frames generalizing encoded buffer with
  | nil =>
    obtain rfl : encoded = [] := List.map_eq_nil_iff.1 hencoded.symm
    exact Prod.ext rfl (List.append_nil buffer).symm
  | cons frame rest ih =>
    cases encoded with
    | nil => exact absurd hencoded (by simp)
    | cons bytes more =>
      rw [List.map_cons, List.map_cons] at hencoded
      obtain ⟨hbytes, hmore⟩ := List.cons.inj hencoded
      have hwithin : frame.appendWithin limit buffer = (.ok (), buffer ++ bytes) := by
        unfold appendWithin
        rw [if_neg (Nat.not_lt_of_le (hlimit frame List.mem_cons_self)), appendTo_eq, hbytes]
      have hrest := ih hmore (fun other hother => hlimit other (List.mem_cons_of_mem _ hother))
        (buffer ++ bytes)
      unfold appendUntil
      simp only [hwithin, hrest]
      rw [List.flatten_cons, List.append_assoc]

namespace FrameWriter

/-- Frames are put into an empty buffer up to the first one that is refused. -/
theorem stage_clear (w : FrameWriter) (frames : List Frame) :
    w.clear.stage frames =
      ((Frame.appendUntil w.limit frames []).1,
        { w with buffer := (Frame.appendUntil w.limit frames []).2 }) :=
  rfl

/-- A writer of frames within its limit writes their bytes to a willing stream,
and counts them. -/
theorem writeFrames_of_willing {w : FrameWriter} (hwilling : w.sink.Willing)
    {frames : List Frame} {encoded : List Bytes}
    (hencoded : frames.map Frame.encode = encoded.map .ok)
    (hlimit : ∀ frame ∈ frames, frame.payload.length ≤ w.limit) :
    (w.writeFrames frames).1 = .ok encoded.flatten.length ∧
      (w.writeFrames frames).2.sink.accepted = w.sink.accepted ++ encoded.flatten := by
  obtain ⟨hok, haccepted⟩ := Sink.deliver_of_willing hwilling encoded.flatten
  unfold writeFrames deliver
  simp only [stage_clear, Frame.appendUntil_of_encoded hencoded hlimit, List.nil_append, hok]
  exact ⟨rfl, haccepted⟩

end FrameWriter

end HeadUnitLink
