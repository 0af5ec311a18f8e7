import HeadUnitLink.Capture.Basic
import HeadUnitLink.Proofs.Stream.Cuts
import HeadUnitLink.Proofs.Wire.Codec

/-!
# What a capture holds

A capture is made from the reading of its bytes, `Capture.exists_reading`, so
that all that is said of captures follows by induction on the reading.

* `Reading.of_length_le` is the case that such an induction must not forget:
  damage can reach beyond the last byte, and then nothing is left to read.
* `Reading.of_encoded` is the reading of frames and a rest.
-/

namespace HeadUnitLink

theorem FrameReader.reach_pos (limit : Nat) (bytes : Bytes) (e : FrameError) :
    0 < reach limit bytes e :=
  skipLength_pos _

namespace Reading

variable {limit : Nat} {reach : Bytes → FrameError → Nat} {bytes last : Bytes}
  {events : List StreamEvent}

/-- Nothing is read behind the last byte. -/
theorem of_length_le {count : Nat} (h : Reading limit reach (bytes.drop count) events last)
    (hcount : bytes.length ≤ count) : events = [] ∧ last = [] := by
  rw [List.drop_eq_nil_of_le hcount] at h
  exact h.unique (.stop rfl)

/-- The bytes of frames that are read within the limit read as these frames, as far
as they arrive. -/
theorem of_encoded {frames : List Frame} {encoded : List Bytes} {rest : Bytes}
    (hencoded : frames.map Frame.encode = encoded.map .ok)
    (hread : ∀ f ∈ frames, f.header.Readable) (hlimit : ∀ f ∈ frames, f.payload.length ≤ limit)
    (hrest : Frame.decode limit rest = .ok none) :
    Reading limit reach (encoded.flatten ++ rest)
      ((frames.map Frame.received).map .frame) rest := by
  induction frames generalizing encoded with
  | nil =>
    obtain rfl : encoded = [] := List.map_eq_nil_iff.1 hencoded.symm
    exact .stop hrest
  | cons f more ih =>
    cases encoded with
    | nil => exact absurd hencoded (by simp)
    | cons bytes others =>
      rw [List.map_cons, List.map_cons] at hencoded
      obtain ⟨hbytes, hothers⟩ := List.cons.inj hencoded
      have hdecode := Frame.decode_encode_append hbytes (hread f List.mem_cons_self)
        (hlimit f List.mem_cons_self) (others.flatten ++ rest)
      rw [List.flatten_cons, List.append_assoc]
      refine .frame hdecode (ih hothers ?_ ?_)
      · exact fun other hother => hread other (List.mem_cons_of_mem _ hother)
      · exact fun other hother => hlimit other (List.mem_cons_of_mem _ hother)

end Reading

namespace Capture

theorem map_frame_place (index offset : Nat) (frames : List Frame) :
    (place index offset (frames.map .frame)).map PlacedFrame.frame = frames := by
  induction frames generalizing index offset with
  | nil => rfl
  | cons f rest ih => exact congrArg (f :: ·) (ih _ _)

theorem skippedBytes_frames (frames : List Frame) : skippedBytes (frames.map .frame) = 0 := by
  induction frames with
  | nil => rfl
  | cons f rest ih =>
    show 0 + skippedBytes (rest.map .frame) = 0
    rw [ih]

/-- However the bytes of a capture are handed over, the capture is made from their
reading. -/
theorem exists_reading (limit : Nat) {source : Source} (hopen : source.Open)
    (hfaults : source.faults = []) :
    ∃ events last, Reading limit (FrameReader.reach limit) source.content events last ∧
      ofSource limit source =
        .ok { frames := place 0 0 events, skipped := skippedBytes events
              trailing := last.length } := by
  let r := FrameReader.ofSource limit source
  have hpending : r.pending = source.content := FrameReader.pending_of_discard rfl
  have hmet := FrameReader.reading_met r hopen
  rw [FrameReader.met_of_faults_nil hopen hfaults, hpending] at hmet
  have hcalm : r.events.1.findSome? StreamEvent.fault? = none := by
    rw [List.findSome?_eq_none_iff, ← List.filterMap_eq_nil_iff]
    exact (FrameReader.faults_events r hopen).trans hfaults
  refine ⟨r.events.1, r.events.2.buffer, hmet, ?_⟩
  unfold ofSource
  simp only [show FrameReader.ofSource limit source = r from rfl, hcalm]

end Capture

end HeadUnitLink
