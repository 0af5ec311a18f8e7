import HeadUnitLink.CommandLine.Decode
import HeadUnitLink.Proofs.Capture.Reading

/-!
# Where the frames of a capture are

The place of a listed frame is a sum of lengths, and is not taken from the stream.
It is right nevertheless: what stands there is the frame.  And if nothing was skipped,
there is nothing else in the capture.

* `Capture.pairwise_place` and `Capture.map_index_place` are about places and numbers
  alone, whatever is read.
* `Reading.bytes_at` is the induction on the reading, in which what was read before is
  carried along.
* `Capture.MadeOf` is what a capture without damage looks like, and
  `Reading.exists_madeOf` and `Capture.MadeOf.reading` are the two directions.
* `Capture.Faithful` has a field for each thing that the listing says, and
  `Capture.exists_faithful` is the result.
-/

namespace HeadUnitLink

/-! ## Headers and payloads that are accepted -/

namespace Header

/-- The bytes of a header are accepted when they are read. -/
def Accepted (h : Header) : Prop :=
  ∃ bytes found, h.encode = .ok bytes ∧ decode bytes = .ok found

theorem accepted_iff {h : Header} {bytes : Bytes} (hencode : h.encode = .ok bytes) :
    h.Accepted ↔ h.Readable := by
  constructor
  · rintro ⟨written, found, hwritten, hfound⟩
    obtain rfl := Except.ok.inj (hencode.symm.trans hwritten)
    refine Decidable.byContradiction fun hread => ?_
    obtain ⟨size, hsize, -⟩ := encode_eq_ok hencode
    rw [decode_encode_eq hencode, ofFields_of_not_readable hsize hread] at hfound
    cases hfound
  · intro hread
    exact ⟨bytes, h.received, hencode, decode_encode hencode hread⟩

end Header

namespace Frame

variable {limit : Nat} {bytes rest : Bytes} {f : Frame}

theorem wireSize_pos (f : Frame) : 0 < f.wireSize := by
  unfold wireSize
  cases hsize : headerSize? f.header.version with
  | none => exact Nat.add_pos_left (by decide) _
  | some size => exact Nat.add_pos_left (headerSize?_pos hsize) _

theorem accepted_of_decode (h : decode limit bytes = .ok (some (f, rest))) :
    f.header.Accepted := by
  obtain ⟨encoded, hencode, rfl⟩ := exists_encode_of_decode h
  obtain ⟨headerBytes, hheader, -, -⟩ := encode_eq_ok hencode
  refine (Header.accepted_iff hheader).2 ?_
  refine Decidable.byContradiction fun hread => ?_
  cases (decode_of_not_readable hencode hread limit rest).symm.trans h

end Frame

/-! ## Places -/

namespace Capture

/-- The frames are placed behind all that came before. -/
theorem le_offset_of_mem_place {index offset : Nat} {events : List StreamEvent}
    {item : PlacedFrame} (h : item ∈ place index offset events) : offset ≤ item.offset := by
  induction events generalizing index offset with
  | nil => cases h
  | cons event rest ih =>
    cases event with
    | frame f =>
      rcases List.mem_cons.1 h with rfl | hrest
      · exact Nat.le_refl _
      · exact Nat.le_trans (Nat.le_add_right _ _) (ih hrest)
    | damage e count => exact Nat.le_trans (Nat.le_add_right _ _) (ih h)
    | fault cause => exact ih h

/-- Every frame is placed behind the end of those before it. -/
theorem pairwise_place (index offset : Nat) (events : List StreamEvent) :
    (place index offset events).Pairwise fun a b =>
      a.offset < b.offset ∧ a.offset + a.frame.wireSize ≤ b.offset := by
  induction events generalizing index offset with
  | nil => exact .nil
  | cons event rest ih =>
    cases event with
    | frame f =>
      refine List.pairwise_cons.2 ⟨?_, ih _ _⟩
      intro item hitem
      have hle := le_offset_of_mem_place hitem
      exact ⟨Nat.lt_of_lt_of_le (Nat.lt_add_of_pos_right f.wireSize_pos) hle, hle⟩
    | damage e count => exact ih _ _
    | fault cause => exact ih _ _

/-- Damage and failures are not numbered: the frames have the numbers from the first one
on. -/
theorem map_index_place (index offset : Nat) (events : List StreamEvent) :
    (place index offset events).map PlacedFrame.index =
      List.range' index (place index offset events).length := by
  induction events generalizing index offset with
  | nil => rfl
  | cons event rest ih =>
    cases event with
    | frame f => exact congrArg (index :: ·) (ih (index + 1) (offset + f.wireSize))
    | damage e count => exact ih index (offset + count)
    | fault cause => exact ih index (offset + 0)

end Capture

/-- What stands at the place of a frame is the frame; `before` has been read already. -/
theorem Reading.bytes_at {limit : Nat} {reach : Bytes → FrameError → Nat} {bytes last : Bytes}
    {events : List StreamEvent} (h : Reading limit reach bytes events last) (index : Nat)
    (before : Bytes) {item : PlacedFrame}
    (hitem : item ∈ Capture.place index before.length events) :
    item.frame.encode =
      .ok (((before ++ bytes).drop item.offset).take item.frame.wireSize) := by
  induction h generalizing index before with
  | stop _ => cases hitem
  | @frame bytes rest last f events hdecode _ ih =>
    obtain ⟨encoded, hencode, rfl⟩ := Frame.exists_encode_of_decode hdecode
    have hlength := Frame.length_of_encode hencode
    rcases List.mem_cons.1 hitem with rfl | hrest
    · show f.encode = .ok (((before ++ (encoded ++ rest)).drop before.length).take f.wireSize)
      rw [List.drop_left, ← hlength, List.take_left]
      exact hencode
    · rw [← hlength, ← List.length_append] at hrest
      rw [← List.append_assoc]
      exact ih (index + 1) (before ++ encoded) hrest
  | @damage bytes last e events _ tail ih =>
    change item ∈ Capture.place index (before.length + reach bytes e) events at hitem
    rcases Nat.le_total (reach bytes e) bytes.length with hwithin | hbeyond
    · have hbefore : (before ++ bytes.take (reach bytes e)).length =
          before.length + reach bytes e := by
        rw [List.length_append, List.length_take_of_le hwithin]
      rw [← hbefore] at hitem
      have hrest := ih index _ hitem
      rw [List.append_assoc, List.take_append_drop] at hrest
      exact hrest
    · obtain ⟨rfl, -⟩ := tail.of_length_le hbeyond
      cases hitem

/-! ## Captures without damage -/

namespace Capture

/-- A byte string is made of the bytes of these frames, which are accepted when they are
read and have payloads within the limit, and of a rest in which bytes are missing. -/
structure MadeOf (limit : Nat) (content : Bytes) (frames : List Frame) (rest : Bytes) :
    Prop where
  content_eq : ∃ encoded : List Bytes,
    frames.map Frame.encode = encoded.map .ok ∧ content = encoded.flatten ++ rest
  accepted : ∀ f ∈ frames, f.header.Accepted
  within : ∀ f ∈ frames, f.payload.length ≤ limit
  incomplete : Frame.decode limit rest = .ok none

/-- Frames and a rest are read as these frames and this rest. -/
theorem MadeOf.reading {limit : Nat} {content rest : Bytes} {frames : List Frame}
    (h : MadeOf limit content frames rest) (reach : Bytes → FrameError → Nat) :
    Reading limit reach content ((frames.map Frame.received).map .frame) rest := by
  obtain ⟨encoded, hencoded, rfl⟩ := h.content_eq
  refine .of_encoded hencoded ?_ h.within h.incomplete
  intro f hf
  obtain ⟨headerBytes, -, hheader, -⟩ := h.accepted f hf
  exact (Header.accepted_iff hheader).1 (h.accepted f hf)

end Capture

/-- Bytes that read without damage are made of frames and a rest. -/
theorem Reading.exists_madeOf {limit : Nat} {bytes last : Bytes} {events : List StreamEvent}
    (h : Reading limit (FrameReader.reach limit) bytes events last)
    (hskipped : Capture.skippedBytes events = 0) :
    ∃ frames : List Frame, Capture.MadeOf limit bytes frames last := by
  induction h with
  | stop hdecode => exact ⟨[], ⟨[], rfl, rfl⟩, by simp, by simp, hdecode⟩
  | @frame bytes rest last f events hdecode _ ih =>
    have hrest : Capture.skippedBytes events = 0 := (Nat.zero_add _).symm.trans hskipped
    obtain ⟨frames, ⟨encoded, hencoded, hcontent⟩, haccepted, hwithin, hincomplete⟩ := ih hrest
    obtain ⟨written, hwritten, hbytes⟩ := Frame.exists_encode_of_decode hdecode
    refine ⟨f :: frames, ⟨written :: encoded, ?_, ?_⟩, ?_, ?_, hincomplete⟩
    · rw [List.map_cons, List.map_cons, hwritten, hencoded]
    · rw [hbytes, hcontent, List.flatten_cons, List.append_assoc]
    · exact List.forall_mem_cons.2 ⟨Frame.accepted_of_decode hdecode, haccepted⟩
    · exact List.forall_mem_cons.2 ⟨Frame.length_payload_le_of_decode hdecode, hwithin⟩
  | @damage bytes _ e events _ _ _ =>
    have hpos := FrameReader.reach_pos limit bytes e
    have hsum : FrameReader.reach limit bytes e + Capture.skippedBytes events = 0 := hskipped
    omega

namespace Capture

/-! ## The listing -/

/-- A capture that is handed over in one piece is one of these. -/
theorem ofSource_piece (limit : Nat) {source : Source} (hopen : source.Open)
    (hfaults : source.faults = []) :
    ofSource limit [.bytes source.content] = ofSource limit source := by
  obtain ⟨hmet, hrest⟩ := FrameReader.met_ofSource limit hopen
  obtain ⟨hpiece, hlast⟩ := FrameReader.events_of_piece limit source.content
  rw [FrameReader.met_of_faults_nil (r := .ofSource limit source) hopen hfaults] at hmet
  unfold ofSource
  simp only [hpiece, hlast, hmet, hrest]

/-- The command fails if bytes were skipped. -/
theorem code_outcome_eq_zero_iff (c : Capture) (limit : Nat) (format : Format)
    (reassemble : Bool) :
    (c.outcome limit format reassemble).code.toNat = 0 ↔ c.skipped = 0 := by
  unfold outcome
  simp only
  split
  · rename_i hskipped
    exact iff_of_true rfl hskipped
  · rename_i hskipped
    exact iff_of_false (show (60 : Nat) ≠ 0 by decide) hskipped

/-- How the listing of a capture stands to its bytes. -/
structure Faithful (limit : Nat) (content : Bytes) (c : Capture) : Prop where
  /-- What stands at the place of a frame, as far as the frame is long, is its written
  form. -/
  bytes_eq : ∀ item ∈ c.frames,
    item.frame.encode = .ok ((content.drop item.offset).take item.frame.wireSize)
  /-- The places are one behind the other and do not overlap. -/
  increasing : c.frames.Pairwise fun a b =>
    a.offset < b.offset ∧ a.offset + a.frame.wireSize ≤ b.offset
  /-- In this order the frames are numbered, from 0. -/
  numbered : c.frames.map PlacedFrame.index = List.range c.frames.length
  /-- Nothing is skipped if and only if there is nothing but frames and a rest. -/
  skipped_iff : c.skipped = 0 ↔ ∃ frames rest, MadeOf limit content frames rest
  /-- These frames are listed, as far as they arrive: a message id for which the layout
  has no place is in none of the bytes. -/
  listed : ∀ frames rest, MadeOf limit content frames rest →
    c.frames.map PlacedFrame.frame = frames.map Frame.received ∧ c.trailing = rest.length
  listed_eq : ∀ frames rest, MadeOf limit content frames rest →
    (∀ f ∈ frames, f.header.version < 3 → f.header.messageId = 0) →
      c.frames.map PlacedFrame.frame = frames
  /-- The exit code tells whether something was skipped. -/
  code_iff : ∀ format reassemble,
    Plan.listCapture limit format reassemble content = .done (c.outcome limit format reassemble) ∧
      ((c.outcome limit format reassemble).code.toNat = 0 ↔ c.skipped = 0)

/-- However a capture is handed over, its listing is faithful. -/
theorem exists_faithful (limit : Nat) {source : Source} (hopen : source.Open)
    (hfaults : source.faults = []) :
    ∃ c, ofSource limit source = .ok c ∧ Faithful limit source.content c := by
  obtain ⟨events, last, hreading, hcapture⟩ := exists_reading limit hopen hfaults
  have hlisted : ∀ frames rest, MadeOf limit source.content frames rest →
      events = (frames.map Frame.received).map .frame ∧ last = rest := by
    intro frames rest hmade
    exact hreading.unique (hmade.reading _)
  refine ⟨_, hcapture, ?_⟩
  constructor
  case bytes_eq =>
    intro item hitem
    exact hreading.bytes_at 0 [] hitem
  case increasing => exact pairwise_place 0 0 events
  case numbered =>
    rw [List.range_eq_range']
    exact map_index_place 0 0 events
  case skipped_iff =>
    constructor
    · intro hskipped
      obtain ⟨frames, hmade⟩ := hreading.exists_madeOf hskipped
      exact ⟨frames, last, hmade⟩
    · rintro ⟨frames, rest, hmade⟩
      obtain ⟨rfl, -⟩ := hlisted frames rest hmade
      exact skippedBytes_frames _
  case listed =>
    intro frames rest hmade
    obtain ⟨rfl, rfl⟩ := hlisted frames rest hmade
    exact ⟨map_frame_place 0 0 _, rfl⟩
  case listed_eq =>
    intro frames rest hmade hid
    obtain ⟨rfl, rfl⟩ := hlisted frames rest hmade
    have hsame : frames.map Frame.received = frames.map id :=
      List.map_congr_left fun f hf => Frame.received_eq (hid f hf)
    rw [List.map_id] at hsame
    exact (map_frame_place 0 0 _).trans hsame
  case code_iff =>
    intro format reassemble
    refine ⟨?_, code_outcome_eq_zero_iff _ limit format reassemble⟩
    unfold Plan.listCapture
    rw [ofSource_piece limit hopen hfaults, hcapture]

/-- A frame of each layout and the start of a third one, cut inside a payload and
interrupted there. -/
theorem exists_faithful_two_layouts :
    let source : Source :=
      [.bytes [0x11, 0x0B, 0, 1, 0, 0, 0, 1, 0x5A, 0x31, 0x0B, 0, 1, 0, 0, 0, 2, 0, 0, 0, 7, 0x31],
        .fault .interrupted, .bytes [0x32, 0x11, 0x0B, 0]]
    let frames : List Frame :=
      [Frame.stamped (Header.single .nav 1 0 0 1) [0x5A],
        Frame.stamped (Header.single .nav 1 0 7 3) [0x31, 0x32]]
    source.Open ∧ source.faults = [] ∧ MadeOf 2 source.content frames [0x11, 0x0B, 0] ∧
      ∃ c, ofSource 2 source = .ok c ∧ c.skipped = 0 ∧ c.trailing = 3 ∧
        c.frames.map PlacedFrame.frame = frames ∧ c.frames.map PlacedFrame.index = [0, 1] := by
  intro source frames
  have hopen : source.Open := by decide
  have hfaults : source.faults = [] := rfl
  have hmade : MadeOf 2 source.content frames [0x11, 0x0B, 0] :=
    { content_eq :=
        ⟨[[0x11, 0x0B, 0, 1, 0, 0, 0, 1, 0x5A],
          [0x31, 0x0B, 0, 1, 0, 0, 0, 2, 0, 0, 0, 7, 0x31, 0x32]], rfl, rfl⟩
      accepted := List.forall_mem_cons.2
        ⟨⟨_, _, rfl, rfl⟩, List.forall_mem_singleton.2 ⟨_, _, rfl, rfl⟩⟩
      within := by decide
      incomplete := rfl }
  obtain ⟨c, hcapture, hfaithful⟩ := exists_faithful 2 hopen hfaults
  have hlisted := hfaithful.listed_eq _ _ hmade (by decide)
  have hlength : c.frames.length = 2 := by
    have hsame := congrArg List.length hlisted
    rwa [List.length_map] at hsame
  refine ⟨hopen, hfaults, hmade, c, hcapture, hfaithful.skipped_iff.2 ⟨_, _, hmade⟩,
    (hfaithful.listed _ _ hmade).2, hlisted, ?_⟩
  rw [hfaithful.numbered, hlength]
  rfl

end Capture

end HeadUnitLink
