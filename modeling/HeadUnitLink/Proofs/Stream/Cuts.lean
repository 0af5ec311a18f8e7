import HeadUnitLink.Proofs.Stream.Reading

/-!
# The cuts of a stream

A stream arrives in reads of any size, and reads can fail in between.  A reader
makes the same of the stream every time.

* `FrameReader.faults_read` and `FrameReader.read_uninterrupted` are what one
  read does: it reports the next failure of the source or none, and it does not
  see that a read was interrupted.
* `FrameReader.faults_events` and `FrameReader.events_uninterrupted` follow by
  induction on the reads.
* `FrameReader.events_of_cuts` is the result.  What it says of the bytes rests
  on `FrameReader.reading_met`, in which the cuts do not occur.
-/

namespace HeadUnitLink

/-! ## Sources -/

namespace Source

/-- The failures that a source hands over, less the interruptions. -/
def faults : Source → List IoFault
  | [] => []
  | .bytes _ :: rest => faults rest
  | .fault .interrupted :: rest => faults rest
  | .fault cause :: rest => cause :: faults rest

/-- A source without its interruptions. -/
def uninterrupted : Source → Source
  | [] => []
  | .fault .interrupted :: rest => uninterrupted rest
  | arrival :: rest => arrival :: uninterrupted rest

/-- The failures that a source handed over, when this was its next read. -/
def faultsSince : Supply × Source → List IoFault
  | (.fault cause, rest) => cause :: faults rest
  | (.bytes _, rest) => faults rest
  | (.closed, _) => []

/-- A read that fails takes its failure off the source, and no other read takes
one. -/
theorem faults_next (capacity : Nat) {source : Source} (hopen : source.Open) :
    source.faults = faultsSince (source.next capacity) := by
  induction source with
  | nil => rfl
  | cons arrival tail ih =>
    cases arrival with
    | fault cause =>
      cases cause with
      | interrupted => exact ih hopen.tail
      | _ => rfl
    | bytes content =>
      have hne : content ≠ [] := by
        intro hnil
        rw [hnil] at hopen
        exact hopen List.mem_cons_self
      simp only [next, if_neg hne]
      split <;> rfl

/-- A read does not see an interruption. -/
theorem next_uninterrupted (capacity : Nat) (source : Source) :
    source.uninterrupted.next capacity =
      ((source.next capacity).1, uninterrupted (source.next capacity).2) := by
  induction source with
  | nil => rfl
  | cons arrival tail ih =>
    cases arrival with
    | fault cause =>
      cases cause with
      | interrupted => exact ih
      | _ => rfl
    | bytes content =>
      simp only [uninterrupted, next]
      split
      · rfl
      · split <;> rfl

end Source

namespace FrameReader

/-! ## Failed reads -/

/-- The failures that a source handed over, when this was the next answer. -/
def faultsSince : Except FrameError Frame × FrameReader → List IoFault
  | (.error (.io cause), r) => cause :: r.source.faults
  | (.error .connectionClosed, _) => []
  | (_, r) => r.source.faults

theorem faultsSince_of_isDamage {e : FrameError} (he : e.isDamage = true) (r : FrameReader) :
    faultsSince (.error e, r) = r.source.faults := by
  cases e with
  | io cause => exact absurd he Bool.false_ne_true
  | connectionClosed => exact absurd he Bool.false_ne_true
  | _ => rfl

/-- The buffer answers without the source. -/
theorem faultsSince_of_fromBuffer? {r : FrameReader}
    {answer : Except FrameError Frame × FrameReader} (h : r.fromBuffer? = some answer) :
    faultsSince answer = r.source.faults := by
  rw [fromBuffer?_eq] at h
  split at h
  · split at h
    · rename_i e hdecode
      obtain rfl := Option.some.inj h
      exact faultsSince_of_isDamage (Frame.isDamage_of_decode hdecode) r
    · obtain rfl := Option.some.inj h
      rfl
    · exact absurd h (by simp)
  · exact absurd h (by simp)

/-- A read reports the next failure of the source, or none. -/
theorem faults_read (r : FrameReader) (hopen : r.source.Open) :
    r.source.faults = faultsSince r.read := by
  fun_induction read r with
  | case1 r answer hbuffer => exact (faultsSince_of_fromBuffer? hbuffer).symm
  | case2 r hbuffer content rest hnext ih =>
    have hfaults := Source.faults_next readCapacity hopen
    rw [hnext] at hfaults
    exact hfaults.trans (ih (Source.content_next hnext hopen).2)
  | case3 r hbuffer cause rest hnext =>
    have hfaults := Source.faults_next readCapacity hopen
    rw [hnext] at hfaults
    exact hfaults
  | case4 r hbuffer rest hnext =>
    have hfaults := Source.faults_next readCapacity hopen
    rw [hnext] at hfaults
    exact hfaults

/-- Every failure is reported once, and in its turn. -/
theorem faults_events (r : FrameReader) (hopen : r.source.Open) :
    r.events.1.filterMap StreamEvent.fault? = r.source.faults := by
  induction r using read_induction with
  | hframe r frame r' hread ih =>
    have hfaults := r.faults_read hopen
    have houtcome := r.outcome_read hopen
    rw [hread] at hfaults houtcome
    cases houtcome with
    | frame _ _ _ hopen' _ =>
      rw [events_of_frame hread, hfaults]
      exact ih hopen'
  | hdamage r e r' hread he ih =>
    have hfaults := r.faults_read hopen
    have houtcome := r.outcome_read hopen
    rw [hread] at hfaults houtcome
    cases houtcome with
    | damage _ _ _ hopen' _ _ _ _ =>
      have hskip := r'.source_skip
      rw [← hskip] at hopen'
      rw [events_of_damage hread he, hfaults, faultsSince_of_isDamage he, ← hskip]
      exact ih hopen'
    | fault _ _ _ _ _ => exact absurd he Bool.false_ne_true
    | closed _ _ _ => exact absurd he Bool.false_ne_true
  | hfault r cause r' hread ih =>
    have hfaults := r.faults_read hopen
    have houtcome := r.outcome_read hopen
    rw [hread] at hfaults houtcome
    cases houtcome with
    | damage _ _ _ _ _ _ _ he => exact absurd he Bool.false_ne_true
    | fault _ _ _ hopen' _ =>
      rw [events_of_fault hread, hfaults]
      exact congrArg (cause :: ·) (ih hopen')
  | hclosed r r' hread =>
    have hfaults := r.faults_read hopen
    rw [hread] at hfaults
    rw [events_of_closed hread, hfaults]
    rfl

/-! ## Interrupted reads -/

/-- A reader of the same stream without its interruptions. -/
def uninterrupted (r : FrameReader) : FrameReader :=
  { r with source := r.source.uninterrupted }

theorem fromBuffer?_uninterrupted (r : FrameReader) :
    r.uninterrupted.fromBuffer? =
      r.fromBuffer?.map fun (answer, r') => (answer, r'.uninterrupted) := by
  have hdiscard : r.uninterrupted.discard = r.discard := rfl
  have hdecode : Frame.decode r.uninterrupted.limit r.uninterrupted.buffer =
    Frame.decode r.limit r.buffer := rfl
  rw [fromBuffer?_eq, fromBuffer?_eq, hdiscard, hdecode]
  split
  · split <;> rfl
  · rfl

/-- A read is answered from the buffer, if it can be. -/
theorem read_of_some {r : FrameReader} {answer : Except FrameError Frame × FrameReader}
    (h : r.drain.fromBuffer? = some answer) : r.read = answer := by
  rw [read]
  split
  · rename_i found hfound
    exact Option.some.inj (hfound.symm.trans h)
  · rename_i hnone
    cases h.symm.trans hnone

/-- Otherwise the source is asked, and the read goes on with what it brings. -/
theorem read_of_bytes {r : FrameReader} {content : Bytes} {rest : Source}
    (h : r.drain.fromBuffer? = none)
    (hnext : Source.next readCapacity r.source = (.bytes content, rest)) :
    r.read = read { r.drain with buffer := r.drain.buffer ++ content, source := rest } := by
  rw [read]
  split
  · rename_i hfound
    cases h.symm.trans hfound
  · split
    · rename_i hbytes
      obtain ⟨heq, rfl⟩ := Prod.mk.inj (hnext.symm.trans hbytes)
      obtain rfl := Supply.bytes.inj heq
      rfl
    · rename_i hfault
      cases hnext.symm.trans hfault
    · rename_i hclosed
      cases hnext.symm.trans hclosed

theorem read_of_fault {r : FrameReader} {cause : IoFault} {rest : Source}
    (h : r.drain.fromBuffer? = none)
    (hnext : Source.next readCapacity r.source = (.fault cause, rest)) :
    r.read = (.error (.io cause), { r.drain with source := rest }) := by
  rw [read]
  split
  · rename_i hfound
    cases h.symm.trans hfound
  · split
    · rename_i hbytes
      cases hnext.symm.trans hbytes
    · rename_i hfault
      obtain ⟨heq, rfl⟩ := Prod.mk.inj (hnext.symm.trans hfault)
      obtain rfl := Supply.fault.inj heq
      rfl
    · rename_i hclosed
      cases hnext.symm.trans hclosed

theorem read_of_closed {r : FrameReader} {rest : Source} (h : r.drain.fromBuffer? = none)
    (hnext : Source.next readCapacity r.source = (.closed, rest)) :
    r.read = (.error .connectionClosed, { r.drain with source := rest }) := by
  rw [read]
  split
  · rename_i hfound
    cases h.symm.trans hfound
  · split
    · rename_i hbytes
      cases hnext.symm.trans hbytes
    · rename_i hfault
      cases hnext.symm.trans hfault
    · rename_i hclosed
      obtain ⟨-, rfl⟩ := Prod.mk.inj (hnext.symm.trans hclosed)
      rfl

/-- A read does not see an interruption. -/
theorem read_uninterrupted (r : FrameReader) :
    r.uninterrupted.read = (r.read.1, r.read.2.uninterrupted) := by
  have hbuffer (r : FrameReader) : r.uninterrupted.drain.fromBuffer? =
      r.drain.fromBuffer?.map fun (answer, r') => (answer, r'.uninterrupted) :=
    fromBuffer?_uninterrupted r.drain
  have hnext (r : FrameReader) : Source.next readCapacity r.uninterrupted.source =
      ((Source.next readCapacity r.source).1,
        (Source.next readCapacity r.source).2.uninterrupted) :=
    Source.next_uninterrupted readCapacity r.source
  fun_induction read r with
  | case1 r answer hanswer =>
    apply read_of_some
    rw [hbuffer, hanswer]
    rfl
  | case2 r hnone content rest hsource ih =>
    have hcalm := hbuffer r
    rw [hnone] at hcalm
    have hbytes := hnext r
    rw [hsource] at hbytes
    rw [read_of_bytes hcalm hbytes]
    exact ih
  | case3 r hnone cause rest hsource =>
    have hcalm := hbuffer r
    rw [hnone] at hcalm
    have hfault := hnext r
    rw [hsource] at hfault
    exact read_of_fault hcalm hfault
  | case4 r hnone rest hsource =>
    have hcalm := hbuffer r
    rw [hnone] at hcalm
    have hclosed := hnext r
    rw [hsource] at hclosed
    exact read_of_closed hcalm hclosed

theorem skip_uninterrupted (r : FrameReader) :
    r.uninterrupted.skip = (r.skip.1, r.skip.2.uninterrupted) := by
  have hlength : r.uninterrupted.skipLength = r.skipLength := rfl
  have hbuffer : r.uninterrupted.buffer = r.buffer := rfl
  unfold skip
  simp only [hlength, hbuffer]
  split <;> rfl

/-- An interruption leaves no trace in the events. -/
theorem events_uninterrupted (r : FrameReader) :
    r.uninterrupted.events = (r.events.1, r.events.2.uninterrupted) := by
  induction r using read_induction with
  | hframe r frame r' hread ih =>
    have hcalm := r.read_uninterrupted
    rw [hread] at hcalm
    rw [events_of_frame hread, events_of_frame hcalm, ih]
  | hdamage r e r' hread he ih =>
    have hcalm := r.read_uninterrupted
    rw [hread] at hcalm
    rw [events_of_damage hread he, events_of_damage hcalm he, skip_uninterrupted, ih]
  | hfault r cause r' hread ih =>
    have hcalm := r.read_uninterrupted
    rw [hread] at hcalm
    rw [events_of_fault hread, events_of_fault hcalm, ih]
  | hclosed r r' hread =>
    have hcalm := r.read_uninterrupted
    rw [hread] at hcalm
    rw [events_of_closed hread, events_of_closed hcalm]

/-! ## However the stream arrives -/

/-- A reader that meets no failure has nothing but what it meets. -/
theorem met_of_faults_nil {r : FrameReader} (hopen : r.source.Open) (h : r.source.faults = []) :
    r.met = r.events.1 := by
  have hfaults := r.faults_events hopen
  rw [h, List.filterMap_eq_nil_iff] at hfaults
  refine List.filter_eq_self.2 fun event hevent => ?_
  rw [hfaults event hevent]
  rfl

/-- Two readers with the same bytes in front of them meet the same, and are left
with the same bytes. -/
theorem met_of_pending {r s : FrameReader} (hr : r.source.Open) (hs : s.source.Open)
    (hlimit : r.limit = s.limit) (hpending : r.pending = s.pending) :
    r.met = s.met ∧ r.events.2.buffer = s.events.2.buffer := by
  have hreading := reading_met r hr
  rw [hlimit, hpending] at hreading
  exact hreading.unique (reading_met s hs)

/-- A reader that has its whole stream in the buffer. -/
def buffered (limit : Nat) (content : Bytes) : FrameReader :=
  { limit, source := [], buffer := content, discard := 0 }

/-- A stream reads as if it were in the buffer from the start. -/
theorem met_ofSource (limit : Nat) {source : Source} (hopen : source.Open) :
    (ofSource limit source).met = (buffered limit source.content).events.1 ∧
      (ofSource limit source).events.2.buffer =
        (buffered limit source.content).events.2.buffer := by
  have hbuffered : (buffered limit source.content).source.Open := List.not_mem_nil
  have hpending : (ofSource limit source).pending = (buffered limit source.content).pending := by
    rw [pending_of_discard rfl, pending_of_discard rfl]
    exact (List.append_nil _).symm
  have hmet := met_of_pending (r := ofSource limit source) hopen hbuffered rfl hpending
  rw [met_of_faults_nil hbuffered rfl] at hmet
  exact hmet

/-- A stream that is handed over in one piece is one of these. -/
theorem events_of_piece (limit : Nat) (content : Bytes) :
    (ofSource limit [.bytes content]).events.1 = (buffered limit content).events.1 ∧
      (ofSource limit [.bytes content]).events.2.buffer =
        (buffered limit content).events.2.buffer := by
  by_cases hnil : content = []
  · -- a read of no bytes ends a stream as its own end does
    have hpiece : (ofSource limit [.bytes []]).events = ([], buffered limit []) :=
      events_of_closed (read_of_closed rfl rfl)
    have hbuffered : (buffered limit []).events = ([], buffered limit []) :=
      events_of_closed (read_of_closed rfl rfl)
    rw [hnil, hpiece, hbuffered]
    exact ⟨rfl, rfl⟩
  · have hopen : Source.Open [.bytes content] := by
      intro hmem
      exact hnil (Arrival.bytes.inj (List.mem_singleton.1 hmem)).symm
    have hcontent : Source.content [.bytes content] = content := List.append_nil content
    have hmet := met_ofSource limit hopen
    rw [met_of_faults_nil (r := ofSource limit [.bytes content]) hopen rfl, hcontent] at hmet
    exact hmet

/-- However a stream is cut, and wherever its reads fail, a reader meets in it
what it meets when the stream is handed over in one piece, and is left with the
same bytes.  Every failure is reported once, in order, and interruptions change
nothing. -/
theorem events_of_cuts (limit : Nat) {source : Source} (hopen : source.Open) :
    (ofSource limit source).met = (ofSource limit [.bytes source.content]).events.1 ∧
      (ofSource limit source).events.2.buffer =
        (ofSource limit [.bytes source.content]).events.2.buffer ∧
      (ofSource limit source).events.1.filterMap StreamEvent.fault? = source.faults ∧
      (ofSource limit source.uninterrupted).events =
        ((ofSource limit source).events.1, (ofSource limit source).events.2.uninterrupted) := by
  obtain ⟨hmet, hrest⟩ := met_ofSource limit hopen
  obtain ⟨hpiece, hlast⟩ := events_of_piece limit source.content
  exact ⟨hmet.trans hpiece.symm, hrest.trans hlast.symm, faults_events _ hopen,
    events_uninterrupted (ofSource limit source)⟩

/-- A malformed frame whose payload arrives in two reads, with an interruption
and a time-out in between, and a frame that is cut inside its header. -/
theorem events_of_cuts_in_skipped :
    let source : Source :=
      [.bytes [0x11, 0x55, 0, 1, 0, 0, 0, 3, 0xAA], .fault .interrupted, .bytes [0xBB],
        .fault .timedOut, .bytes [0xCC, 0x11, 0x07], .bytes [0, 1, 0, 0, 0, 1, 0x5A, 0x11]]
    source.Open ∧ (ofSource 8 source).events.1.length = 3 ∧
      (ofSource 8 source).met = (ofSource 8 [.bytes source.content]).events.1 ∧
      (ofSource 8 source).events.1.filterMap StreamEvent.fault? = [.timedOut] := by
  intro source
  have hopen : source.Open := by decide
  obtain ⟨hmet, -, hfaults, -⟩ := events_of_cuts 8 hopen
  exact ⟨hopen, by decide +kernel, hmet, hfaults⟩

end FrameReader

end HeadUnitLink
