import HeadUnitLink.Proofs.Wire.Damage
import HeadUnitLink.Stream.Event

/-!
# How a byte string reads

A byte string reads as frames and damage, one after the other, and ends in
bytes that are not yet a frame.  Where damage ends is a matter of judgement,
and `Reading` takes the judgement as a parameter: `reach` says how many bytes
are stepped over.

* `Reading` is the declarative trace, and `Reading.unique` says that there is
  at most one.
* `FrameReader.reading_met` is the main result: what a reader meets is the
  reading of its stream, with `FrameReader.reach`, however the stream arrives.
* `FrameReader.ReadOutcome` says once what one read can do.
-/

namespace HeadUnitLink

/-- A byte string reads as these events and leaves these bytes over, where
`reach` says how far damage reaches. -/
inductive Reading (limit : Nat) (reach : Bytes → FrameError → Nat) :
    Bytes → List StreamEvent → Bytes → Prop where
  | stop {bytes : Bytes} (hdecode : Frame.decode limit bytes = .ok none) :
      Reading limit reach bytes [] bytes
  | frame {bytes rest last : Bytes} {frame : Frame} {events : List StreamEvent}
      (hdecode : Frame.decode limit bytes = .ok (some (frame, rest)))
      (tail : Reading limit reach rest events last) :
      Reading limit reach bytes (.frame frame :: events) last
  | damage {bytes last : Bytes} {e : FrameError} {events : List StreamEvent}
      (hdecode : Frame.decode limit bytes = .error e)
      (tail : Reading limit reach (bytes.drop (reach bytes e)) events last) :
      Reading limit reach bytes (.damage e (reach bytes e) :: events) last

/-- A byte string reads in one way only. -/
theorem Reading.unique {limit : Nat} {reach : Bytes → FrameError → Nat}
    {bytes last last' : Bytes} {events events' : List StreamEvent}
    (h : Reading limit reach bytes events last) (h' : Reading limit reach bytes events' last') :
    events = events' ∧ last = last' := by
  induction h generalizing events' last' with
  | stop hdecode =>
    cases h' with
    | stop _ => exact ⟨rfl, rfl⟩
    | frame hdecode' _ => exact absurd (hdecode.symm.trans hdecode') (by simp)
    | damage hdecode' _ => exact absurd (hdecode.symm.trans hdecode') (by simp)
  | frame hdecode tail ih =>
    cases h' with
    | stop hdecode' => exact absurd (hdecode.symm.trans hdecode') (by simp)
    | frame hdecode' tail' =>
      have heq := Option.some.inj (Except.ok.inj (hdecode.symm.trans hdecode'))
      obtain ⟨rfl, rfl⟩ := Prod.mk.inj heq
      obtain ⟨rfl, rfl⟩ := ih tail'
      exact ⟨rfl, rfl⟩
    | damage hdecode' _ => exact absurd (hdecode.symm.trans hdecode') (by simp)
  | damage hdecode tail ih =>
    cases h' with
    | stop hdecode' => exact absurd (hdecode.symm.trans hdecode') (by simp)
    | frame hdecode' _ => exact absurd (hdecode.symm.trans hdecode') (by simp)
    | damage hdecode' tail' =>
      obtain rfl := Except.error.inj (hdecode.symm.trans hdecode')
      obtain ⟨rfl, rfl⟩ := ih tail'
      exact ⟨rfl, rfl⟩

/-! ## Sources -/

namespace Source

/-- All bytes that a source will hand over. -/
def content : Source → Bytes
  | [] => []
  | .bytes content :: rest => content ++ Source.content rest
  | .fault _ :: rest => Source.content rest

/-- The stream does not end before the source does: no read yields nothing. -/
def Open (source : Source) : Prop := Arrival.bytes [] ∉ source

instance (source : Source) : Decidable (Open source) :=
  inferInstanceAs (Decidable (Arrival.bytes [] ∉ source))

theorem Open.tail {arrival : Arrival} {rest : Source} (h : Open (arrival :: rest)) : Open rest :=
  fun hmem => h (List.mem_cons_of_mem _ hmem)

/-- What a read brings is what the source has lost. -/
theorem content_next {capacity : Nat} {source rest : Source} {found : Bytes}
    (h : next capacity source = (.bytes found, rest)) (hopen : Open source) :
    source.content = found ++ Source.content rest ∧ Open rest := by
  induction source with
  | nil => exact absurd h (by simp [next])
  | cons arrival tail ih =>
    cases arrival with
    | fault cause =>
      cases cause with
      | interrupted => exact ih h hopen.tail
      | _ => exact absurd h (by simp [next])
    | bytes chunk =>
      simp only [next] at h
      split at h
      · exact absurd h (by simp)
      · split at h
        · obtain ⟨heq, rfl⟩ := Prod.mk.inj h
          obtain rfl := Supply.bytes.inj heq
          exact ⟨rfl, hopen.tail⟩
        · rename_i hlong
          obtain ⟨heq, rfl⟩ := Prod.mk.inj h
          obtain rfl := Supply.bytes.inj heq
          refine ⟨?_, ?_⟩
          · simp only [content]
            rw [← List.append_assoc, List.take_append_drop]
          · intro hmem
            rcases List.mem_cons.1 hmem with hhead | htail
            · have hnil := (Arrival.bytes.inj hhead).symm
              have hle := List.drop_eq_nil_iff.1 hnil
              exact hlong hle
            · exact hopen.tail htail

/-- A failed read loses no bytes. -/
theorem content_next_fault {capacity : Nat} {source rest : Source} {cause : IoFault}
    (h : next capacity source = (.fault cause, rest)) (hopen : Open source) :
    source.content = Source.content rest ∧ Open rest := by
  induction source with
  | nil => exact absurd h (by simp [next])
  | cons arrival tail ih =>
    cases arrival with
    | fault first =>
      cases first with
      | interrupted => exact ih h hopen.tail
      | _ =>
        obtain ⟨-, rfl⟩ := Prod.mk.inj h
        exact ⟨rfl, hopen.tail⟩
    | bytes chunk =>
      simp only [next] at h
      split at h
      · exact absurd h (by simp)
      · split at h
        · exact absurd h (by simp)
        · exact absurd h (by simp)

/-- A stream that does not end early ends when all its bytes are handed
over. -/
theorem content_next_closed {capacity : Nat} {source rest : Source}
    (h : next capacity source = (.closed, rest)) (hopen : Open source) :
    source.content = [] := by
  induction source with
  | nil => rfl
  | cons arrival tail ih =>
    cases arrival with
    | fault cause =>
      cases cause with
      | interrupted => exact ih h hopen.tail
      | _ => exact absurd h (by simp [next])
    | bytes chunk =>
      simp only [next] at h
      split at h
      · rename_i hnil
        rw [hnil] at hopen
        exact absurd List.mem_cons_self hopen
      · split at h
        · exact absurd h (by simp)
        · exact absurd h (by simp)

end Source

namespace FrameReader

/-- The bytes of the stream from where a reader stands: what it has buffered
and what is still to come, less what it has stepped over already. -/
def pending (r : FrameReader) : Bytes := (r.buffer ++ r.source.content).drop r.discard

/-- How far a reader steps when it stands in front of damage. -/
def reach (limit : Nat) (bytes : Bytes) (_ : FrameError) : Nat :=
  skipLength { limit, source := [], buffer := bytes, discard := 0 }

theorem pending_of_discard {r : FrameReader} (h : r.discard = 0) :
    r.pending = r.buffer ++ r.source.content := by
  unfold pending
  rw [h, List.drop_zero]

theorem pending_drain (r : FrameReader) : r.drain.pending = r.pending := by
  unfold pending drain
  simp only [List.drop_append, List.drop_drop]
  rcases Nat.le_total r.discard r.buffer.length with hle | hge
  · have hzero : r.discard - r.buffer.length = 0 := Nat.sub_eq_zero_of_le hle
    simp only [hzero, Nat.add_zero, List.length_drop, Nat.zero_sub]
  · have hnil : r.buffer.drop r.discard = [] := List.drop_eq_nil_of_le hge
    have hmore : r.buffer.drop (r.discard + (r.discard - r.buffer.length)) = [] :=
      List.drop_eq_nil_of_le (by omega)
    rw [hnil, hmore]
    simp only [List.length_nil, Nat.sub_zero]

/-- A drained reader that still steps over bytes has nothing buffered. -/
theorem buffer_drain_of_discard {r : FrameReader} (h : r.drain.discard ≠ 0) :
    r.drain.buffer = [] := by
  simp only [drain] at h ⊢
  exact List.drop_eq_nil_of_le (by omega)

/-! ## One read -/

/-- What one read brings, in terms of the bytes that a reader has in front of
it. -/
inductive ReadOutcome (r : FrameReader) : Except FrameError Frame × FrameReader → Prop where
  | frame (frame : Frame) (r' : FrameReader) (hlimit : r'.limit = r.limit)
      (hopen : r'.source.Open)
      (hdecode : Frame.decode r.limit r.pending = .ok (some (frame, r'.pending))) :
      ReadOutcome r (.ok frame, r')
  | damage (e : FrameError) (r' : FrameReader) (hlimit : r'.limit = r.limit)
      (hopen : r'.source.Open) (hdiscard : r'.discard = 0) (hpending : r'.pending = r.pending)
      (hdecode : Frame.decode r.limit r'.buffer = .error e) (he : e.isDamage = true) :
      ReadOutcome r (.error e, r')
  | fault (cause : IoFault) (r' : FrameReader) (hlimit : r'.limit = r.limit)
      (hopen : r'.source.Open) (hpending : r'.pending = r.pending) :
      ReadOutcome r (.error (.io cause), r')
  | closed (r' : FrameReader) (hbuffer : r'.buffer = r.pending)
      (hdecode : Frame.decode r.limit r.pending = .ok none) :
      ReadOutcome r (.error .connectionClosed, r')

/-- Readers with the same bytes in front of them read the same. -/
theorem ReadOutcome.of_pending {r s : FrameReader} (hlimit : s.limit = r.limit)
    (hpending : s.pending = r.pending) {answer : Except FrameError Frame × FrameReader}
    (h : s.ReadOutcome answer) : r.ReadOutcome answer := by
  cases h with
  | frame frame r' hlim hopen hdecode =>
    rw [hlimit, hpending] at hdecode
    exact .frame frame r' (hlim.trans hlimit) hopen hdecode
  | damage e r' hlim hopen hdiscard hpend hdecode he =>
    rw [hlimit] at hdecode
    exact .damage e r' (hlim.trans hlimit) hopen hdiscard (hpend.trans hpending) hdecode he
  | fault cause r' hlim hopen hpend =>
    exact .fault cause r' (hlim.trans hlimit) hopen (hpend.trans hpending)
  | closed r' hbuffer hdecode =>
    rw [hlimit, hpending] at hdecode
    exact .closed r' (hbuffer.trans hpending) hdecode

/-- What the buffer answers is what the stream answers. -/
theorem outcome_of_fromBuffer? {r : FrameReader} {answer : Except FrameError Frame × FrameReader}
    (hopen : r.source.Open) (h : r.fromBuffer? = some answer) : r.ReadOutcome answer := by
  rw [fromBuffer?_eq] at h
  split at h
  · rename_i hdiscard
    have hpending := pending_of_discard hdiscard
    split at h
    · rename_i e hdecode
      obtain rfl := Option.some.inj h
      exact .damage e r rfl hopen hdiscard rfl hdecode (Frame.isDamage_of_decode hdecode)
    · rename_i frame rest hdecode
      obtain rfl := Option.some.inj h
      have hrest : ({ r with buffer := rest } : FrameReader).pending =
          rest ++ r.source.content := pending_of_discard hdiscard
      refine .frame frame _ rfl hopen ?_
      rw [hpending, hrest, Frame.decode_append_of_frame hdecode]
    · exact absurd h (by simp)
  · exact absurd h (by simp)

/-- When the buffer answers nothing and nothing is to come, the stream reads no
further. -/
theorem decode_of_fromBuffer?_none {r : FrameReader} (h : r.drain.fromBuffer? = none)
    (hcontent : r.source.content = []) :
    r.drain.buffer = r.pending ∧ Frame.decode r.limit r.pending = .ok none := by
  have hpending : r.pending = r.drain.buffer.drop r.drain.discard := by
    rw [← pending_drain]
    unfold pending
    rw [show r.drain.source.content = [] from hcontent, List.append_nil]
  rw [hpending]
  by_cases hdiscard : r.drain.discard = 0
  · rw [hdiscard, List.drop_zero]
    rw [fromBuffer?_eq] at h
    rw [if_pos hdiscard] at h
    split at h
    · exact absurd h (by simp)
    · exact absurd h (by simp)
    · rename_i hdecode
      exact ⟨rfl, hdecode⟩
  · rw [buffer_drain_of_discard hdiscard, List.drop_nil]
    exact ⟨rfl, rfl⟩

/-- Every read has one of the four outcomes. -/
theorem outcome_read (r : FrameReader) (hopen : r.source.Open) : r.ReadOutcome r.read := by
  fun_induction read r with
  | case1 r answer hbuffer =>
    have hdrained : r.drain.ReadOutcome answer := outcome_of_fromBuffer? hopen hbuffer
    have hlimit : r.drain.limit = r.limit := rfl
    exact hdrained.of_pending hlimit (pending_drain r)
  | case2 r hbuffer content rest hnext ih =>
    obtain ⟨hcontent, hrest⟩ := Source.content_next hnext hopen
    refine ReadOutcome.of_pending ?_ ?_ (ih hrest)
    · rfl
    · rw [← pending_drain r]
      unfold pending
      rw [show r.drain.source.content = content ++ Source.content rest from hcontent,
        ← List.append_assoc]
  | case3 r hbuffer cause rest hnext =>
    obtain ⟨hcontent, hrest⟩ := Source.content_next_fault hnext hopen
    refine .fault cause _ rfl hrest ?_
    rw [← pending_drain r]
    unfold pending
    rw [show r.drain.source.content = Source.content rest from hcontent]
  | case4 r hbuffer rest hnext =>
    obtain ⟨hrest, hdecode⟩ :=
      decode_of_fromBuffer?_none hbuffer (Source.content_next_closed hnext hopen)
    exact .closed _ hrest hdecode

theorem source_skip (r : FrameReader) : r.skip.2.source = r.source := by
  unfold skip
  simp only
  split <;> rfl

theorem limit_skip (r : FrameReader) : r.skip.2.limit = r.limit := by
  unfold skip
  simp only
  split <;> rfl

/-- Stepping over damage takes its reach off the stream. -/
theorem pending_skip {r : FrameReader} {e : FrameError} (hdiscard : r.discard = 0)
    (hdecode : Frame.decode r.limit r.buffer = .error e) :
    r.skip.1 = reach r.limit r.pending e ∧
      r.skip.2.pending = r.pending.drop (reach r.limit r.pending e) := by
  have hpending := pending_of_discard hdiscard
  have hreach : reach r.limit r.pending e = r.skipLength := by
    unfold reach skipLength
    simp only
    rw [hpending, Frame.declaredLength?_append_of_error hdecode]
  rw [hreach, hpending]
  unfold skip
  simp only
  split
  · rename_i hshort
    refine ⟨rfl, ?_⟩
    unfold pending
    simp only
    rw [List.nil_append, List.drop_append, List.drop_eq_nil_of_le (Nat.le_of_lt hshort),
      List.nil_append]
  · rename_i hlong
    refine ⟨rfl, ?_⟩
    unfold pending
    simp only
    rw [hdiscard, List.drop_zero, List.drop_append_of_le_length (Nat.le_of_not_lt hlong)]

/-! ## Reading to the end -/

/-- Induction on the reads that are left. -/
theorem read_induction {P : FrameReader → Prop}
    (hframe : ∀ r frame r', r.read = (.ok frame, r') → P r' → P r)
    (hdamage : ∀ r e r', r.read = (.error e, r') → e.isDamage = true → P r'.skip.2 → P r)
    (hfault : ∀ r cause r', r.read = (.error (.io cause), r') → P r' → P r)
    (hclosed : ∀ r r', r.read = (.error .connectionClosed, r') → P r) (r : FrameReader) : P r := by
  induction hweight : r.weight using Nat.strongRecOn generalizing r with
  | ind n ih =>
    subst hweight
    have hconsumes := r.consumes_read
    cases hread : r.read with
    | mk result r' =>
      rw [hread] at hconsumes
      cases result with
      | ok frame => exact hframe r frame r' hread (ih _ hconsumes _ rfl)
      | error e =>
        by_cases he : e.isDamage = true
        · obtain ⟨hle, hpos⟩ := hconsumes.pos_of_isDamage he
          have hlt := Nat.lt_of_lt_of_le (weight_skip_lt hpos) hle
          exact hdamage r e r' hread he (ih _ hlt _ rfl)
        · cases e with
          | io cause => exact hfault r cause r' hread (ih _ hconsumes _ rfl)
          | connectionClosed => exact hclosed r r' hread
          | _ => exact absurd rfl he

theorem eventsOnto_of_frame {r r' : FrameReader} {frame : Frame}
    (h : r.read = (.ok frame, r')) (past : List StreamEvent) :
    r.eventsOnto past = r'.eventsOnto (.frame frame :: past) := by
  rw [eventsOnto]
  split
  · rename_i heq
    obtain ⟨hframe, rfl⟩ := Prod.mk.inj (h.symm.trans heq)
    obtain rfl := Except.ok.inj hframe
    rfl
  · rename_i heq
    exact absurd (h.symm.trans heq) (by simp)

theorem eventsOnto_of_damage {r r' : FrameReader} {e : FrameError}
    (h : r.read = (.error e, r')) (he : e.isDamage = true) (past : List StreamEvent) :
    r.eventsOnto past = r'.skip.2.eventsOnto (.damage e r'.skip.1 :: past) := by
  rw [eventsOnto]
  split
  · rename_i heq
    exact absurd (h.symm.trans heq) (by simp)
  · rename_i heq
    obtain ⟨hcause, rfl⟩ := Prod.mk.inj (h.symm.trans heq)
    obtain rfl := Except.error.inj hcause
    rw [dif_pos he]

theorem eventsOnto_of_fault {r r' : FrameReader} {cause : IoFault}
    (h : r.read = (.error (.io cause), r')) (past : List StreamEvent) :
    r.eventsOnto past = r'.eventsOnto (.fault cause :: past) := by
  rw [eventsOnto]
  split
  · rename_i heq
    exact absurd (h.symm.trans heq) (by simp)
  · rename_i heq
    obtain ⟨hcause, rfl⟩ := Prod.mk.inj (h.symm.trans heq)
    obtain rfl := Except.error.inj hcause
    rfl

theorem eventsOnto_of_closed {r r' : FrameReader}
    (h : r.read = (.error .connectionClosed, r')) (past : List StreamEvent) :
    r.eventsOnto past = (past, r') := by
  rw [eventsOnto]
  split
  · rename_i heq
    exact absurd (h.symm.trans heq) (by simp)
  · rename_i heq
    obtain ⟨hcause, rfl⟩ := Prod.mk.inj (h.symm.trans heq)
    obtain rfl := Except.error.inj hcause
    rfl

/-- What was met before stays behind what is met now. -/
theorem eventsOnto_eq (r : FrameReader) :
    ∀ past, r.eventsOnto past = (r.events.1.reverse ++ past, r.events.2) := by
  have hevents : ∀ s : FrameReader,
      s.events = ((s.eventsOnto []).1.reverse, (s.eventsOnto []).2) := fun _ => rfl
  induction r using read_induction with
  | hframe r frame r' hread ih =>
    intro past
    rw [hevents, eventsOnto_of_frame hread, eventsOnto_of_frame hread, ih, ih]
    simp
  | hdamage r e r' hread he ih =>
    intro past
    rw [hevents, eventsOnto_of_damage hread he, eventsOnto_of_damage hread he, ih, ih]
    simp
  | hfault r cause r' hread ih =>
    intro past
    rw [hevents, eventsOnto_of_fault hread, eventsOnto_of_fault hread, ih, ih]
    simp
  | hclosed r r' hread =>
    intro past
    rw [hevents, eventsOnto_of_closed hread, eventsOnto_of_closed hread]
    simp

theorem events_of_frame {r r' : FrameReader} {frame : Frame} (h : r.read = (.ok frame, r')) :
    r.events = (.frame frame :: r'.events.1, r'.events.2) := by
  rw [events, eventsOnto_of_frame h, eventsOnto_eq]
  simp

theorem events_of_damage {r r' : FrameReader} {e : FrameError} (h : r.read = (.error e, r'))
    (he : e.isDamage = true) :
    r.events = (.damage e r'.skip.1 :: r'.skip.2.events.1, r'.skip.2.events.2) := by
  rw [events, eventsOnto_of_damage h he, eventsOnto_eq]
  simp

theorem events_of_fault {r r' : FrameReader} {cause : IoFault}
    (h : r.read = (.error (.io cause), r')) :
    r.events = (.fault cause :: r'.events.1, r'.events.2) := by
  rw [events, eventsOnto_of_fault h, eventsOnto_eq]
  simp

theorem events_of_closed {r r' : FrameReader} (h : r.read = (.error .connectionClosed, r')) :
    r.events = ([], r') := by
  rw [events, eventsOnto_of_closed h]
  rfl

/-- What a reader meets in its stream: its events less the failed reads. -/
def met (r : FrameReader) : List StreamEvent :=
  r.events.1.filter fun event => event.fault?.isNone

/-- What a reader meets is the reading of the stream in front of it, and what
is left of the stream is what it has buffered. -/
theorem reading_met (r : FrameReader) (hopen : r.source.Open) :
    Reading r.limit (reach r.limit) r.pending r.met r.events.2.buffer := by
  unfold met
  induction r using read_induction with
  | hframe r frame r' hread ih =>
    have houtcome := r.outcome_read hopen
    rw [hread] at houtcome
    cases houtcome with
    | frame _ _ hlimit hopen' hdecode =>
      have htail := ih hopen'
      rw [hlimit] at htail
      rw [events_of_frame hread, List.filter_cons_of_pos rfl]
      exact .frame hdecode htail
  | hdamage r e r' hread he ih =>
    have houtcome := r.outcome_read hopen
    rw [hread] at houtcome
    cases houtcome with
    | damage _ _ hlimit hopen' hdiscard hpending hdecode _ =>
      rw [← hlimit] at hdecode
      obtain ⟨hlength, hrest⟩ := pending_skip hdiscard hdecode
      have hopen'' : r'.skip.2.source.Open := by
        rw [source_skip]
        exact hopen'
      have htail := ih hopen''
      rw [limit_skip, hlimit, hrest, hlimit, hpending] at htail
      rw [events_of_damage hread he, List.filter_cons_of_pos rfl, hlength, hlimit, hpending]
      refine .damage ?_ htail
      rw [← hpending, pending_of_discard hdiscard, ← hlimit]
      exact Frame.decode_append_of_error hdecode _
    | fault _ _ _ _ _ => exact absurd he Bool.false_ne_true
    | closed _ _ _ => exact absurd he Bool.false_ne_true
  | hfault r cause r' hread ih =>
    have houtcome := r.outcome_read hopen
    rw [hread] at houtcome
    cases houtcome with
    | damage _ _ _ _ _ _ _ he => exact absurd he Bool.false_ne_true
    | fault _ _ hlimit hopen' hpending =>
      have htail := ih hopen'
      rw [hlimit, hpending] at htail
      rw [events_of_fault hread, List.filter_cons_of_neg (by simp [StreamEvent.fault?])]
      exact htail
  | hclosed r r' hread =>
    have houtcome := r.outcome_read hopen
    rw [hread] at houtcome
    cases houtcome with
    | damage _ _ _ _ _ _ _ he => exact absurd he Bool.false_ne_true
    | closed _ hbuffer hdecode =>
      rw [events_of_closed hread, List.filter_nil, hbuffer]
      exact .stop hdecode

end FrameReader

end HeadUnitLink
