import HeadUnitLink.Proofs.Engine.Reception
import HeadUnitLink.Proofs.Receiver.Accounting

/-!
# Which frames an engine takes in

The bytes of a run decide which frames an engine takes in.  How they are cut into
chunks makes no difference, nor do the requests between two chunks:
`Reception.frames_of_run`.  A frame whose bytes start where a frame is awaited is
taken in as it was sent: `Receiver.exists_framesOf_append`.
-/

namespace HeadUnitLink

/-- The bytes that an event brings. -/
def EngineEvent.bytes : EngineEvent → Bytes
  | .receive chunk => chunk
  | _ => []

namespace Receiver

variable {config : Config}

/-- The frames that a receiver takes in depend on the bytes alone. -/
theorem framesMet_congr {r r' : Receiver} (h : r.Aligned) (h' : r'.Aligned)
    (hbuffer : r.buffer = r'.buffer) : r.framesMet config = r'.framesMet config := by
  have hread := reading_met config r h
  have hread' := reading_met config r' h'
  rw [← hbuffer] at hread'
  unfold framesMet
  rw [(Reading.unique hread hread').1]

theorem framesMet_feed {r : Receiver} (h : r.Aligned) (more : Bytes) :
    (r.feed more).framesMet config =
      r.framesMet config ++ ((r.drain config).1.feed more).framesMet config := by
  unfold framesMet
  rw [met_feed r h, List.filterMap_append]

/-- The frames that a fresh receiver takes in of a stream. -/
def framesOf (config : Config) (stream : Bytes) : List Frame :=
  ((ofConfig config).feed stream).framesMet config

theorem framesOf_append (config : Config) (stream more : Bytes) :
    framesOf config (stream ++ more) = framesOf config stream ++
      ((receive config (ofConfig config) stream).1.feed more).framesMet config := by
  have haligned := (aligned_ofConfig config).feed stream
  unfold framesOf receive
  rw [← feed_feed, framesMet_feed haligned]

/-- Nothing is under way at a receiver: with the next byte a frame starts. -/
def AwaitsFrame (r : Receiver) : Prop := r.buffer = [] ∧ r.discard = 0

/-- A frame is taken in as it was sent if its bytes start where a frame is
awaited. -/
theorem exists_framesOf_append {stream bytes : Bytes} {f : Frame} (hencode : f.encode = .ok bytes)
    (hread : f.header.Readable) (hlimit : f.payload.length ≤ config.maxMessageSize)
    (hawaits : (receive config (ofConfig config) stream).1.AwaitsFrame) (more : Bytes) :
    ∃ after, framesOf config (stream ++ (bytes ++ more)) =
      framesOf config stream ++ f.received :: after := by
  rw [framesOf_append]
  obtain ⟨hbuffer, hdiscard⟩ := hawaits
  generalize (receive config (ofConfig config) stream).1 = r at hbuffer hdiscard
  have hfed : (r.feed (bytes ++ more)).buffer = bytes ++ more := by
    rw [feed_of_discard hdiscard, hbuffer, List.nil_append]
  have hdecode := Frame.decode_encode_append hencode hread hlimit more
  rw [← hfed] at hdecode
  exact ⟨_, congrArg _ (framesMet_of_frame (step_of_frame hdecode) hdecode)⟩

end Receiver

namespace Reception

variable {config : Config} {e : Engine} {t t' : Reception}

/-- A run takes in the frames of its bytes behind those of its start. -/
theorem frames_of_run_from (hreach : Engine.Reachable config t.engine) {events : List EngineEvent}
    (hrun : t.run events = some t') :
    t'.frames =
      t.frames ++ (t.engine.receiver.feed (events.flatMap EngineEvent.bytes)).framesMet config := by
  induction events generalizing t with
  | nil =>
    obtain rfl := Option.some.inj hrun
    have hstop := hreach.settled.stopped
    rw [hreach.config_eq] at hstop
    rw [List.flatMap_nil, Receiver.feed_nil, Receiver.framesMet_of_none hstop, List.append_nil]
  | cons event rest ih =>
    obtain ⟨next, hnext, hrest⟩ := Option.bind_eq_some_iff.1 hrun
    obtain ⟨e', he', rfl⟩ := Option.map_eq_some_iff.1 hnext
    have hlater := ih (hreach.step he') hrest
    have haligned := hreach.settled.aligned
    rw [hlater, List.append_assoc, List.flatMap_cons]
    refine congrArg _ ?_
    by_cases hevent : ∃ chunk, event = .receive chunk
    · obtain ⟨chunk, rfl⟩ := hevent
      obtain rfl := Option.some.inj he'
      rw [EngineEvent.bytes, ← Receiver.feed_feed, Receiver.framesMet_feed (haligned.feed chunk),
        ← hreach.config_eq]
      rfl
    · -- a request leaves the bytes alone that are still awaited
      obtain ⟨⟨version, hreceiver⟩, hheard, -⟩ :=
        quiet_of_ne_receive he' fun chunk heq => hevent ⟨chunk, heq⟩
      have hbytes : event.bytes = [] := by
        cases event with
        | receive chunk => exact absurd ⟨chunk, rfl⟩ hevent
        | _ => rfl
      rw [hheard, hbytes, List.nil_append, List.nil_append, hreceiver]
      exact Receiver.framesMet_congr (haligned.feed _) (haligned.feed _) rfl

/-- The frames of a run are those of its bytes, whatever chunks they come in and
whatever is asked of the engine in between. -/
theorem frames_of_run (he : Engine.ofConfig config = .ok e) {events : List EngineEvent}
    (hrun : (start e).run events = some t) :
    t.frames = Receiver.framesOf config (events.flatMap EngineEvent.bytes) := by
  have hframes := frames_of_run_from (.fresh he) hrun
  obtain ⟨-, rfl⟩ := Engine.ofConfig_eq_ok he
  exact hframes

end Reception

end HeadUnitLink
