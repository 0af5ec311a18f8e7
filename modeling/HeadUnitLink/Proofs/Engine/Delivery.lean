import HeadUnitLink.Proofs.Engine.Transcript
import HeadUnitLink.Proofs.Lists
import HeadUnitLink.Proofs.Receiver.Chunks

/-!
# From one engine to another

What one engine sends, another engine delivers.  The argument follows the
bytes of one session and service, a key, at a time.

* `Batch.Carries.arrival` reads the frames of a parcel off its batch.
* `onKeyAll_batches` takes in all batches of a key one after the other: the
  messages come out in order and without a complaint.
* `Transcript.Recorded.lane` finds these batches again among the frames that
  the pool has handed over, in whatever mix.
* `Transcript.receives_of_run` is the result for every run.
-/

namespace HeadUnitLink

/-- A message that was sent under an id, as it arrives. -/
def Message.arrived (sent : Message × UInt32) : Message :=
  sent.1.assembled (sent.1.arrivalId sent.2)

/-- A receiver with this limit has room for the message in a parcel. -/
def Parcel.Fits (limit : Nat) : Parcel → Prop
  | message m _ => m.wirePayload.length ≤ limit
  | request _ => True

/-- The message that arrives with a parcel. -/
def Parcel.arrived? (p : Parcel) : Option Message := p.sent?.map Message.arrived

variable {limit maxDataSize : Nat} {b : Batch} {p : Parcel}

/-! ## One parcel -/

theorem Parcel.key_of_frames {frames : List Frame} (hframes : p.frames maxDataSize = .ok frames)
    {frame : Frame} (hframe : frame ∈ frames) : frame.header.key = p.key := by
  cases p with
  | message m messageId => exact Message.key_fragment hframes frame hframe
  | request asked =>
    obtain rfl := Except.ok.inj hframes
    rw [List.mem_singleton.1 hframe]
    rfl

/-- The frames of a parcel can be read, and change no session where they
arrive. -/
theorem Parcel.Proper.frame (hp : p.Proper) (hfits : p.Fits limit)
    (hroom : firstPayloadSize ≤ limit) {frames : List Frame}
    (hframes : p.frames maxDataSize = .ok frames) {frame : Frame} (hframe : frame ∈ frames) :
    frame.header.Readable ∧ frame.Quiet ∧ frame.payload.length ≤ limit := by
  cases p with
  | message m messageId =>
    obtain ⟨hdata, hlength⟩ := Message.frame_of_fragment hframes hframe
    refine ⟨fun hcontrol => absurd hcontrol hdata, fun kind hkind => ?_, ?_⟩
    · unfold Header.controlKind? at hkind
      rw [if_neg hdata] at hkind
      exact absurd hkind (by simp)
    · have hmessage : m.wirePayload.length ≤ limit := hfits
      omega
  | request asked =>
    obtain rfl := Except.ok.inj hframes
    obtain rfl := List.mem_singleton.1 hframe
    have hasks : frame.Asks := hp
    have hshort := hasks.short
    exact ⟨hasks.readable, hasks.quiet, by omega⟩

theorem map_arrival {frames : List Frame} {encoded : List Bytes}
    (hencode : frames.map Frame.encode = encoded.map .ok)
    (hread : ∀ frame ∈ frames, frame.header.Readable ∧ frame.payload.length ≤ limit) :
    encoded.map (Frame.arrival? limit) = (frames.map Frame.received).map some := by
  induction frames generalizing encoded with
  | nil =>
    obtain rfl := List.map_eq_nil_iff.1 hencode.symm
    rfl
  | cons frame rest ih =>
    cases encoded with
    | nil => exact absurd hencode (by simp)
    | cons bytes more =>
      rw [List.map_cons, List.map_cons] at hencode
      obtain ⟨hfirst, hrest⟩ := List.cons.inj hencode
      obtain ⟨hreadable, hlength⟩ := hread frame List.mem_cons_self
      rw [List.map_cons, List.map_cons, List.map_cons,
        Frame.arrival?_of_encode hfirst hreadable hlength,
        ih hrest fun other hother => hread other (List.mem_cons_of_mem _ hother)]

/-- The frames of a parcel arrive from the bytes of its batch. -/
theorem Batch.Carries.arrival (hc : b.Carries maxDataSize p) (hfits : p.Fits limit)
    (hroom : firstPayloadSize ≤ limit) :
    ∃ frames, p.frames maxDataSize = .ok frames ∧
      b.frames.map (Frame.arrival? limit) = (frames.map Frame.received).map some := by
  obtain ⟨frames, hframes, hencode⟩ := hc.encoded
  refine ⟨frames, hframes, map_arrival hencode fun frame hframe => ?_⟩
  obtain ⟨hreadable, _, hlength⟩ := hc.proper.frame hfits hroom hframes hframe
  exact ⟨hreadable, hlength⟩

theorem Batch.Carries.filterMap_arrival (hc : b.Carries maxDataSize p) (hfits : p.Fits limit)
    (hroom : firstPayloadSize ≤ limit) :
    ∃ frames, p.frames maxDataSize = .ok frames ∧
      b.frames.filterMap (Frame.arrival? limit) = frames.map Frame.received := by
  obtain ⟨frames, hframes, harrival⟩ := hc.arrival hfits hroom
  refine ⟨frames, hframes, ?_⟩
  have hsome := congrArg (List.filterMap id) harrival
  rw [List.filterMap_map, List.filterMap_map] at hsome
  simpa using hsome

/-- A frame arrives from the bytes of each job of a batch. -/
theorem Batch.Carries.job (hc : b.Carries maxDataSize p) (hfits : p.Fits limit)
    (hroom : firstPayloadSize ≤ limit) {job : Job} (hjob : job ∈ b.jobs) :
    ∃ frame, Frame.arrival? limit job.bytes = some frame ∧ frame.header.key = p.key ∧
      frame.Quiet := by
  obtain ⟨frames, hframes, harrival⟩ := hc.arrival hfits hroom
  have hbytes : job.bytes ∈ b.frames := by
    rw [← b.map_bytes_jobs]
    exact List.mem_map_of_mem hjob
  have hmem := List.mem_map_of_mem (f := Frame.arrival? limit) hbytes
  rw [harrival, List.map_map] at hmem
  obtain ⟨frame, hframe, heq⟩ := List.mem_map.1 hmem
  obtain ⟨_, hquiet, _⟩ := hc.proper.frame hfits hroom hframes hframe
  have hkey := Parcel.key_of_frames hframes hframe
  exact ⟨frame.received, heq.symm, hkey, hquiet⟩

/-- What comes of a parcel on its key while no message is under way: its
message, if it has one, and no complaint. -/
theorem Parcel.onKeyAll_received (hp : p.Proper) (hfits : p.Fits limit) {frames : List Frame}
    (hframes : p.frames maxDataSize = .ok frames) :
    (Assembler.onKeyAll limit none (frames.map Frame.received)).2 = none ∧
      (Assembler.onKeyAll limit none (frames.map Frame.received)).1.filterMap
          Assembler.delivered? = p.arrived?.toList ∧
      ∀ result ∈ (Assembler.onKeyAll limit none (frames.map Frame.received)).1,
        Assembler.IsSmooth result := by
  cases p with
  | message m messageId =>
    have hreceived := Message.received_fragment hframes
    rw [Message.onKeyAll_fragment hreceived hfits none]
    refine ⟨rfl, ?_, fun result hresult => ?_⟩
    · rw [List.filterMap_append]
      have hpending : (List.replicate ((frames.map Frame.received).length - 1)
          (.ok .pending : Except LinkError Assembled)).filterMap Assembler.delivered? = [] :=
        List.filterMap_eq_nil_iff.2 fun result hresult => by
          rw [(List.mem_replicate.1 hresult).2]
          rfl
      rw [hpending]
      rfl
    · rcases List.mem_append.1 hresult with hpending | hlast
      · rw [(List.mem_replicate.1 hpending).2]
        trivial
      · rw [List.mem_singleton.1 hlast]
        trivial
  | request asked =>
    obtain rfl := Except.ok.inj hframes
    have hasks : asked.Asks := hp
    have hcontrol : Assembler.onKey limit none asked.received =
        (.ok (.control asked.received), none) := by
      unfold Assembler.onKey
      have htype : asked.received.header.frameType = .control := hasks.control
      rw [htype]
    rw [List.map_singleton, Assembler.onKeyAll, hcontrol]
    refine ⟨rfl, rfl, fun result hresult => ?_⟩
    rw [Assembler.onKeyAll, List.mem_singleton] at hresult
    rw [hresult]
    trivial

/-! ## All parcels of a key -/

/-- The parcels of a key, one after the other, bring their messages in
order. -/
theorem onKeyAll_batches (packed : List (Batch × Parcel))
    (hcarries : ∀ entry ∈ packed, entry.1.Carries maxDataSize entry.2)
    (hfits : ∀ entry ∈ packed, entry.2.Fits limit) (hroom : firstPayloadSize ≤ limit) :
    let outcome := Assembler.onKeyAll limit none
      (packed.flatMap fun entry => entry.1.frames.filterMap (Frame.arrival? limit))
    outcome.2 = none ∧
      outcome.1.filterMap Assembler.delivered? = packed.filterMap (fun entry => entry.2.arrived?) ∧
      ∀ result ∈ outcome.1, Assembler.IsSmooth result := by
  induction packed with
  | nil => exact ⟨rfl, rfl, fun _ hresult => absurd hresult List.not_mem_nil⟩
  | cons entry rest ih =>
    have hc := hcarries entry List.mem_cons_self
    have hfit := hfits entry List.mem_cons_self
    obtain ⟨frames, hframes, harrival⟩ := hc.filterMap_arrival hfit hroom
    obtain ⟨hclosed, hmessage, hsmooth⟩ := Parcel.onKeyAll_received hc.proper hfit hframes
    obtain ⟨hrestClosed, hrestMessages, hrestSmooth⟩ :=
      ih (fun other hother => hcarries other (List.mem_cons_of_mem _ hother))
        fun other hother => hfits other (List.mem_cons_of_mem _ hother)
    simp only
    rw [List.flatMap_cons, harrival, Assembler.onKeyAll_append, hclosed]
    refine ⟨hrestClosed, ?_, fun result hresult => ?_⟩
    · rw [List.filterMap_append, hmessage, hrestMessages, List.filterMap_cons]
      cases entry.2.arrived? <;> rfl
    · rcases List.mem_append.1 hresult with hnow | hlater
      · exact hsmooth result hnow
      · exact hrestSmooth result hlater

/-! ## All keys at once -/

theorem Service.eq_of_priority {s s' : Service} (h : s.priority = s'.priority) : s = s' := by
  have hbyte := congrArg Service.ofByte? h
  unfold Service.priority at hbyte
  rw [Service.ofByte?_toByte, Service.ofByte?_toByte] at hbyte
  exact Option.some.inj hbyte

/-- A batch is on the lane of its key. -/
theorem Batch.Carries.onLane_iff (hc : b.Carries maxDataSize p) (key : MessageKey) :
    b.onLane key.session key.service.priority = true ↔ p.key = key := by
  rw [Batch.onLane_iff, hc.session_eq, hc.priority_eq]
  constructor
  · rintro ⟨hsession, hpriority⟩
    have hservice := Service.eq_of_priority hpriority
    obtain ⟨session, service⟩ := key
    exact congrArg₂ MessageKey.mk hsession hservice
  · rintro rfl
    exact ⟨rfl, rfl⟩

/-- A parcel and its message have the same key. -/
theorem Parcel.key_of_arrived {m : Message} (h : p.arrived? = some m) : m.key = p.key := by
  cases p with
  | message sent messageId =>
    obtain rfl := Option.some.inj h
    rfl
  | request frame => exact absurd h (by simp [Parcel.arrived?, Parcel.sent?])

/-- A fresh receiver that is given whole frames tells of them one by one. -/
theorem Receiver.receive_stream {config : Config} {stream : List Bytes} {frames : List Frame}
    (harrive : stream.map (Frame.arrival? config.maxMessageSize) = frames.map some) :
    ((ofConfig config).receive config stream.flatten).2 =
      (routeAll config (ofConfig config) frames).2 := by
  have hfeed : (ofConfig config).feed stream.flatten =
      { ofConfig config with buffer := stream.flatten, discard := 0, resyncing := false } :=
    feed_of_discard rfl stream.flatten
  unfold receive
  rw [hfeed, drain_stream harrive]

namespace Transcript

variable {t : Transcript} {h : History} {packed : List (Batch × Parcel)}

/-- The frames that a pool has handed over, as they arrive. -/
def arriving (limit : Nat) (h : History) : List Frame :=
  h.handed.filterMap fun job => Frame.arrival? limit job.bytes

/-- Every job that was handed over belongs to a parcel. -/
theorem Recorded.exists_of_handed (hr : Recorded t h packed) {job : Job} (hjob : job ∈ h.handed) :
    ∃ entry ∈ packed, job ∈ entry.1.jobs := by
  have hmem := hr.orderly.kept.mem_jobs_of_handed hjob
  unfold History.jobs at hmem
  rw [hr.accepted_eq] at hmem
  obtain ⟨b, hb, hin⟩ := List.mem_flatMap.1 hmem
  obtain ⟨entry, hentry, rfl⟩ := List.mem_map.1 hb
  exact ⟨entry, hentry, hin⟩

/-- All that was handed over arrives, and changes no session where it does. -/
theorem Recorded.map_arriving (hr : Recorded t h packed)
    (hfits : ∀ entry ∈ packed, entry.2.Fits limit) (hroom : firstPayloadSize ≤ limit) :
    (h.handed.map Job.bytes).map (Frame.arrival? limit) = (arriving limit h).map some ∧
      ∀ frame ∈ arriving limit h, frame.Quiet := by
  have harrive : ∀ job ∈ h.handed,
      ∃ frame, Frame.arrival? limit job.bytes = some frame ∧ frame.Quiet := by
    intro job hjob
    obtain ⟨entry, hentry, hin⟩ := hr.exists_of_handed hjob
    obtain ⟨frame, hframe, _, hquiet⟩ :=
      (hr.carries entry hentry).job (hfits entry hentry) hroom hin
    exact ⟨frame, hframe, hquiet⟩
  unfold arriving
  generalize h.handed = handed at harrive
  induction handed with
  | nil => exact ⟨rfl, fun _ hframe => absurd hframe List.not_mem_nil⟩
  | cons job rest ih =>
    obtain ⟨frame, hframe, hquiet⟩ := harrive job List.mem_cons_self
    obtain ⟨hmap, hrest⟩ := ih fun other hother => harrive other (List.mem_cons_of_mem _ hother)
    rw [List.filterMap_cons, hframe, List.map_cons, List.map_cons, hframe, hmap]
    refine ⟨rfl, fun other hother => ?_⟩
    rcases List.mem_cons.1 hother with rfl | hmore
    · exact hquiet
    · exact hrest other hmore

/-- In whatever mix the frames arrive, those of one key are the frames of its
parcels in the order of submission. -/
theorem Recorded.lane (hr : Recorded t h packed) (hidle : h.pool.queue.isIdle = true)
    (hfits : ∀ entry ∈ packed, entry.2.Fits limit) (hroom : firstPayloadSize ≤ limit)
    (key : MessageKey) :
    ((arriving limit h).filter fun frame => frame.header.key = key) =
      (packed.filter fun entry => entry.2.key = key).flatMap
        fun entry => entry.1.frames.filterMap (Frame.arrival? limit) := by
  have hjob : ∀ job ∈ h.handed, ∀ frame, Frame.arrival? limit job.bytes = some frame →
      decide (frame.header.key = key) = Queue.onLane key.session key.service.priority job := by
    intro job hjob frame hframe
    obtain ⟨entry, hentry, hin⟩ := hr.exists_of_handed hjob
    have hc := hr.carries entry hentry
    obtain ⟨found, hfound, hkey, _⟩ := hc.job (hfits entry hentry) hroom hin
    obtain rfl := Option.some.inj (hfound.symm.trans hframe)
    rw [hkey, Bool.eq_iff_iff, decide_eq_true_iff, ← hc.onLane_iff, Batch.onLane_iff,
      Queue.onLane_iff, Batch.session_of_mem hin, Batch.priority_of_mem hin]
  have hentries : (h.accepted.filter (Batch.onLane key.session key.service.priority)) =
      (packed.filter fun entry => entry.2.key = key).map Prod.fst := by
    rw [hr.accepted_eq, List.filter_map]
    refine congrArg (List.map Prod.fst) (List.filter_congr fun entry hentry => ?_)
    rw [Bool.eq_iff_iff, decide_eq_true_iff]
    exact (hr.carries entry hentry).onLane_iff key
  unfold arriving
  rw [filter_filterMap_of hjob, hr.orderly.filter_handed_of_isIdle hidle, hentries,
    List.flatMap_map, List.filterMap_flatMap]
  refine List.flatMap_congr fun entry _ => ?_
  rw [← entry.1.map_bytes_jobs, List.filterMap_map]
  rfl

/-- The messages that were sent, by key. -/
theorem Recorded.arrived_eq (hr : Recorded t h packed) (key : MessageKey) :
    ((packed.filter fun entry => entry.2.key = key).filterMap fun entry => entry.2.arrived?) =
      (t.sent.map Message.arrived).filter fun m => m.key = key := by
  have hkey : ∀ entry ∈ packed, ∀ m, entry.2.arrived? = some m →
      decide (m.key = key) = decide (entry.2.key = key) := by
    intro entry _ m hm
    rw [Parcel.key_of_arrived hm]
  rw [hr.sent_eq, List.map_filterMap, ← filter_filterMap_of hkey]
  rfl

/-- A fresh receiver takes in what an idle pool has handed over: no complaint,
and the messages of every key in order. -/
theorem Recorded.receive (hr : Recorded t h packed) (hidle : h.pool.queue.isIdle = true)
    {config : Config} (hfits : ∀ entry ∈ packed, entry.2.Fits config.maxMessageSize)
    (hroom : firstPayloadSize ≤ config.maxMessageSize) :
    let notices := ((Receiver.ofConfig config).receive config t.wire).2
    (∀ notice ∈ notices, notice.IsCalm) ∧
      ∀ key, ((notices.filterMap Notice.message?).filter fun m => m.key = key) =
        (t.sent.map Message.arrived).filter fun m => m.key = key := by
  obtain ⟨hmap, hquiet⟩ := hr.map_arriving hfits hroom
  have hnotices : ((Receiver.ofConfig config).receive config t.wire).2 =
      (Receiver.routeAll config (Receiver.ofConfig config)
        (arriving config.maxMessageSize h)).2 := by
    rw [hr.wire_eq]
    exact Receiver.receive_stream hmap
  obtain ⟨hmessages, hcalm⟩ :=
    Receiver.routeAll_of_quiet hquiet config (Receiver.ofConfig config)
  have hlane := fun key => onKeyAll_batches (packed.filter fun entry => entry.2.key = key)
    (fun entry hentry => hr.carries entry (List.mem_of_mem_filter hentry))
    (fun entry hentry => hfits entry (List.mem_of_mem_filter hentry)) hroom
  simp only
  rw [hnotices]
  refine ⟨hcalm fun result hresult => ?_, fun key => ?_⟩
  · obtain ⟨key, hmem⟩ := Assembler.exists_key_of_mem_handleAll hresult
    rw [hr.lane hidle hfits hroom] at hmem
    exact (hlane key).2.2 result hmem
  · rw [hmessages, Assembler.filter_delivered_handleAll, hr.lane hidle hfits hroom,
      ← hr.arrived_eq key]
    exact (hlane key).2.1

/-- What a receiver tells when all that was sent has come through. -/
structure Receives (t : Transcript) (notices : List Notice) : Prop where
  /-- It reports no error. -/
  calm : ∀ stage cause, .error stage cause ∉ notices
  /-- It delivers every message that was sent once, and nothing else. -/
  once : (notices.filterMap Notice.message?).Perm (t.sent.map Message.arrived)
  /-- The messages of a session and service come in the order in which they
  were sent. -/
  inOrder : ∀ key, ((notices.filterMap Notice.message?).filter fun m => m.key = key) =
    (t.sent.map Message.arrived).filter fun m => m.key = key

/-- Two fresh engines, and requests to the first in any order, between any two
steps of its workers: when its queue is idle again, the second one makes of its
bytes, in chunks of any size, the messages that were sent.  The transport must
not fail, and the second engine must have room for the messages and for an
announcement. -/
theorem receives_of_run {sender receiver : Config} {a b : Engine} {events : List EngineEvent}
    {t : Transcript} {chunks : List Bytes} (ha : Engine.ofConfig sender = .ok a)
    (hb : Engine.ofConfig receiver = .ok b)
    (hsink : ∀ job, .worker (.handOver job true) ∉ events)
    (hrun : (start a).run events = some t)
    (hidle : t.engine.outlet.pool.queue.isIdle = true)
    (hroom : firstPayloadSize ≤ receiver.maxMessageSize)
    (hfits : ∀ sent ∈ t.sent, sent.1.wirePayload.length ≤ receiver.maxMessageSize)
    (hchunks : chunks.flatten = t.wire) : t.Receives (b.receiveAll chunks).2 := by
  obtain ⟨h, packed, hr⟩ := (recorded_start ha).run hsink hrun
  have hparcels : ∀ entry ∈ packed, entry.2.Fits receiver.maxMessageSize := by
    intro entry hentry
    cases hp : entry.2 with
    | request frame => trivial
    | message m messageId =>
      refine hfits (m, messageId) ?_
      rw [hr.sent_eq]
      refine List.mem_filterMap.2 ⟨entry, hentry, ?_⟩
      rw [hp]
      rfl
  rw [← hr.pool_eq] at hidle
  obtain ⟨hcalm, hmessages⟩ := hr.receive hidle hparcels hroom
  have hnotices : (b.receiveAll chunks).2 =
      ((Receiver.ofConfig receiver).receive receiver t.wire).2 := by
    rw [(Engine.settled_ofConfig hb).receiveAll, hchunks]
    obtain ⟨_, rfl⟩ := Engine.ofConfig_eq_ok hb
    rfl
  rw [hnotices]
  refine ⟨fun stage cause herror => hcalm _ herror, ?_, hmessages⟩
  exact perm_of_filter_eq Message.key hmessages

/-- Two messages and a heartbeat, which overtakes them; one worker serves all
three. -/
def overtaken : List EngineEvent :=
  let job (number : Nat) (priority : UInt8) (bytes : Bytes) : Job :=
    { priority, sequence := number, batch := number, session := 1, bytes, opensBatch := false
      closesBatch := false }
  let serve (job : Job) : List EngineEvent :=
    [.worker .claim, .worker (.handOver job false), .worker (.complete job)]
  [.send (Message.plain .rpc 1 3 [10, 20]), .send (Message.plain .nav 1 2 [30]), .heartbeat 1] ++
    serve (job 2 0 [0x10, 0, 0, 1, 0, 0, 0, 0]) ++
    serve (job 0 7 [0x31, 7, 0, 1, 0, 0, 0, 2, 0, 0, 0, 1, 10, 20]) ++
    serve (job 1 11 [0x21, 11, 0, 1, 0, 0, 0, 1, 30])

/-- The chunks are cut inside a header, and the message of version 2 arrives
without its id. -/
theorem receives_of_run_overtaken :
    ∃ a t, Engine.ofConfig Config.default = .ok a ∧
      (∀ job, .worker (.handOver job true) ∉ overtaken) ∧
      (start a).run overtaken = some t ∧
      t.engine.outlet.pool.queue.isIdle = true ∧
      firstPayloadSize ≤ Config.default.maxMessageSize ∧
      t.sent.map Message.arrived =
        [{ Message.plain .rpc 1 3 [10, 20] with messageId := 1 }, Message.plain .nav 1 2 [30]] ∧
      t.Receives (a.receiveAll [t.wire.take 9, t.wire.drop 9]).2 := by
  let a : Engine :=
    { config := Config.default, receiver := Receiver.ofConfig Config.default
      outlet := Outlet.ofWorkers Config.default.workers, nextMessageId := 1 }
  have ha : Engine.ofConfig Config.default = .ok a := rfl
  have hsink : ∀ job, .worker (.handOver job true) ∉ overtaken := by
    intro job hjob
    simp [overtaken] at hjob
  have hroom : firstPayloadSize ≤ Config.default.maxMessageSize := by decide
  obtain ⟨t, hrun, hcheck⟩ : ∃ t, (start a).run overtaken = some t ∧
      (t.engine.outlet.pool.queue.isIdle && t.sent =
        [(Message.plain .rpc 1 3 [10, 20], 1), (Message.plain .nav 1 2 [30], 2)]) = true :=
    (Option.any_eq_true ..).1 (by decide +kernel)
  obtain ⟨hidle, hsent⟩ := Bool.and_eq_true_iff.1 hcheck
  have hsent' := of_decide_eq_true hsent
  have hfits : ∀ sent ∈ t.sent, sent.1.wirePayload.length ≤ Config.default.maxMessageSize := by
    rw [hsent']
    decide
  have hchunks : [t.wire.take 9, t.wire.drop 9].flatten = t.wire := by simp
  refine ⟨a, t, ha, hsink, hrun, hidle, hroom, ?_,
    receives_of_run ha ha hsink hrun hidle hroom hfits hchunks⟩
  rw [hsent']
  rfl

end Transcript

end HeadUnitLink
