import HeadUnitLink.Proofs.Dispatch.Shutdown
import HeadUnitLink.Proofs.Engine.Admission
import HeadUnitLink.Proofs.Engine.TransportUnit

/-!
# What requests come to

A request for a control frame is refused because its session has no number or
because the queue is shut down, and for no other reason: the version of an
engine always has a layout.  What is accepted leaves the engine as whole frames,
one in each byte string, for the session and the service that were asked for.

* `Frame.Whole` is one such byte string, and `Engine.request_of_encode` is the
  answer to a request whose frame can be written.
* `Engine.step_outcome` says what an event does to the queue.  `Requests` is an
  engine with a record of what it has accepted, and `Requests.Packed` ties the
  record to the batches of the queue.
* `Requests.sound_of_run` is the result.
-/

namespace HeadUnitLink

/-! ## Whole frames -/

/-- The bytes are one frame of this session and service and of a version that is
spoken, and nothing else. -/
def Frame.Whole (config : Config) (key : MessageKey) (bytes : Bytes) : Prop :=
  ∃ frame : Frame, frame.header.key = key ∧ config.Spoken frame.header.version ∧
    ∀ limit, frame.payload.length ≤ limit → Frame.decode limit bytes = .ok (some (frame, []))

theorem Frame.whole_of_encode {config : Config} {frame : Frame} {bytes : Bytes}
    (hencode : frame.encode = .ok bytes) (hread : frame.header.Readable)
    (hversion : config.Spoken frame.header.version) :
    Frame.Whole config frame.header.key bytes := by
  refine ⟨frame.received, rfl, hversion, fun limit hlimit => ?_⟩
  have hdecode := Frame.decode_encode_append hencode hread hlimit []
  rwa [List.append_nil] at hdecode

/-- The versions that are spoken have a layout. -/
theorem Config.Spoken.headerSize? {config : Config} (hconfig : config.fault? = none)
    {version : UInt8} (h : config.Spoken version) :
    ∃ size, HeadUnitLink.headerSize? version = some size := by
  obtain ⟨_, _, hmax⟩ := Config.fault?_eq_none hconfig
  exact exists_headerSize?_iff.2 ⟨h.1, UInt8.le_trans h.2 hmax⟩

theorem Header.checked_eq {h : Header} {size : Nat} (hsize : headerSize? h.version = some size) :
    h.checked = .ok h := by
  unfold checked
  rw [headerSize_eq_ok_iff.2 hsize]

namespace Engine

variable {config : Config} {e e' : Engine} {size : Nat}

/-! ## The answer to a request -/

/-- The answer to everything that has nothing wrong with itself. -/
def admission (e : Engine) : Except LinkError Unit :=
  if e.outlet.pool.queue.isShutdown then .error .shutdown else .ok ()

/-- A queue that is shut down refuses every batch of frames. -/
theorem submit_of_isShutdown {frames : List Frame} {encoded : List Bytes}
    (hencoded : encodeEach frames = .ok encoded) (hne : encoded ≠ [])
    (hshut : e.outlet.pool.queue.isShutdown = true) (service : Service) (session : UInt8) :
    e.submit service session frames = .error .shutdown := by
  unfold submit Outlet.submit
  simp only [hencoded, Pool.submit_of_isShutdown hshut session service.priority hne]
  rfl

/-- A frame that can be written is queued, unless the queue is shut down. -/
theorem request_of_encode {frame : Frame} {bytes : Bytes} (hencode : frame.encode = .ok bytes)
    (service : Service) (session : UInt8) :
    (e.request service session (.ok frame)).1 = e.admission := by
  have hencoded : encodeEach [frame] = .ok [bytes] := by
    rw [encodeEach_eq_ok_iff, List.map_singleton, hencode, List.map_singleton]
  unfold admission request
  cases hshut : e.outlet.pool.queue.isShutdown with
  | false =>
    obtain ⟨next, hsubmit, -⟩ :=
      submit_queues hencoded (List.cons_ne_nil _ _) hshut service session
    simp only [hsubmit]
    rfl
  | true =>
    simp only [submit_of_isShutdown hencoded (List.cons_ne_nil _ _) hshut service session]
    rfl

/-! ## Control frames -/

/-- The frame of a request: a control frame with this message id and payload. -/
def controlFrame (service : Service) (session : UInt8) (kind : ControlKind) (version : UInt8)
    (messageId : UInt32) (payload : Bytes) : Frame :=
  Frame.stamped { Header.control service session kind version with messageId } payload

/-- The frame of a request can be written, and is whole. -/
theorem exists_encode_controlFrame {version : UInt8} (hsize : headerSize? version = some size)
    (hversion : config.Spoken version) (service : Service) (session : UInt8) (kind : ControlKind)
    (messageId : UInt32) {payload : Bytes} (hpayload : payload.length < UInt32.size) :
    ∃ bytes,
      (controlFrame service session kind version messageId payload).encode = .ok bytes ∧
        Frame.Whole config { session, service } bytes := by
  have hheader : headerSize?
      { Header.control service session kind version with messageId }.version = some size := hsize
  obtain ⟨bytes, hencode, -⟩ := Frame.exists_encode_stamped hheader hpayload
  have hread : (controlFrame service session kind version messageId payload).header.Readable := by
    intro _
    show ControlKind.ofByte? kind.toByte ≠ none
    rw [ControlKind.ofByte?_toByte]
    exact Option.some_ne_none _
  exact ⟨bytes, hencode, Frame.whole_of_encode hencode hread hversion⟩

theorem length_hash_lt (hashId : Option UInt32) :
    (hashId.elim [] Word.toBytes).length < UInt32.size := by
  cases hashId with
  | none => decide
  | some hash =>
    show (Word.toBytes hash).length < UInt32.size
    rw [Word.length_toBytes]
    decide

theorem startService_eq (hsize : headerSize? e.version = some size) (service : Service)
    {session : UInt8} (hsession : session ≠ 0) :
    e.startService service session = e.request service session
      (.ok (controlFrame service session .startService e.version 0 [])) := by
  unfold startService Header.startService
  rw [if_neg hsession, if_neg hsession, Header.checked_eq hsize]
  rfl

theorem endService_eq (hsize : headerSize? e.version = some size) (service : Service)
    (session : UInt8) :
    e.endService service session = e.request service session
      (.ok (controlFrame service session .endService e.version
        ((e.registry.hashId session).getD 0)
        ((e.registry.hashId session).elim [] Word.toBytes))) := by
  unfold endService Frame.endService
  rw [Header.checked_eq hsize]
  cases e.registry.hashId session <;> rfl

theorem heartbeat_eq (hsize : headerSize? e.version = some size) (session : UInt8) :
    e.heartbeat session = e.request .control session
      (.ok (controlFrame .control session .heartbeat e.version 0 [])) := by
  unfold heartbeat Header.heartbeat
  rw [Header.checked_eq hsize]
  rfl

theorem heartbeatAck_eq (hsize : headerSize? e.version = some size) (session : UInt8) :
    e.heartbeatAck session = e.request .control session
      (.ok (controlFrame .control session .heartbeatAck e.version 0 [])) := by
  unfold heartbeatAck Header.heartbeatAck
  rw [Header.checked_eq hsize]
  rfl

/-! ## What an event does to the queue -/

/-- What is entered for a request when this is its answer. -/
def entered {α : Type} (key : MessageKey) : Except LinkError α → List MessageKey
  | .ok _ => [key]
  | .error _ => []

/-- What an event does to the pool, and what is entered for it: nothing, unless
a batch of whole frames is accepted. -/
inductive Outcome (config : Config) (p p' : Pool) : List MessageKey → Prop where
  | quiet (hpool : p' = p) : Outcome config p p' []
  | queued (key : MessageKey) (encoded : List Bytes) (hne : encoded ≠ [])
      (hwhole : ∀ bytes ∈ encoded, Frame.Whole config key bytes)
      (hsubmit : p.submit key.session key.service.priority encoded = .ok p') :
      Outcome config p p' [key]
  | shutdown (hpool : p' = p.shutdown) : Outcome config p p' []
  | worked (w : WorkerEvent) (hpool : p.workerStep w = some p') : Outcome config p p' []

theorem outcome_submit (key : MessageKey) {frames : List Frame} (hne : frames ≠ [])
    (hwhole : ∀ frame ∈ frames, ∀ bytes, frame.encode = .ok bytes →
      Frame.Whole config key bytes)
    (hsubmit : e.submit key.service key.session frames = .ok e') :
    Outcome config e.outlet.pool e'.outlet.pool [key] := by
  obtain ⟨encoded, pool, hencoded, hpool, rfl⟩ := submit_eq_ok hsubmit
  rw [encodeEach_eq_ok_iff] at hencoded
  refine .queued key encoded ?_ ?_ hpool
  · rintro rfl
    exact hne (List.map_eq_nil_iff.1 hencoded)
  · intro bytes hbytes
    have hmem : Except.ok bytes ∈ frames.map Frame.encode := by
      rw [hencoded]
      exact List.mem_map_of_mem hbytes
    obtain ⟨frame, hframe, hencode⟩ := List.mem_map.1 hmem
    exact hwhole frame hframe bytes hencode

theorem outcome_request (e : Engine) {service : Service} {session : UInt8} {frame : Frame}
    (hframe : ∃ bytes, frame.encode = .ok bytes ∧ Frame.Whole config { session, service } bytes) :
    Outcome config e.outlet.pool (e.request service session (.ok frame)).2.outlet.pool
      (entered { session, service } (e.request service session (.ok frame)).1) := by
  obtain ⟨bytes, hencode, hwhole⟩ := hframe
  unfold request
  simp only
  split
  · exact .quiet rfl
  · rename_i next hsubmit
    refine outcome_submit { session, service } (List.cons_ne_nil _ _) ?_ hsubmit
    intro other hother found hfound
    rw [List.mem_singleton.1 hother, hencode] at hfound
    rw [← Except.ok.inj hfound]
    exact hwhole

theorem outcome_startService (hsize : headerSize? e.version = some size)
    (hversion : config.Spoken e.version) (service : Service) (session : UInt8) :
    Outcome config e.outlet.pool (e.startService service session).2.outlet.pool
      (entered { session, service } (e.startService service session).1) := by
  by_cases hsession : session = 0
  · unfold startService
    rw [if_pos hsession]
    exact .quiet rfl
  · rw [startService_eq hsize service hsession]
    exact outcome_request e
      (exists_encode_controlFrame hsize hversion service session .startService 0 (by decide))

/-- The fragments of a message are whole frames. -/
theorem outcome_send (he : e.config = config) (m : Message) :
    Outcome config e.outlet.pool (e.send m).2.1.outlet.pool (entered m.key (e.send m).1) := by
  rcases send_cases e m with ⟨cause, id, hsend⟩ | ⟨frames, next, hfragment, hsubmit, hsend⟩
  · rw [hsend]
    exact .quiet rfl
  · have hspoken : e.config.Spoken m.version := spoken_of_send (by rw [hsend])
    rw [he] at hspoken
    have hne : frames ≠ [] := Parcel.frames_ne_nil (p := .message m e.nextMessageId) hfragment
    rw [hsend]
    refine outcome_submit (e := { e with nextMessageId := e.nextMessageId + 1 }) m.key
      hne ?_ hsubmit
    intro frame hframe bytes hencode
    have hkey := Message.key_fragment hfragment frame hframe
    have hread := Message.readable_of_fragment hfragment hframe
    rw [← hkey]
    refine Frame.whole_of_encode hencode hread ?_
    obtain ⟨header, payload, rfl, hheader, -⟩ := Message.stamped_of_fragment hfragment hframe
    show config.Spoken header.version
    rwa [hheader]

end Engine

/-- What is entered for an event: the session and the service of the request, if
it is one and is accepted. -/
def EngineEvent.entered (e : Engine) : EngineEvent → List MessageKey
  | .send m => Engine.entered m.key (e.send m).1
  | .startSession session => Engine.entered { session, service := .rpc } (e.startSession session).1
  | .startService service session =>
    Engine.entered { session, service } (e.startService service session).1
  | .endService service session =>
    Engine.entered { session, service } (e.endService service session).1
  | .heartbeat session => Engine.entered { session, service := .control } (e.heartbeat session).1
  | .heartbeatAck session =>
    Engine.entered { session, service := .control } (e.heartbeatAck session).1
  | _ => []

namespace Engine

variable {config : Config} {e e' : Engine} {size : Nat}

/-- Every event has one of the outcomes, as long as the version is spoken. -/
theorem step_outcome (he : e.config = config) (hsize : headerSize? e.version = some size)
    (hversion : config.Spoken e.version) {event : EngineEvent} (hstep : e.step event = some e') :
    Outcome config e.outlet.pool e'.outlet.pool (event.entered e) := by
  cases event with
  | send m =>
    obtain rfl := Option.some.inj hstep
    exact outcome_send he m
  | startSession session =>
    obtain rfl := Option.some.inj hstep
    exact outcome_startService hsize hversion .rpc session
  | startService service session =>
    obtain rfl := Option.some.inj hstep
    exact outcome_startService hsize hversion service session
  | endService service session =>
    obtain rfl := Option.some.inj hstep
    have hpayload := length_hash_lt (e.registry.hashId session)
    simp only [EngineEvent.entered, endService_eq hsize]
    exact outcome_request e
      (exists_encode_controlFrame hsize hversion service session .endService _ hpayload)
  | heartbeat session =>
    obtain rfl := Option.some.inj hstep
    simp only [EngineEvent.entered, heartbeat_eq hsize]
    exact outcome_request e
      (exists_encode_controlFrame hsize hversion .control session .heartbeat 0 (by decide))
  | heartbeatAck session =>
    obtain rfl := Option.some.inj hstep
    simp only [EngineEvent.entered, heartbeatAck_eq hsize]
    exact outcome_request e
      (exists_encode_controlFrame hsize hversion .control session .heartbeatAck 0 (by decide))
  | setVersion version =>
    obtain rfl := Option.some.inj hstep
    refine .quiet ?_
    unfold setVersion
    split <;> rfl
  | receive chunk =>
    obtain rfl := Option.some.inj hstep
    exact .quiet rfl
  | shutdown =>
    obtain rfl := Option.some.inj hstep
    exact .shutdown rfl
  | worker w =>
    obtain ⟨pool, hpool, rfl⟩ := Option.map_eq_some_iff.1 hstep
    exact .worked w hpool

end Engine

/-! ## The record of a run -/

/-- An engine with a record of the requests that it has accepted, in order. -/
structure Requests where
  engine : Engine
  keys : List MessageKey

namespace Requests

/-- Nothing has been requested yet. -/
def start (e : Engine) : Requests := { engine := e, keys := [] }

/-- The record after an event, if the event can happen. -/
def step (t : Requests) (event : EngineEvent) : Option Requests :=
  (t.engine.step event).map fun engine =>
    { engine, keys := t.keys ++ event.entered t.engine }

/-- The record after a sequence of events, if each can happen in its turn. -/
def run (t : Requests) : List EngineEvent → Option Requests
  | [] => some t
  | event :: rest => (t.step event).bind fun t => t.run rest

/-- The pool of the engine has this history, and `packed` are its batches with
what was entered for them. -/
structure Packed (config : Config) (t : Requests) (h : History)
    (packed : List (Batch × MessageKey)) : Prop where
  reachable : Engine.Reachable config t.engine
  pool_eq : h.pool = t.engine.outlet.pool
  kept : h.Kept
  accepted_eq : h.accepted = packed.map Prod.fst
  keys_eq : t.keys = packed.map Prod.snd
  whole : ∀ entry ∈ packed, ∀ bytes ∈ entry.1.frames, Frame.Whole config entry.2 bytes

variable {config : Config} {e : Engine} {t t' : Requests} {h : History}
  {packed : List (Batch × MessageKey)}

theorem packed_start (he : Engine.ofConfig config = .ok e) :
    Packed config (start e) (History.ofWorkers config.workers) [] := by
  have hreach := Engine.Reachable.fresh he
  obtain ⟨_, rfl⟩ := Engine.ofConfig_eq_ok he
  exact ⟨hreach, rfl, History.kept_ofWorkers _, rfl, rfl, fun _ hentry =>
    absurd hentry List.not_mem_nil⟩

/-- A batch that is accepted comes last, with what was entered for it. -/
theorem Packed.queue (hp : Packed config t h packed) {key : MessageKey} {encoded : List Bytes}
    (hne : encoded ≠ []) (hwhole : ∀ bytes ∈ encoded, Frame.Whole config key bytes) {e' : Engine}
    (hreach : Engine.Reachable config e')
    (hsubmit : t.engine.outlet.pool.submit key.session key.service.priority encoded =
      .ok e'.outlet.pool) :
    ∃ h' packed', Packed config { engine := e', keys := t.keys ++ [key] } h' packed' := by
  have hkept := hp.kept.step (h.submit_cases key.session key.service.priority encoded)
  have hnext : h.submit key.session key.service.priority encoded =
      { h with
        pool := e'.outlet.pool
        accepted := h.accepted ++
          [h.pool.queue.nextOf key.session key.service.priority encoded] } := by
    unfold History.submit
    rw [hp.pool_eq, hsubmit]
    simp only [if_neg hne]
  rw [hnext] at hkept
  refine ⟨_, packed ++ [(h.pool.queue.nextOf key.session key.service.priority encoded, key)],
    hreach, rfl, hkept, ?_, ?_, ?_⟩
  · rw [List.map_append, hp.accepted_eq]
    rfl
  · rw [List.map_append, hp.keys_eq]
    rfl
  · intro entry hentry
    rcases List.mem_append.1 hentry with hold | hnew
    · exact hp.whole entry hold
    · rw [List.mem_singleton.1 hnew]
      exact hwhole

/-- Every event keeps the record and the batches together. -/
theorem Packed.step (hp : Packed config t h packed) (hconfig : config.fault? = none)
    {event : EngineEvent} (hstep : t.step event = some t') :
    ∃ h' packed', Packed config t' h' packed' := by
  obtain ⟨e', he', rfl⟩ := Option.map_eq_some_iff.1 hstep
  have hreach := hp.reachable.step he'
  have hspoken := hp.reachable.spoken hconfig
  obtain ⟨size, hsize⟩ := hspoken.headerSize? hconfig
  have houtcome := Engine.step_outcome hp.reachable.config_eq hsize hspoken he'
  generalize event.entered t.engine = keys at houtcome ⊢
  cases houtcome with
  | quiet hpool =>
    rw [List.append_nil]
    exact ⟨h, packed, hreach, hp.pool_eq.trans hpool.symm, hp.kept, hp.accepted_eq, hp.keys_eq,
      hp.whole⟩
  | queued key encoded hne hwhole hsubmit => exact hp.queue hne hwhole hreach hsubmit
  | shutdown hpool =>
    rw [List.append_nil]
    refine ⟨{ h with pool := h.pool.shutdown }, packed, hreach, ?_,
      hp.kept.step History.Step.shutdown, hp.accepted_eq, hp.keys_eq, hp.whole⟩
    rw [hpool, hp.pool_eq]
  | worked w hpool =>
    rw [← hp.pool_eq] at hpool
    rw [List.append_nil]
    exact ⟨_, packed, hreach, rfl, hp.kept.step (History.workerStep_cases hpool), hp.accepted_eq,
      hp.keys_eq, hp.whole⟩

theorem Packed.run (hp : Packed config t h packed) (hconfig : config.fault? = none)
    {events : List EngineEvent} (hrun : t.run events = some t') :
    ∃ h' packed', Packed config t' h' packed' := by
  induction events generalizing t h packed with
  | nil =>
    obtain rfl := Option.some.inj hrun
    exact ⟨h, packed, hp⟩
  | cons event rest ih =>
    obtain ⟨next, hnext, hrest⟩ := Option.bind_eq_some_iff.1 hrun
    obtain ⟨h', packed', hp'⟩ := hp.step hconfig hnext
    exact ih hp' hrest

/-- The frame of a job is whole, and belongs to the request of its batch. -/
theorem Packed.whole_of_mem (hp : Packed config t h packed) {job : Job} (hjob : job ∈ h.jobs) :
    ∃ key, t.keys[job.batch]? = some key ∧ Frame.Whole config key job.bytes := by
  obtain ⟨b, hb, hmem⟩ := List.mem_flatMap.1 hjob
  rw [hp.accepted_eq] at hb
  obtain ⟨⟨_, key⟩, hentry, rfl⟩ := List.mem_map.1 hb
  obtain ⟨index, hindex, hat⟩ := List.mem_iff_getElem.1 hentry
  have hnumber : job.batch = index := by
    have hnumbers := hp.kept.numbers
    rw [hp.accepted_eq, List.map_map] at hnumbers
    have hat' := List.getElem_of_eq hnumbers (by rwa [List.length_map] : index < _)
    rw [List.getElem_map, List.getElem_range, hat] at hat'
    rw [Batch.batch_of_mem hmem]
    exact hat'
  refine ⟨key, ?_, ?_⟩
  · rw [hp.keys_eq, hnumber, List.getElem?_map, List.getElem?_eq_getElem hindex, hat]
    rfl
  · apply hp.whole _ hentry
    rw [← Batch.map_bytes_jobs]
    exact List.mem_map_of_mem hmem

/-- What holds of the requests to an engine, and of what comes of them.  The
version is spoken.  A request is refused because its session is 0, where it is to
start something, or because the queue is shut down.  Every byte string that a
worker hands to the transport, whether the transport takes it or fails, is one
whole frame, for the session and the service of the request that it comes from. -/
structure Sound (config : Config) (t : Requests) : Prop where
  spoken : config.Spoken t.engine.version
  startSession : ∀ session, (t.engine.startSession session).1 =
    if session = 0 then .error (.invalidSession .rpc) else t.engine.admission
  startService : ∀ service session, (t.engine.startService service session).1 =
    if session = 0 then .error (.invalidSession service) else t.engine.admission
  endService : ∀ service session, (t.engine.endService service session).1 = t.engine.admission
  heartbeat : ∀ session, (t.engine.heartbeat session).1 = t.engine.admission
  heartbeatAck : ∀ session, (t.engine.heartbeatAck session).1 = t.engine.admission
  handed : ∀ job fails t', t.step (.worker (.handOver job fails)) = some t' →
    ∃ key, t.keys[job.batch]? = some key ∧ Frame.Whole config key job.bytes

/-- Whatever an engine is asked and whatever it receives, its requests are
answered and its frames are whole. -/
theorem sound_of_run (he : Engine.ofConfig config = .ok e) {events : List EngineEvent}
    (hrun : (start e).run events = some t) : Sound config t := by
  have hconfig := (Engine.ofConfig_eq_ok he).1
  obtain ⟨h, packed, hp⟩ := (packed_start he).run hconfig hrun
  have hspoken := hp.reachable.spoken hconfig
  obtain ⟨size, hsize⟩ := hspoken.headerSize? hconfig
  have hanswer : ∀ service session kind messageId {payload : Bytes},
      payload.length < UInt32.size →
        (t.engine.request service session (.ok (Engine.controlFrame service session kind
          t.engine.version messageId payload))).1 = t.engine.admission := by
    intro service session kind messageId payload hpayload
    obtain ⟨bytes, hencode, -⟩ := Engine.exists_encode_controlFrame hsize hspoken service session
      kind messageId hpayload
    exact Engine.request_of_encode hencode service session
  have hstart : ∀ service session, (t.engine.startService service session).1 =
      if session = 0 then .error (.invalidSession service) else t.engine.admission := by
    intro service session
    by_cases hsession : session = 0
    · unfold Engine.startService
      rw [if_pos hsession, if_pos hsession]
    · rw [Engine.startService_eq hsize service hsession, if_neg hsession]
      exact hanswer service session .startService 0 (by decide)
  refine ⟨hspoken, hstart .rpc, hstart, ?_, ?_, ?_, ?_⟩
  · intro service session
    rw [Engine.endService_eq hsize]
    exact hanswer service session .endService _ (Engine.length_hash_lt _)
  · intro session
    rw [Engine.heartbeat_eq hsize]
    exact hanswer .control session .heartbeat 0 (by decide)
  · intro session
    rw [Engine.heartbeatAck_eq hsize]
    exact hanswer .control session .heartbeatAck 0 (by decide)
  · intro job fails t' hstep
    apply hp.whole_of_mem
    obtain ⟨e', he', -⟩ := Option.map_eq_some_iff.1 hstep
    obtain ⟨pool, hpool, -⟩ := Option.map_eq_some_iff.1 he'
    refine hp.kept.all.mem_iff.1 (List.mem_append_left _ (List.mem_append_right _ ?_))
    rw [hp.pool_eq]
    simp only [Pool.workerStep] at hpool
    split at hpool
    · assumption
    · exact absurd hpool (by simp)

/-- The head unit sets the version while a request waits, and a message of
another version overtakes the request. -/
theorem sound_of_run_overtaken :
    let events : List EngineEvent := [
      .startService .nav 1, .receive [0x30, 0x07, 2, 1, 0, 0, 0, 0, 0, 0, 0, 0],
      .send (Message.plain .rpc 1 2 [7]), .worker .claim]
    let job : Job :=
      { priority := 7, sequence := 1, batch := 1, session := 1
        bytes := [0x21, 0x07, 0, 1, 0, 0, 0, 1, 7], opensBatch := false, closesBatch := false }
    ∃ e t, Engine.ofConfig Config.default = .ok e ∧ (start e).run events = some t ∧
      t.engine.version = 3 ∧
      (t.engine.startSession 0).1 = .error (.invalidSession .rpc) ∧
      (∃ t', t.step (.worker (.handOver job true)) = some t') ∧
      Frame.Whole Config.default { session := 1, service := .rpc } job.bytes := by
  intro events job
  obtain ⟨e, he⟩ : ∃ e, Engine.ofConfig Config.default = .ok e := ⟨_, rfl⟩
  have hfacts : ((start e).run events).map (fun t => (t.engine.version, t.keys[job.batch]?,
      decide (job ∈ t.engine.outlet.pool.holding))) =
        some (3, some { session := 1, service := .rpc }, true) := by
    obtain rfl := Except.ok.inj he
    decide +kernel
  obtain ⟨t, hrun, hfound⟩ := Option.map_eq_some_iff.1 hfacts
  obtain ⟨hversion, hfound'⟩ := Prod.mk.inj hfound
  obtain ⟨hkeys, hholding⟩ := Prod.mk.inj hfound'
  have hsound := sound_of_run he hrun
  have hstep : ∃ t', t.step (.worker (.handOver job true)) = some t' := by
    unfold step Engine.step Engine.workerStep Pool.workerStep
    simp only [if_pos (of_decide_eq_true hholding), Option.map_some]
    exact ⟨_, rfl⟩
  obtain ⟨t', hnext⟩ := hstep
  obtain ⟨key, hkey, hwhole⟩ := hsound.handed job true t' hnext
  obtain rfl := Option.some.inj (hkeys.symm.trans hkey)
  exact ⟨e, t, he, hrun, hversion, hsound.startSession 0, ⟨t', hnext⟩, hwhole⟩

end Requests

end HeadUnitLink
