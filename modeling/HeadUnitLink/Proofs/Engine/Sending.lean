import HeadUnitLink.Proofs.Engine.Requests

/-!
# Sending a message is all or nothing

A message is judged, given an id, cut into frames and queued.  Any of these can end the
call, and other callers can come in between giving the id and queueing the frames.
Whatever ends it, nothing is queued and nothing told.  Otherwise the frames of the message
are queued as one batch and one notice is given.  No two callers get the same id before
the ids are used up.

* `Engine.number` and `Engine.dispatch` are the two halves of a call, which others cannot
  interrupt, and `Engine.send_eq` says that they make up the whole.
* `Engine.AllOrNothing` is what becomes of a call, and `Engine.allOrNothing_dispatch` the
  proof for the second half.
* `Senders` is an engine with any number of callers between the two halves.
  `Senders.Numbered` is the invariant, kept by every step and so by every run.
* `Senders.allOrNothing_of_run` is the result.
-/

namespace HeadUnitLink

namespace Engine

/-! ## The two halves of a call -/

/-- Gives a message an id, if its version and its session are right. -/
def number (e : Engine) (m : Message) : Except LinkError UInt32 × Engine :=
  if !e.speaks m.version then (.error (.unsupportedVersion m.version), e)
  else if m.service ≠ .rpc ∧ m.session = 0 then (.error (.invalidSession m.service), e)
  else (.ok e.nextMessageId, { e with nextMessageId := e.nextMessageId + 1 })

/-- Queues the frames of a message that has this id. -/
def dispatch (e : Engine) (m : Message) (id : UInt32) :
    Except LinkError UInt32 × Engine × List Notice :=
  match m.fragment id e.config.maxDataSize with
  | .error cause => (.error cause, e, [])
  | .ok frames =>
    match e.submit m.service m.session frames with
    | .error cause => (.error cause, e, [])
    | .ok e => (.ok id, e, [.resetHeartbeat m.session])

/-- A message that is not interrupted is given an id, and then its frames are queued. -/
theorem send_eq (e : Engine) (m : Message) :
    e.send m =
      match e.number m with
      | (.error cause, e) => (.error cause, e, [])
      | (.ok id, e) => e.dispatch m id := by
  unfold send number
  split
  · rfl
  · split <;> rfl

/-! ## What is refused -/

/-- Why a message is not given an id. -/
def misfit? (config : Config) (m : Message) : Option LinkError :=
  if ¬ (minVersion ≤ m.version ∧ m.version ≤ config.maxVersion) then
    some (.unsupportedVersion m.version)
  else if m.service ≠ .rpc ∧ m.session = 0 then some (.invalidSession m.service)
  else none

/-- Why a message that has an id is not queued. -/
def rejection? (e : Engine) (m : Message) : Option LinkError :=
  if UInt32.size ≤ m.wirePayload.length then
    some (.messageTooLarge m.wirePayload.length Message.maxFragmentedSize)
  else if e.outlet.pool.queue.isShutdown then some .shutdown
  else none

/-- Why a message is refused: the first of four causes. -/
def refusal? (e : Engine) (m : Message) : Option LinkError :=
  (misfit? e.config m).or (e.rejection? m)

/-- What becomes of a message with this id: it is refused for this cause, and then nothing
is queued and nothing is told; or, if there is none, all its frames are queued as one
batch, for its session and at the priority of its service, and one notice is given. -/
structure AllOrNothing (e : Engine) (m : Message) (id : UInt32) (cause? : Option LinkError)
    (answered : Except LinkError UInt32 × Engine × List Notice) : Prop where
  refused : ∀ cause, cause? = some cause →
    answered.1 = .error cause ∧ answered.2.1.outlet = e.outlet ∧ answered.2.2 = []
  accepted : cause? = none → answered.1 = .ok id ∧
    ∃ frames encoded, m.fragment id (e.config.mtu - maxHeaderSize) = .ok frames ∧
      frames.map Frame.encode = encoded.map .ok ∧
      answered.2.1.outlet = { e.outlet with
        pool := { e.outlet.pool with
          queue := e.outlet.pool.queue.push m.session m.service.priority encoded } } ∧
      answered.2.2 = [.resetHeartbeat m.session]

variable {config : Config} {e e' : Engine} {m : Message}

theorem allOrNothing_of_error {id : UInt32} {cause : LinkError} (houtlet : e'.outlet = e.outlet) :
    e.AllOrNothing m id (some cause) (.error cause, e', []) where
  refused _ hcause := ⟨congrArg Except.error (Option.some.inj hcause), houtlet, rfl⟩
  accepted hnone := absurd hnone (by simp)

/-- A message is given an id if it fits. -/
theorem number_eq (e : Engine) (m : Message) :
    e.number m =
      match misfit? e.config m with
      | some cause => (.error cause, e)
      | none => (.ok e.nextMessageId, { e with nextMessageId := e.nextMessageId + 1 }) := by
  unfold number misfit?
  by_cases hspoken : minVersion ≤ m.version ∧ m.version ≤ e.config.maxVersion
  · have hspeaks : e.speaks m.version = true := speaks_iff.2 hspoken
    rw [if_neg (not_not_intro hspoken), hspeaks, Bool.not_true, if_neg Bool.false_ne_true]
    split <;> rfl
  · have hsilent : e.speaks m.version = false := Bool.eq_false_iff.2 (mt speaks_iff.1 hspoken)
    rw [if_pos hspoken, hsilent, Bool.not_false, if_pos rfl]

/-- A message that fits has a version with a layout. -/
theorem version_of_fit (hconfig : config.fault? = none) (h : misfit? config m = none) :
    minVersion ≤ m.version ∧ m.version ≤ maxVersion := by
  unfold misfit? at h
  split at h
  · cases h
  · rename_i hspoken
    obtain ⟨hmin, hmax⟩ := Decidable.not_not.1 hspoken
    exact ⟨hmin, UInt8.le_trans hmax (Config.fault?_eq_none hconfig).2.2⟩

/-! ## The second half -/

/-- The frames of a message are queued, all of them or none. -/
theorem allOrNothing_dispatch (e : Engine) (id : UInt32)
    (hversion : minVersion ≤ m.version ∧ m.version ≤ maxVersion) :
    e.AllOrNothing m id (e.rejection? m) (e.dispatch m id) := by
  unfold rejection?
  by_cases hlong : UInt32.size ≤ m.wirePayload.length
  · have hfragment : m.fragment id e.config.maxDataSize =
        .error (.messageTooLarge m.wirePayload.length Message.maxFragmentedSize) := by
      have hover : Message.maxFragmentedSize < m.wirePayload.length := hlong
      unfold Message.fragment
      simp only [if_pos hover]
    have hdispatch : e.dispatch m id =
        (.error (.messageTooLarge m.wirePayload.length Message.maxFragmentedSize), e, []) := by
      unfold dispatch
      rw [hfragment]
    rw [if_pos hlong, hdispatch]
    exact allOrNothing_of_error rfl
  · obtain ⟨frames, encoded, hfragment, hencoded⟩ :=
      Message.exists_encoded hversion (Nat.lt_of_not_le hlong) id e.config.maxDataSize
    have hwritten := encodeEach_eq_ok_iff.1 hencoded
    have hne : encoded ≠ [] := by
      rintro rfl
      exact Parcel.frames_ne_nil (p := .message m id) hfragment (List.map_eq_nil_iff.1 hwritten)
    rw [if_neg hlong]
    cases hshut : e.outlet.pool.queue.isShutdown with
    | true =>
      have hdispatch : e.dispatch m id = (.error .shutdown, e, []) := by
        unfold dispatch
        rw [hfragment]
        simp only [submit_of_isShutdown hencoded hne hshut m.service m.session]
      rw [if_pos rfl, hdispatch]
      exact allOrNothing_of_error rfl
    | false =>
      obtain ⟨next, hsubmit, hpool⟩ := submit_queues hencoded hne hshut m.service m.session
      obtain ⟨-, pool, -, -, rfl⟩ := submit_eq_ok hsubmit
      have hdispatch : e.dispatch m id =
          (.ok id, { e with outlet := { e.outlet with pool } }, [.resetHeartbeat m.session]) := by
        unfold dispatch
        rw [hfragment]
        simp only [hsubmit]
      rw [if_neg Bool.false_ne_true, hdispatch]
      refine ⟨fun cause hcause => absurd hcause (by simp), fun _ => ⟨rfl, frames, encoded,
        hfragment, hwritten, ?_, rfl⟩⟩
      exact congrArg (fun pool => { e.outlet with pool }) hpool

/-- A message that nobody comes in between is queued as a whole or not at all. -/
theorem allOrNothing_send (hconfig : e.config.fault? = none) (m : Message) :
    e.AllOrNothing m e.nextMessageId (e.refusal? m) (e.send m) := by
  rw [send_eq, number_eq]
  unfold refusal?
  cases hmisfit : misfit? e.config m with
  | some cause => exact allOrNothing_of_error rfl
  | none =>
    have hversion := version_of_fit hconfig hmisfit
    have hnumbered := allOrNothing_dispatch { e with nextMessageId := e.nextMessageId + 1 }
      e.nextMessageId hversion
    exact ⟨hnumbered.refused, hnumbered.accepted⟩

/-! ## The ids -/

/-- The id after a request is the id before it. -/
theorem nextMessageId_request (e : Engine) (service : Service) (session : UInt8)
    (frame : Except FrameError Frame) :
    (e.request service session frame).2.nextMessageId = e.nextMessageId := by
  rcases request_cases e service session frame with he | ⟨content, -, hsubmit⟩
  · rw [he]
  · obtain ⟨_, pool, _, _, hnext⟩ := submit_eq_ok hsubmit
    rw [hnext]

theorem nextMessageId_startService (e : Engine) (service : Service) (session : UInt8) :
    (e.startService service session).2.nextMessageId = e.nextMessageId := by
  unfold startService
  split
  · rfl
  · exact nextMessageId_request e service session _

/-- The second half of a call changes the queue only. -/
theorem frame_dispatch (e : Engine) (m : Message) (id : UInt32) :
    (e.dispatch m id).2.1.config = e.config ∧
      (e.dispatch m id).2.1.nextMessageId = e.nextMessageId := by
  unfold dispatch
  split
  · exact ⟨rfl, rfl⟩
  · split
    · exact ⟨rfl, rfl⟩
    · rename_i hsubmit
      obtain ⟨_, pool, _, _, rfl⟩ := submit_eq_ok hsubmit
      exact ⟨rfl, rfl⟩

theorem nextMessageId_send (e : Engine) (m : Message) :
    (e.send m).2.1.nextMessageId = (e.number m).2.nextMessageId := by
  rw [send_eq]
  cases hnumber : e.number m with
  | mk answer numbered =>
    cases answer with
    | error cause => rfl
    | ok id => exact (frame_dispatch numbered m id).2

end Engine

/-- The id of a call after `count` others that were given one. -/
def messageIdAfter (count : Nat) : UInt32 := UInt32.ofNat (1 + count)

theorem messageIdAfter_succ (count : Nat) :
    messageIdAfter (count + 1) = messageIdAfter count + 1 := by
  unfold messageIdAfter
  rw [← Nat.add_assoc]
  exact UInt32.ofNat_add (1 + count) 1

/-- No id comes twice before all have been used. -/
theorem nodup_messageIds {count : Nat} (h : count ≤ UInt32.size) :
    ((List.range count).map messageIdAfter).Nodup := by
  refine List.pairwise_map.2 (List.Pairwise.imp_of_mem ?_ List.pairwise_lt_range)
  intro a b ha hb hlt heq
  have hnat := congrArg UInt32.toNat heq
  unfold messageIdAfter at hnat
  simp only [UInt32.toNat_ofNat', Nat.reducePow] at hnat
  rw [List.mem_range] at ha hb
  have hsize : UInt32.size = 4294967296 := rfl
  omega

/-- These ids were given one after the other, and this is the next one. -/
structure InTurn (ids : List UInt32) (next : UInt32) : Prop where
  ids_eq : ids = (List.range ids.length).map messageIdAfter
  next_eq : next = messageIdAfter ids.length

/-- The next id is given. -/
theorem InTurn.append {ids : List UInt32} {next : UInt32} (h : InTurn ids next) :
    InTurn (ids ++ [next]) (next + 1) := by
  have hlength : (ids ++ [next]).length = ids.length + 1 := List.length_append
  constructor
  · rw [hlength, List.range_succ, List.map_append, ← h.ids_eq, h.next_eq]
    rfl
  · rw [hlength, messageIdAfter_succ, h.next_eq]

/-- The first half of a call gives the next id or none. -/
theorem InTurn.number {ids : List UInt32} {e : Engine} (h : InTurn ids e.nextMessageId)
    (m : Message) :
    InTurn (ids ++ (e.number m).1.toOption.toList) (e.number m).2.nextMessageId := by
  rw [Engine.number_eq]
  cases Engine.misfit? e.config m with
  | some cause =>
    show InTurn (ids ++ []) e.nextMessageId
    rw [List.append_nil]
    exact h
  | none => exact h.append

/-! ## Many callers -/

/-- An engine with callers that have been given an id and have not queued their frames
yet. -/
structure Senders where
  engine : Engine
  waiting : List (Message × UInt32)
  /-- The ids that were given, in order. -/
  ids : List UInt32

/-- What can happen to an engine and its callers. -/
inductive SenderEvent where
  /-- Anything that nobody comes in between, a whole call among them. -/
  | whole (event : EngineEvent)
  /-- A caller comes with a message, and goes on to the second half if it is given an
  id. -/
  | enter (m : Message)
  /-- A caller goes through the second half. -/
  | finish (call : Message × UInt32)

/-- The id that an event gives, if it does. -/
def EngineEvent.given (e : Engine) : EngineEvent → List UInt32
  | .send m => (e.number m).1.toOption.toList
  | _ => []

namespace Senders

/-- Nobody has come yet. -/
def start (e : Engine) : Senders := { engine := e, waiting := [], ids := [] }

/-- The callers after an event, if the event can happen. -/
def step (t : Senders) : SenderEvent → Option Senders
  | .whole event =>
    (t.engine.step event).map fun engine =>
      { t with engine, ids := t.ids ++ event.given t.engine }
  | .enter m =>
    match t.engine.number m with
    | (.error _, engine) => some { t with engine }
    | (.ok id, engine) =>
      some { engine, waiting := t.waiting ++ [(m, id)], ids := t.ids ++ [id] }
  | .finish call =>
    if call ∈ t.waiting then
      let (_, engine, _) := t.engine.dispatch call.1 call.2
      some { t with engine, waiting := t.waiting.erase call }
    else none

/-- The callers after a sequence of events, if each can happen in its turn. -/
def run (t : Senders) : List SenderEvent → Option Senders
  | [] => some t
  | event :: rest => (t.step event).bind fun t => t.run rest

/-- What every step keeps: who waits has a message that fits, and the ids were given
one after the other. -/
structure Numbered (config : Config) (t : Senders) : Prop where
  config_eq : t.engine.config = config
  fits : ∀ call ∈ t.waiting, Engine.misfit? config call.1 = none
  inTurn : InTurn t.ids t.engine.nextMessageId

variable {config : Config} {e e' : Engine} {t t' : Senders}

theorem numbered_start (he : Engine.ofConfig config = .ok e) : Numbered config (start e) := by
  obtain ⟨-, rfl⟩ := Engine.ofConfig_eq_ok he
  exact ⟨rfl, fun _ hcall => absurd hcall List.not_mem_nil, rfl, rfl⟩

/-- Whatever happens as a whole keeps the ids in turn. -/
theorem inTurn_whole {ids : List UInt32} (h : InTurn ids e.nextMessageId) {event : EngineEvent}
    (hstep : e.step event = some e') :
    InTurn (ids ++ event.given e) e'.nextMessageId := by
  have hsame : ∀ {next : Engine}, next.nextMessageId = e.nextMessageId → some next = some e' →
      InTurn (ids ++ []) e'.nextMessageId := by
    intro next hnext heq
    obtain rfl := Option.some.inj heq
    rw [List.append_nil, hnext]
    exact h
  cases event with
  | send m =>
    obtain rfl := Option.some.inj hstep
    rw [Engine.nextMessageId_send]
    exact h.number m
  | startSession session => exact hsame (Engine.nextMessageId_startService e .rpc session) hstep
  | startService service session =>
    exact hsame (Engine.nextMessageId_startService e service session) hstep
  | endService service session =>
    exact hsame (Engine.nextMessageId_request e service session _) hstep
  | heartbeat session => exact hsame (Engine.nextMessageId_request e .control session _) hstep
  | heartbeatAck session => exact hsame (Engine.nextMessageId_request e .control session _) hstep
  | setVersion version =>
    refine hsame ?_ hstep
    unfold Engine.setVersion
    split <;> rfl
  | receive chunk => exact @hsame (e.receive chunk).1 rfl hstep
  | shutdown => exact @hsame e.shutdown rfl hstep
  | worker w =>
    obtain ⟨pool, -, rfl⟩ := Option.map_eq_some_iff.1 hstep
    exact @hsame { e with outlet := { e.outlet with pool } } rfl rfl

/-- Every event keeps the invariant. -/
theorem Numbered.step (h : Numbered config t) {event : SenderEvent}
    (hstep : t.step event = some t') : Numbered config t' := by
  cases event with
  | whole event =>
    obtain ⟨next, hnext, rfl⟩ := Option.map_eq_some_iff.1 hstep
    exact ⟨(Engine.receiver_step hnext).1.trans h.config_eq, h.fits, inTurn_whole h.inTurn hnext⟩
  | enter m =>
    simp only [Senders.step, Engine.number_eq] at hstep
    cases hmisfit : Engine.misfit? t.engine.config m with
    | some cause =>
      rw [hmisfit] at hstep
      obtain rfl := Option.some.inj hstep
      exact ⟨h.config_eq, h.fits, h.inTurn⟩
    | none =>
      rw [hmisfit] at hstep
      obtain rfl := Option.some.inj hstep
      refine ⟨h.config_eq, ?_, h.inTurn.append⟩
      intro call hcall
      rcases List.mem_append.1 hcall with hold | hnew
      · exact h.fits call hold
      · rw [List.mem_singleton.1 hnew, ← h.config_eq]
        exact hmisfit
  | finish call =>
    unfold Senders.step at hstep
    simp only at hstep
    split at hstep
    · obtain rfl := Option.some.inj hstep
      obtain ⟨hconfig, hid⟩ := t.engine.frame_dispatch call.1 call.2
      refine ⟨hconfig.trans h.config_eq, ?_, ?_⟩
      · intro other hother
        exact h.fits other (List.mem_of_mem_erase hother)
      · show InTurn t.ids (t.engine.dispatch call.1 call.2).2.1.nextMessageId
        rw [hid]
        exact h.inTurn
    · cases hstep

theorem Numbered.run (h : Numbered config t) {events : List SenderEvent}
    (hrun : t.run events = some t') : Numbered config t' := by
  induction events generalizing t with
  | nil =>
    obtain rfl := Option.some.inj hrun
    exact h
  | cons event rest ih =>
    obtain ⟨next, hnext, hrest⟩ := Option.bind_eq_some_iff.1 hrun
    exact ih (h.step hnext) hrest

/-- What holds of an engine and its callers.  The ids are 1, 2 and so on, as words of 32
bits, and none comes twice before all have been used.  A message that fits is given the
next id, whatever becomes of it then.  A call that nobody comes in between and a caller
who goes through the second half are all or nothing. -/
structure Sound (config : Config) (t : Senders) : Prop where
  config_eq : t.engine.config = config
  ids_eq : t.ids = (List.range t.ids.length).map fun count => UInt32.ofNat (1 + count)
  distinct : (t.ids.take UInt32.size).Nodup
  entered : ∀ m, (t.engine.number m).2.outlet = t.engine.outlet ∧
    (t.engine.number m).1 =
      match Engine.misfit? config m with
      | some cause => .error cause
      | none => .ok (UInt32.ofNat (1 + t.ids.length))
  sent : ∀ m, t.engine.AllOrNothing m (UInt32.ofNat (1 + t.ids.length))
    (t.engine.refusal? m) (t.engine.send m)
  finished : ∀ call ∈ t.waiting, t.engine.AllOrNothing call.1 call.2
    (t.engine.rejection? call.1) (t.engine.dispatch call.1 call.2)

theorem Numbered.sound (h : Numbered config t) (hconfig : config.fault? = none) :
    Sound config t := by
  have hnext : t.engine.nextMessageId = UInt32.ofNat (1 + t.ids.length) := h.inTurn.next_eq
  constructor
  case config_eq => exact h.config_eq
  case ids_eq => exact h.inTurn.ids_eq
  case distinct =>
    rw [h.inTurn.ids_eq, ← List.map_take, List.take_range]
    exact nodup_messageIds (Nat.min_le_left _ _)
  case entered =>
    intro m
    rw [Engine.number_eq, ← hnext, h.config_eq]
    cases Engine.misfit? config m <;> exact ⟨rfl, rfl⟩
  case sent =>
    intro m
    have hsame : t.engine.config.fault? = none := by
      rw [h.config_eq]
      exact hconfig
    rw [← hnext]
    exact Engine.allOrNothing_send hsame m
  case finished =>
    intro call hcall
    exact Engine.allOrNothing_dispatch t.engine call.2
      (Engine.version_of_fit hconfig (h.fits call hcall))

/-- Whatever an engine does and whoever else calls it, sending a message is all or
nothing, and the ids go up one by one. -/
theorem allOrNothing_of_run (he : Engine.ofConfig config = .ok e) {events : List SenderEvent}
    (hrun : (start e).run events = some t) : Sound config t :=
  ((numbered_start he).run hrun).sound (Engine.ofConfig_eq_ok he).1

/-- A caller is given an id, another one overtakes it, and then the queue is shut down.  A
message of a version that is not spoken has come in between. -/
theorem allOrNothing_of_run_overtaken :
    let first := Message.plain .nav 1 3 [1, 2, 3]
    let second := Message.plain .rpc 1 2 [7]
    let events : List SenderEvent := [.enter first, .whole (.send (Message.plain .nav 1 9 [])),
      .enter second, .finish (second, 2), .whole .shutdown]
    ∃ e t, Engine.ofConfig Config.default = .ok e ∧ (start e).run events = some t ∧
      t.ids = [1, 2] ∧ (t.engine.send second).1 = .error .shutdown ∧
      (t.engine.dispatch first 1).1 = .error .shutdown ∧
      (t.engine.dispatch first 1).2.1.outlet = t.engine.outlet := by
  intro first second events
  obtain ⟨e, he⟩ : ∃ e, Engine.ofConfig Config.default = .ok e := ⟨_, rfl⟩
  have hfacts : ((start e).run events).map (fun t =>
      (t.ids, t.waiting, t.engine.rejection? first, t.engine.refusal? second)) =
        some ([1, 2], [(first, 1)], some .shutdown, some .shutdown) := by
    obtain rfl := Except.ok.inj he
    decide +kernel
  obtain ⟨t, hrun, hfound⟩ := Option.map_eq_some_iff.1 hfacts
  simp only [Prod.mk.injEq] at hfound
  obtain ⟨hids, hwaiting, hrejected, hrefused⟩ := hfound
  have hsound := allOrNothing_of_run he hrun
  have hcall : (first, 1) ∈ t.waiting := by
    rw [hwaiting]
    exact List.mem_singleton_self _
  obtain ⟨hanswer, houtlet, -⟩ := (hsound.finished _ hcall).refused _ hrejected
  exact ⟨e, t, he, hrun, hids, ((hsound.sent second).refused _ hrefused).1, hanswer, houtlet⟩

end Senders

end HeadUnitLink
