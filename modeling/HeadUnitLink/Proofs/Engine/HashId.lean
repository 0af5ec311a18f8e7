import HeadUnitLink.Proofs.Engine.Arrival
import HeadUnitLink.Proofs.Engine.Sessions
import HeadUnitLink.Proofs.Engine.Transcript
import HeadUnitLink.Proofs.Session.Acknowledgement

/-!
# The hash id comes back

The head unit hands a hash id out when a session starts, and expects it with the
request to end the session or one of its services.

* `Engine.AsksToEnd` is the request as it stands in the queue, read back from its
  bytes, and `Engine.asksToEnd_of_endService` says that every request that is
  accepted is of this form, with the hash id in the registry.
* `Reception.echoes_of_run` follows the hash id from the acknowledgement to the
  request, through everything that comes in between.
-/

namespace HeadUnitLink

/-- The request to end a service is one frame: the hash id is its message id and
its payload, and without a hash id they are 0 and empty. -/
theorem Frame.endService_eq_ok {service : Service} {session version : UInt8}
    {hashId : Option UInt32} {frame : Frame}
    (h : Frame.endService service session hashId version = .ok frame) :
    frame = stamped { Header.control service session .endService version with
      messageId := hashId.getD 0 } (hashId.elim [] Word.toBytes) := by
  unfold endService at h
  split at h
  · exact absurd h (by simp)
  · rename_i header hchecked
    obtain rfl := Header.eq_of_checked hchecked
    cases hashId with
    | none => exact (Except.ok.inj h).symm
    | some hash => exact (Except.ok.inj h).symm

namespace Engine

variable {config : Config} {e e' : Engine} {service : Service} {session : UInt8}

/-- A request that is accepted has queued its frame. -/
theorem request_eq_ok {frame : Except FrameError Frame}
    (h : e.request service session frame = (.ok (), e')) :
    ∃ content, frame = .ok content ∧ e.submit service session [content] = .ok e' := by
  unfold request at h
  split at h
  · exact absurd (Prod.mk.inj h).1 (by simp)
  · rename_i content
    split at h
    · exact absurd (Prod.mk.inj h).1 (by simp)
    · rename_i next hsubmit
      exact ⟨content, rfl, (Prod.mk.inj h).2 ▸ hsubmit⟩

/-- One frame is queued as one batch with its bytes. -/
theorem submit_singleton_eq_ok {content : Frame}
    (h : e.submit service session [content] = .ok e') :
    ∃ bytes, content.encode = .ok bytes ∧
      e' = { e with outlet := { e.outlet with pool := { e.outlet.pool with
        queue := e.outlet.pool.queue.push session service.priority [bytes] } } } := by
  obtain ⟨encoded, pool, hencoded, hpool, rfl⟩ := submit_eq_ok h
  obtain ⟨bytes, rfl⟩ : ∃ bytes, encoded = [bytes] := by
    have hlength := congrArg List.length (encodeEach_eq_ok_iff.1 hencoded)
    rw [List.length_map, List.length_map] at hlength
    exact List.length_eq_one_iff.1 hlength.symm
  refine ⟨bytes, (List.cons.inj (encodeEach_eq_ok_iff.1 hencoded)).1, ?_⟩
  unfold Pool.submit Queue.submit at hpool
  rw [if_neg (List.cons_ne_nil _ _)] at hpool
  split at hpool
  · exact absurd hpool (by simp [Except.map])
  · rw [← Except.ok.inj hpool]

/-- Of the two engines the second has one more frame in its queue, behind those
of the same priority: the request to end the service, in the version of the
engine, with this payload and, if the version has a message id, with this one. -/
def AsksToEnd (e e' : Engine) (service : Service) (session : UInt8) (payload : Bytes)
    (messageId : UInt32) : Prop :=
  ∃ bytes frame,
    e' = { e with outlet := { e.outlet with pool := { e.outlet.pool with
      queue := e.outlet.pool.queue.push session service.priority [bytes] } } } ∧
    (∀ limit, payload.length ≤ limit → Frame.decode limit bytes = .ok (some (frame, []))) ∧
    frame.header.controlKind? = some .endService ∧ frame.header.service = service ∧
    frame.header.session = session ∧ frame.header.version = e.version ∧
    frame.header.messageId = (if 3 ≤ e.version then messageId else 0) ∧ frame.payload = payload

/-- Every request to end a service that is accepted presents what the registry has
as the hash id of the session. -/
theorem asksToEnd_of_endService (h : e.endService service session = (.ok (), e')) :
    e.AsksToEnd e' service session ((e.registry.hashId session).elim [] Word.toBytes)
      ((e.registry.hashId session).getD 0) := by
  unfold endService at h
  obtain ⟨content, hframe, hsubmit⟩ := request_eq_ok h
  obtain ⟨bytes, hencode, hnext⟩ := submit_singleton_eq_ok hsubmit
  have hasks := (asks_endService hframe).1
  have hdecode : ∀ limit, content.payload.length ≤ limit →
      Frame.decode limit bytes = .ok (some (content.received, [])) := by
    intro limit hlimit
    have hread := Frame.decode_encode_append hencode hasks.readable hlimit []
    rwa [List.append_nil] at hread
  obtain rfl := Frame.endService_eq_ok hframe
  exact ⟨bytes, _, hnext, hdecode, rfl, rfl, rfl, rfl, rfl, rfl⟩

end Engine

namespace Reception

variable {config : Config} {e : Engine} {t : Reception}

/-- The hash id of a session comes back as it was handed out.

An acknowledgement whose bytes start where a frame is awaited is taken in, in
whatever chunks its bytes come and whatever is requested in between.  Wherever one
is among the frames of a run, it is reported with its hash id and its text.  From
then on, until a frame starts the session anew or ends it, every request to end a
service of the session that is accepted has exactly the hash id as its payload
and, in a version with a message id, as its message id.  Without a hash id, the
request has no payload and the message id 0. -/
theorem echoes_of_run (he : Engine.ofConfig config = .ok e) {events : List EngineEvent}
    (hrun : (start e).run events = some t) :
    (∀ stream bytes more ack session hash text,
      events.flatMap EngineEvent.bytes = stream ++ (bytes ++ more) →
      (Receiver.receive config (Receiver.ofConfig config) stream).1.AwaitsFrame →
      Frame.Opens ack session hash text → ack.encode = .ok bytes →
      ack.payload.length ≤ config.maxMessageSize →
        ack.received.Opens session hash text ∧
          ∃ after, t.frames = Receiver.framesOf config stream ++ ack.received :: after) ∧
    (∀ before ack after session hash text, t.frames = before ++ ack :: after →
      Frame.Opens ack session hash text →
        (∃ later, t.events = Registry.empty.events before ++
          .sessionStarted (Session.opened session (some hash)) ack.header.version text :: later) ∧
        ((∀ frame ∈ after, ¬ frame.Starts .rpc session ∧ ¬ frame.Ends .rpc session) →
          t.engine.registry.hashId session = some hash ∧
            ∀ service e', t.engine.endService service session = (.ok (), e') →
              t.engine.AsksToEnd e' service session (Word.toBytes hash) hash)) ∧
    ∀ session, t.engine.registry.hashId session = none →
      ∀ service e', t.engine.endService service session = (.ok (), e') →
        t.engine.AsksToEnd e' service session [] 0 := by
  obtain ⟨hregistry, hevents⟩ := recorded_of_run he hrun
  refine ⟨?_, ?_, ?_⟩
  · intro stream bytes more ack session hash text hbytes hawaits hopens hencode hlimit
    refine ⟨hopens.received, ?_⟩
    rw [frames_of_run he hrun, hbytes]
    exact Receiver.exists_framesOf_append hencode hopens.readable hlimit hawaits more
  · intro before ack after session hash text hframes hopens
    rw [hframes] at hregistry hevents
    constructor
    · rw [hevents, Registry.events_append, Registry.events, hopens.ofFrame]
      exact ⟨_, rfl⟩
    · intro hafter
      have hknown : t.engine.registry.hashId session = some hash := by
        rw [hregistry]
        exact Registry.hashId_of_opens hopens hafter Registry.empty
      refine ⟨hknown, fun service e' hend => ?_⟩
      have hasks := Engine.asksToEnd_of_endService hend
      rwa [hknown] at hasks
  · intro session hnone service e' hend
    have hasks := Engine.asksToEnd_of_endService hend
    rwa [hnone] at hasks

/-- A hash id that came in front of a text, in two chunks, is presented in a later
version for another service of the session. -/
theorem echoes_of_run_later_version :
    let ack : Frame :=
      { header :=
          { Header.control .rpc 1 .startServiceAck 2 with dataSize := 6 }
        payload := [0, 0, 0, 9, 0x61, 0] }
    let events : List EngineEvent := [
      .receive [0x20, 0x07, 2, 1, 0, 0, 0, 6, 0, 0], .heartbeat 1,
      .receive [0, 9, 0x61, 0, 0x20, 0x0B, 2, 1, 0, 0, 0, 0], .setVersion 4]
    ack.Opens 1 9 "a" ∧
      ∃ e t e', Engine.ofConfig Config.default = .ok e ∧ (start e).run events = some t ∧
        (∃ later, t.events =
          .sessionStarted (Session.opened 1 (some 9)) 2 "a" :: later) ∧
        t.engine.version = 4 ∧ t.engine.endService .nav 1 = (.ok (), e') ∧
        t.engine.AsksToEnd e' .nav 1 [0, 0, 0, 9] 9 := by
  intro ack events
  have hopens : ack.Opens 1 9 "a" := by
    refine ⟨by decide, .inFront 1 rfl ?_, by decide, by decide⟩
    rw [Utf8.toList_toUTF8]
    decide
  obtain ⟨e, he⟩ : ∃ e, Engine.ofConfig Config.default = .ok e := ⟨_, rfl⟩
  obtain ⟨t, hrun⟩ : ∃ t, (start e).run events = some t := ⟨_, rfl⟩
  have hframes : t.frames = [] ++ ack ::
      [{ header := Header.control .nav 1 .startServiceAck 2, payload := [] }] := by
    obtain rfl := Except.ok.inj he
    obtain rfl := Option.some.inj hrun
    decide +kernel
  have hversion : t.engine.version = 4 := by
    obtain rfl := Except.ok.inj he
    obtain rfl := Option.some.inj hrun
    decide +kernel
  have haccepted : (t.engine.endService .nav 1).1.toOption = some () := by
    obtain rfl := Except.ok.inj he
    obtain rfl := Option.some.inj hrun
    decide +kernel
  obtain ⟨e', hend⟩ : ∃ e', t.engine.endService .nav 1 = (.ok (), e') := by
    cases hresult : t.engine.endService .nav 1 with
    | mk result e' =>
      rw [hresult] at haccepted
      cases result with
      | error cause => exact absurd haccepted (by simp [Except.toOption])
      | ok => exact ⟨e', rfl⟩
  obtain ⟨htold, hecho⟩ := (echoes_of_run he hrun).2.1 [] ack _ 1 9 "a" hframes hopens
  refine ⟨hopens, e, t, e', he, hrun, htold, hversion, hend, ?_⟩
  exact (hecho (by decide)).2 .nav e' hend

end Reception

end HeadUnitLink
