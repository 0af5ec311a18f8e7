import HeadUnitLink.Engine.Basic

/-!
# Runs of an engine

An `EngineEvent` is everything that can happen to an engine: a request of the
application, bytes of the transport, or a step of one of its workers.  Workers
run between any two requests, so a run is a list of events in any order.

`Engine.Reachable` is what a run can lead to.  `Engine.receiver_step` says once
what a step changes besides the dispatch queue, and `Engine.submit_eq_ok` what a
request does to the queue.
-/

namespace HeadUnitLink

/-- What can happen to an engine. -/
inductive EngineEvent where
  | send (m : Message)
  | startSession (session : UInt8)
  | startService (service : Service) (session : UInt8)
  | endService (service : Service) (session : UInt8)
  | heartbeat (session : UInt8)
  | heartbeatAck (session : UInt8)
  | setVersion (version : UInt8)
  /-- Bytes of the transport arrive. -/
  | receive (chunk : Bytes)
  | shutdown
  | worker (event : WorkerEvent)
  deriving DecidableEq, Repr

namespace Engine

/-- The engine after one of its workers has done something, if it can. -/
def workerStep (e : Engine) (event : WorkerEvent) : Option Engine :=
  (e.outlet.pool.workerStep event).map fun pool => { e with outlet := { e.outlet with pool } }

/-- The engine after an event, if the event can happen.  Every request can be
made at any time; one that is refused is an event, too. -/
def step (e : Engine) : EngineEvent → Option Engine
  | .send m => some (e.send m).2.1
  | .startSession session => some (e.startSession session).2
  | .startService service session => some (e.startService service session).2
  | .endService service session => some (e.endService service session).2
  | .heartbeat session => some (e.heartbeat session).2
  | .heartbeatAck session => some (e.heartbeatAck session).2
  | .setVersion version => some (e.setVersion version).2
  | .receive chunk => some (e.receive chunk).1
  | .shutdown => some e.shutdown
  | .worker event => e.workerStep event

/-- What a fresh engine with these settings can become. -/
inductive Reachable (config : Config) : Engine → Prop where
  | fresh {e : Engine} (h : ofConfig config = .ok e) : Reachable config e
  | step {e e' : Engine} {event : EngineEvent} (hreach : Reachable config e)
      (h : e.step event = some e') : Reachable config e'

/-! ## What a request does -/

/-- An accepted request adds one batch to the dispatch queue. -/
theorem submit_eq_ok {e e' : Engine} {service : Service} {session : UInt8} {frames : List Frame}
    (h : e.submit service session frames = .ok e') :
    ∃ encoded pool, encodeEach frames = .ok encoded ∧
      e.outlet.pool.submit session service.priority encoded = .ok pool ∧
      e' = { e with outlet := { e.outlet with pool } } := by
  unfold submit at h
  split at h
  · exact absurd h (by simp)
  · rename_i encoded hencoded
    unfold Outlet.submit at h
    cases hsubmit : e.outlet.pool.submit session service.priority encoded with
    | error cause =>
      rw [hsubmit] at h
      exact absurd h (by simp [Except.map])
    | ok pool =>
      rw [hsubmit] at h
      exact ⟨encoded, pool, hencoded, hsubmit, (Except.ok.inj h).symm⟩

/-- A request for one control frame adds the frame or changes nothing. -/
theorem request_cases (e : Engine) (service : Service) (session : UInt8)
    (frame : Except FrameError Frame) :
    (e.request service session frame).2 = e ∨
      ∃ content, frame = .ok content ∧
        e.submit service session [content] = .ok (e.request service session frame).2 := by
  unfold request
  split
  · exact Or.inl rfl
  · rename_i content
    split
    · exact Or.inl rfl
    · rename_i e' hsubmit
      exact Or.inr ⟨content, rfl, hsubmit⟩

/-- A message is refused, which may use its id up, or its fragments are added
as one batch. -/
theorem send_cases (e : Engine) (m : Message) :
    (∃ cause id, e.send m = (.error cause, { e with nextMessageId := id }, [])) ∨
      ∃ frames e', m.fragment e.nextMessageId e.config.maxDataSize = .ok frames ∧
        submit { e with nextMessageId := e.nextMessageId + 1 } m.service m.session frames =
          .ok e' ∧
        e.send m = (.ok e.nextMessageId, e', [.resetHeartbeat m.session]) := by
  unfold send
  split
  · exact Or.inl ⟨_, e.nextMessageId, rfl⟩
  · split
    · exact Or.inl ⟨_, e.nextMessageId, rfl⟩
    · simp only
      split
      · exact Or.inl ⟨_, _, rfl⟩
      · rename_i frames hfragment
        split
        · exact Or.inl ⟨_, _, rfl⟩
        · rename_i e' hsubmit
          exact Or.inr ⟨frames, e', hfragment, hsubmit, rfl⟩

/-! ## What a step leaves alone -/

theorem frame_submit {e e' : Engine} {service : Service} {session : UInt8} {frames : List Frame}
    (h : e.submit service session frames = .ok e') :
    e'.config = e.config ∧ e'.receiver = e.receiver := by
  obtain ⟨_, _, _, _, rfl⟩ := submit_eq_ok h
  exact ⟨rfl, rfl⟩

theorem frame_request (e : Engine) (service : Service) (session : UInt8)
    (frame : Except FrameError Frame) :
    (e.request service session frame).2.config = e.config ∧
      (e.request service session frame).2.receiver = e.receiver := by
  rcases request_cases e service session frame with he | ⟨_, _, hsubmit⟩
  · rw [he]
    exact ⟨rfl, rfl⟩
  · exact frame_submit hsubmit

theorem frame_startService (e : Engine) (service : Service) (session : UInt8) :
    (e.startService service session).2.config = e.config ∧
      (e.startService service session).2.receiver = e.receiver := by
  unfold startService
  split
  · exact ⟨rfl, rfl⟩
  · exact frame_request e service session _

theorem frame_send (e : Engine) (m : Message) :
    (e.send m).2.1.config = e.config ∧ (e.send m).2.1.receiver = e.receiver := by
  rcases send_cases e m with ⟨_, _, hsend⟩ | ⟨_, _, _, hsubmit, hsend⟩
  · rw [hsend]
    exact ⟨rfl, rfl⟩
  · obtain ⟨hconfig, hreceiver⟩ := frame_submit hsubmit
    rw [hsend]
    exact ⟨hconfig, hreceiver⟩

/-- The receiving side after an event. -/
def receiverAfter (e : Engine) : EngineEvent → Receiver
  | .receive chunk => (e.receiver.receive e.config chunk).1
  | .setVersion version => if e.speaks version then { e.receiver with version } else e.receiver
  | _ => e.receiver

/-- The settings stay, and only received bytes and a new version change the
receiving side. -/
theorem receiver_step {e e' : Engine} {event : EngineEvent} (h : e.step event = some e') :
    e'.config = e.config ∧ e'.receiver = e.receiverAfter event := by
  have hsame : ∀ {next : Engine}, next.config = e.config ∧ next.receiver = e.receiver →
      some next = some e' → e'.config = e.config ∧ e'.receiver = e.receiver := by
    intro next hnext heq
    obtain rfl := Option.some.inj heq
    exact hnext
  cases event with
  | send m => exact hsame (frame_send e m) h
  | startSession session => exact hsame (frame_startService e .rpc session) h
  | startService service session => exact hsame (frame_startService e service session) h
  | endService service session => exact hsame (frame_request e service session _) h
  | heartbeat session => exact hsame (frame_request e .control session _) h
  | heartbeatAck session => exact hsame (frame_request e .control session _) h
  | setVersion version =>
    obtain rfl := Option.some.inj h
    simp only [setVersion, receiverAfter]
    split <;> exact ⟨rfl, rfl⟩
  | receive chunk =>
    obtain rfl := Option.some.inj h
    exact ⟨rfl, rfl⟩
  | shutdown => exact @hsame e.shutdown ⟨rfl, rfl⟩ h
  | worker event =>
    obtain ⟨pool, _, rfl⟩ := Option.map_eq_some_iff.1 h
    exact ⟨rfl, rfl⟩

/-! ## What every reachable engine has -/

theorem ofConfig_eq_ok {config : Config} {e : Engine} (h : ofConfig config = .ok e) :
    config.fault? = none ∧ e =
      { config := config, receiver := Receiver.ofConfig config
        outlet := Outlet.ofWorkers config.workers, nextMessageId := 1 } := by
  unfold ofConfig at h
  split at h
  · exact absurd h (by simp)
  · rename_i hfault
    exact ⟨hfault, (Except.ok.inj h).symm⟩

theorem Reachable.config_eq {config : Config} {e : Engine} (h : Reachable config e) :
    e.config = config := by
  induction h with
  | fresh h =>
    obtain ⟨_, rfl⟩ := ofConfig_eq_ok h
    rfl
  | step _ hstep ih => rw [(receiver_step hstep).1, ih]

/-- A property of the receiving side that holds at first, and that received
bytes and a new version keep, holds of every reachable engine. -/
theorem Reachable.receiver_induction {config : Config} {P : Receiver → Prop}
    (hfresh : P (Receiver.ofConfig config))
    (hreceive : ∀ r chunk, P r → P (r.receive config chunk).1)
    (hversion : ∀ (r : Receiver) version, minVersion ≤ version → version ≤ config.maxVersion →
      P r → P { r with version })
    {e : Engine} (h : Reachable config e) : P e.receiver := by
  induction h with
  | fresh h =>
    obtain ⟨_, rfl⟩ := ofConfig_eq_ok h
    exact hfresh
  | @step e e' event hreach hstep ih =>
    have hconfig : e.config = config := hreach.config_eq
    rw [(receiver_step hstep).2]
    cases event with
    | receive chunk =>
      simp only [receiverAfter, hconfig]
      exact hreceive _ chunk ih
    | setVersion version =>
      simp only [receiverAfter]
      split
      · rename_i hspeaks
        unfold speaks at hspeaks
        rw [hconfig, Bool.and_eq_true, decide_eq_true_iff, decide_eq_true_iff] at hspeaks
        exact hversion _ version hspeaks.1 hspeaks.2 ih
      · exact ih
    | _ => exact ih

end Engine

end HeadUnitLink
