import HeadUnitLink.CommandLine.Fragment
import HeadUnitLink.Proofs.Dispatch.Settling
import HeadUnitLink.Proofs.Engine.Admission
import HeadUnitLink.Proofs.Engine.Version

/-!
# An engine that sends one message

An engine is made, its version is set and it is given one message.  The frames
of the message are one batch then, and its workers can go on with it in many
ways.

* `Engine.send_ready`: the message is accepted, and this is the engine then.
* `Transcript.calls_first`: before that the workers have nothing to do, so all
  that they do comes behind the two calls.
* `Transcript.emits_of_run`: whatever they do, the bytes of the message are
  sent.
* `Engine.bytesFor_eq`: and so they are when the engine is left to itself.
-/

namespace HeadUnitLink

/-- A pool without jobs has no work for a worker. -/
theorem Pool.workerStep_ofWorkers (workers : Nat) (w : WorkerEvent) :
    (Pool.ofWorkers workers).workerStep w = none := by
  cases w with
  | claim =>
    show ((Pool.ofWorkers workers).claim?).map Prod.snd = none
    unfold Pool.claim?
    split
    · rfl
    · rfl
  | handOver job fails => rfl
  | complete job => rfl
  | leave =>
    have hstay : ¬ (Pool.ofWorkers workers).mayLeave = true := by
      intro hleave
      cases (Pool.mayLeave_iff.1 hleave).2.1
    exact if_neg hstay

/-- A fresh engine with these settings can send the message: it speaks its version,
it has a session unless the message is a remote call, and these are the bytes of
the frames. -/
structure Message.Sendable (m : Message) (config : Config) (encoded : List Bytes) : Prop where
  spoken : config.Spoken m.version
  session : m.service = .rpc ∨ m.session ≠ 0
  frames : ∃ frames, m.fragment 1 config.maxDataSize = .ok frames ∧
    Engine.encodeEach frames = .ok encoded

/-- A message has at least one frame. -/
theorem Message.Sendable.ne_nil {m : Message} {config : Config} {encoded : List Bytes}
    (h : m.Sendable config encoded) : encoded ≠ [] := by
  obtain ⟨frames, hfragment, hencoded⟩ := h.frames
  rintro rfl
  have hnil := List.map_eq_nil_iff.1 (Engine.encodeEach_eq_ok_iff.1 hencoded)
  exact Parcel.frames_ne_nil (p := .message m 1) hfragment hnil

namespace Engine

variable {config : Config} {m : Message} {encoded : List Bytes}

/-! ## The two calls -/

/-- An engine as it is made. -/
def fresh (config : Config) : Engine :=
  { config, receiver := Receiver.ofConfig config, outlet := Outlet.ofWorkers config.workers
    nextMessageId := 1 }

theorem ofConfig_eq_fresh (h : config.fault? = none) : ofConfig config = .ok (fresh config) := by
  unfold ofConfig
  rw [h]
  rfl

/-- A fresh engine whose version is set. -/
def ready (config : Config) (version : UInt8) : Engine :=
  { fresh config with receiver := { Receiver.ofConfig config with version } }

theorem setVersion_fresh {version : UInt8} (h : config.Spoken version) :
    (fresh config).setVersion version = (.ok (), ready config version) := by
  unfold setVersion
  exact if_pos (speaks_iff.2 h)

/-- An engine whose only batch are the frames of its first message. -/
def loaded (config : Config) (m : Message) (encoded : List Bytes) : Engine :=
  { ready config m.version with
    outlet := { Outlet.ofWorkers config.workers with
      pool := (History.single config.workers m.session m.service.priority encoded).pool }
    nextMessageId := 2 }

/-- A message that can be sent is accepted. -/
theorem send_ready (h : m.Sendable config encoded) :
    (ready config m.version).send m =
      (.ok 1, loaded config m encoded, [.resetHeartbeat m.session]) := by
  let e := ready config m.version
  have hspeaks : e.speaks m.version = true := speaks_iff.2 h.spoken
  have hallowed : ¬ (m.service ≠ .rpc ∧ m.session = 0) := by
    rintro ⟨hservice, hnone⟩
    rcases h.session with hrpc | hsome
    · exact hservice hrpc
    · exact hsome hnone
  obtain ⟨frames, hfragment, hencoded⟩ := h.frames
  have hcut : m.fragment e.nextMessageId e.config.maxDataSize = .ok frames := hfragment
  have hsubmit : submit { e with nextMessageId := e.nextMessageId + 1 } m.service m.session frames =
      .ok (loaded config m encoded) := by
    unfold submit Outlet.submit Pool.submit Queue.submit
    simp only [hencoded, if_neg h.ne_nil]
    rfl
  show e.send m = _
  unfold send
  rw [if_neg (by simp [hspeaks]), if_neg hallowed]
  simp only [hcut, hsubmit]
  rfl

/-- What a fresh engine sends for a message when it is left to itself. -/
theorem bytesFor_eq (hvalid : config.fault? = none) (h : m.Sendable config encoded) :
    bytesFor config m = .ok encoded.flatten := by
  unfold bytesFor
  rw [ofConfig_eq_fresh hvalid]
  simp only [setVersion_fresh h.spoken, send_ready h]
  have hsettle := History.settle_single config.workers m.session m.service.priority h.ne_nil
  exact congrArg (fun sent : List Bytes => Except.ok sent.flatten) hsettle

end Engine

/-! ## All that the workers can do -/

/-- Is this a call of the application, and not the work of a worker? -/
def EngineEvent.isCall : EngineEvent → Bool
  | .worker _ => false
  | _ => true

/-- Events without a call are the work of the workers. -/
theorem EngineEvent.exists_workers {events : List EngineEvent}
    (h : events.filter isCall = []) : ∃ ws : List WorkerEvent, events = ws.map .worker := by
  induction events with
  | nil => exact ⟨[], rfl⟩
  | cons event rest ih =>
    cases event with
    | worker w =>
      obtain ⟨ws, rfl⟩ := ih h
      exact ⟨w :: ws, rfl⟩
    | _ => exact absurd h (by simp [isCall])

namespace Transcript

variable {t t' : Transcript} {config : Config} {m : Message} {encoded : List Bytes}

/-- While there is nothing to do for the workers, a call comes first. -/
theorem calls_first (workers : Nat) {call : EngineEvent} {calls events : List EngineEvent}
    (hpool : t.engine.outlet.pool = Pool.ofWorkers workers)
    (hcalls : events.filter EngineEvent.isCall = call :: calls)
    (hrun : t.run events = some t') :
    ∃ rest next, events = call :: rest ∧ rest.filter EngineEvent.isCall = calls ∧
      t.step call = some next ∧ next.run rest = some t' := by
  cases events with
  | nil => cases hcalls
  | cons event rest =>
    obtain ⟨next, hstep, hrest⟩ := Option.bind_eq_some_iff.1 hrun
    cases hcall : event.isCall with
    | true =>
      rw [List.filter_cons_of_pos hcall] at hcalls
      obtain ⟨rfl, hmore⟩ := List.cons.inj hcalls
      exact ⟨rest, next, rfl, hmore, hstep, hrest⟩
    | false =>
      obtain ⟨w, rfl⟩ : ∃ w, event = .worker w := by
        cases event with
        | worker w => exact ⟨w, rfl⟩
        | _ => cases hcall
      obtain ⟨e, he, -⟩ := Option.map_eq_some_iff.1 hstep
      obtain ⟨p, hp, -⟩ := Option.map_eq_some_iff.1 he
      rw [hpool, Pool.workerStep_ofWorkers] at hp
      cases hp

/-- The workers of an engine run as those of its pool do, and what they hand over
is sent. -/
theorem run_workers {h : History} {ws : List WorkerEvent}
    (hpool : h.pool = t.engine.outlet.pool) (hsink : ∀ job, .handOver job true ∉ ws)
    (hrun : t.run (ws.map .worker) = some t') :
    ∃ h', h.run (ws.map .worker) = some h' ∧
      t' = { engine := { t.engine with outlet := { t.engine.outlet with pool := h'.pool } }
             sent := t.sent
             wire := t.wire ++ (ws.flatMap WorkerEvent.handed).flatMap Job.bytes } := by
  induction ws generalizing t h with
  | nil =>
    obtain rfl := Option.some.inj hrun
    refine ⟨h, rfl, ?_⟩
    rw [hpool]
    show t = { t with wire := t.wire ++ [] }
    rw [List.append_nil]
  | cons w rest ih =>
    obtain ⟨next, hstep, hrest⟩ := Option.bind_eq_some_iff.1 hrun
    obtain ⟨e, he, rfl⟩ := Option.map_eq_some_iff.1 hstep
    obtain ⟨p, hp, rfl⟩ := Option.map_eq_some_iff.1 he
    have hfirst : ∀ job, w ≠ .handOver job true := by
      rintro job rfl
      exact hsink job List.mem_cons_self
    have hnext : h.step (.worker w) =
        some { h with pool := p, handed := h.handed ++ w.handed } := by
      show (h.pool.workerStep w).map _ = _
      rw [hpool, hp]
      rfl
    obtain ⟨h', hmore, rfl⟩ :=
      ih (h := { h with pool := p, handed := h.handed ++ w.handed }) rfl
        (fun job hjob => hsink job (List.mem_cons_of_mem _ hjob)) hrest
    refine ⟨h', ?_, ?_⟩
    · rw [List.map_cons, History.run, hnext]
      exact hmore
    · rw [wire_eq_of_worker hfirst, List.flatMap_cons, List.flatMap_append]
      simp only [EngineEvent.sent, List.append_nil, List.append_assoc]

theorem step_setVersion {version : UInt8} (hspoken : config.Spoken version) :
    (start (Engine.fresh config)).step (.setVersion version) =
      some (start (Engine.ready config version)) := by
  unfold step
  simp only [start, Engine.step, Engine.setVersion_fresh hspoken]
  rfl

theorem step_send (h : m.Sendable config encoded) :
    (start (Engine.ready config m.version)).step (.send m) =
      some { engine := Engine.loaded config m encoded, sent := [(m, 1)], wire := [] } := by
  unfold step
  simp only [start, Engine.step, EngineEvent.sent, Engine.send_ready h]
  rfl

/-- The engine has accepted this message alone.  As long as it has work its workers
can go on, and when it has none it has sent these bytes. -/
structure Emits (t : Transcript) (m : Message) (wire : Bytes) : Prop where
  version_eq : t.engine.version = m.version
  sent_eq : t.sent = [(m, 1)]
  wire_eq : t.engine.outlet.pool.queue.isIdle = true → t.wire = wire
  goes_on : t.engine.outlet.pool.queue.isIdle = false →
    ∃ w, (∀ job, w ≠ .handOver job true) ∧ (t.engine.workerStep w).isSome

/-- Whatever the workers do between the two calls and after them, they are done
in so many steps, and have sent the frames of the message in order then. -/
theorem emits_of_run (h : m.Sendable config encoded) {events : List EngineEvent}
    (hcalls : events.filter EngineEvent.isCall = [.setVersion m.version, .send m])
    (hsink : ∀ job, .worker (.handOver job true) ∉ events)
    (hrun : (start (Engine.fresh config)).run events = some t) :
    events.length ≤ 2 + 3 * encoded.length ∧ t.Emits m encoded.flatten := by
  -- setting the version leaves the pool without jobs, so the second call comes next
  obtain ⟨later, ready, rfl, hlater, hready, hrun⟩ :=
    calls_first config.workers rfl hcalls hrun
  obtain rfl := Option.some.inj ((step_setVersion h.spoken).symm.trans hready)
  obtain ⟨last, loaded, rfl, hlast, hloaded, hrun⟩ :=
    calls_first config.workers rfl hlater hrun
  obtain rfl := Option.some.inj ((step_send h).symm.trans hloaded)
  obtain ⟨ws, rfl⟩ := EngineEvent.exists_workers hlast
  have hworkers : ∀ job, .handOver job true ∉ ws := by
    intro job hjob
    exact hsink job (List.mem_cons_of_mem _ (List.mem_cons_of_mem _ (List.mem_map_of_mem hjob)))
  obtain ⟨h', hhistory, rfl⟩ := run_workers
    (h := History.single config.workers m.session m.service.priority encoded) rfl hworkers hrun
  obtain ⟨hlength, hwire, hgoes⟩ := History.run_single h.ne_nil hhistory
  obtain ⟨-, hhanded, -⟩ := History.run_workers hhistory
  refine ⟨?_, rfl, rfl, fun hidle => ?_, fun hbusy => ?_⟩
  · rw [List.length_cons, List.length_cons, List.length_map]
    omega
  · rw [← hwire hidle, hhanded, List.flatMap_def]
    rfl
  · obtain ⟨w, p, hw, hstep⟩ := hgoes hbusy
    refine ⟨w, hw, ?_⟩
    show ((h'.pool.workerStep w).map _).isSome
    rw [hstep]
    rfl

end Transcript

end HeadUnitLink
