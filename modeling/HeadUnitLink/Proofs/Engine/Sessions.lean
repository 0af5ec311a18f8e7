import HeadUnitLink.Proofs.Engine.Reception
import HeadUnitLink.Proofs.Receiver.Sessions
import HeadUnitLink.Proofs.Session.Lawful

/-!
# The sessions of an engine

Requests change no session, so an engine knows of its sessions what the frames
that it has taken in say: `Reception.recorded_of_run`.  Its registry is in order,
whatever has come: `Engine.lawful_of_reachable`.
-/

namespace HeadUnitLink

namespace Reception

variable {config : Config} {e : Engine} {t t' : Reception}

/-- What has been reported of the sessions. -/
def events (t : Reception) : List ControlEvent := t.notices.filterMap Notice.control?

/-- The registry and the reports are those that the frames have. -/
structure Recorded (t : Reception) : Prop where
  registry_eq : t.engine.registry = Registry.empty.replay t.frames
  events_eq : t.events = Registry.empty.events t.frames

theorem recorded_start (he : Engine.ofConfig config = .ok e) : Recorded (start e) := by
  obtain ⟨-, rfl⟩ := Engine.ofConfig_eq_ok he
  exact ⟨rfl, rfl⟩

theorem Recorded.step (h : Recorded t) {event : EngineEvent} (hstep : t.step event = some t') :
    Recorded t' := by
  obtain ⟨e', he, rfl⟩ := Option.map_eq_some_iff.1 hstep
  by_cases hevent : ∃ chunk, event = .receive chunk
  · obtain ⟨chunk, rfl⟩ := hevent
    obtain rfl := Option.some.inj he
    let fed := t.engine.receiver.feed chunk
    obtain ⟨hregistry, hevents⟩ := Receiver.registry_drain t.engine.config fed
    have hbefore : fed.registry = Registry.empty.replay t.frames := h.registry_eq
    refine ⟨?_, ?_⟩
    · rw [Registry.replay_append, ← hbefore]
      exact hregistry
    · unfold events
      rw [List.filterMap_append, Registry.events_append, ← hbefore]
      exact congrArg₂ (· ++ ·) h.events_eq hevents
  · obtain ⟨⟨version, hreceiver⟩, hheard, hquiet⟩ :=
      quiet_of_ne_receive he fun chunk heq => hevent ⟨chunk, heq⟩
    refine ⟨?_, ?_⟩
    · unfold Engine.registry
      simp only [hheard, List.append_nil, hreceiver]
      exact h.registry_eq
    · unfold events
      simp only [hheard, List.append_nil, List.filterMap_append,
        hquiet Notice.control? fun _ => rfl]
      exact h.events_eq

/-- In every run, the sessions and the reports are those that the frames of the
run have. -/
theorem recorded_of_run (he : Engine.ofConfig config = .ok e) {events : List EngineEvent}
    (hrun : (start e).run events = some t) : Recorded t :=
  run_induction (fun _ _ _ h hstep => h.step hstep) (recorded_start he) hrun

end Reception

namespace Engine

variable {config : Config} {e : Engine}

/-- The sessions of an engine are in order after any requests and any received
bytes: their ids ascend, a session lists each service once and RPC first, its
services run in it, only a session that lists RPC has a hash id, which is not 0,
and nothing but RPC runs in session 0. -/
theorem lawful_of_reachable (h : Reachable config e) : e.registry.Lawful := by
  refine h.receiver_induction (P := fun r => r.registry.Lawful) Registry.lawful_empty ?_ ?_
  · intro r chunk hr
    rw [Receiver.receive, (Receiver.registry_drain config (r.feed chunk)).1]
    exact hr.replay _
  · exact fun _ _ _ _ hr => hr

/-- Sessions start with RPC, with a hash id or in session 0, and with another
service, and an engine is asked to end a service between two pieces of a frame. -/
theorem lawful_of_reachable_three_sessions :
    let events : List EngineEvent := [
      .receive [0x20, 0x07, 2, 1, 0, 0, 0, 5, 0, 0, 0, 9, 0x61, 0x10, 0x0B, 2, 1, 0, 0],
      .endService .nav 1,
      .receive [0, 0, 0x10, 0x07, 2, 0, 0, 0, 0, 0, 0x10, 0x0F, 2, 3, 0, 0, 0, 0]]
    ∃ e t, ofConfig Config.default = .ok e ∧ (Reception.start e).run events = some t ∧
      Reachable Config.default t.engine ∧
      t.engine.registry.sessions = [
        { id := 0, services := [{ service := .rpc, session := 0 }], hashId := none },
        { id := 1, hashId := some 9,
          services := [{ service := .rpc, session := 1 }, { service := .nav, session := 1 }] },
        { id := 3, services := [{ service := .bulk, session := 3 }], hashId := none }] ∧
      t.engine.registry.Lawful := by
  intro events
  obtain ⟨e, he⟩ : ∃ e, ofConfig Config.default = .ok e := ⟨_, rfl⟩
  obtain ⟨t, hrun⟩ : ∃ t, (Reception.start e).run events = some t := ⟨_, rfl⟩
  have hreach : Reachable Config.default t.engine := Reception.reachable_of_run he hrun
  refine ⟨e, t, he, hrun, hreach, ?_, lawful_of_reachable hreach⟩
  obtain rfl := Except.ok.inj he
  obtain rfl := Option.some.inj hrun
  decide +kernel

end Engine

end HeadUnitLink
