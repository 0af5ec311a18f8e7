import HeadUnitLink.Proofs.Engine.Run
import HeadUnitLink.Proofs.Receiver.Teardown

/-!
# What an engine hears

A `Reception` is an engine with a record of the frames that it has taken in and
of everything that it has told the application.

`Reception.Faithful` says that the record explains the engine: a fresh receiver
that is given these frames delivers the same messages and has the same buffers.
Requests and the version they change have no part in it.  What a teardown does
among the frames of a run then follows from what it does to a receiver, which is
`Reception.isolated_of_run`.
-/

namespace HeadUnitLink

/-- An engine with a record of what it has received. -/
structure Reception where
  engine : Engine
  /-- The frames that were taken in. -/
  frames : List Frame
  /-- What the application was told. -/
  notices : List Notice

namespace EngineEvent

/-- The frames that an event makes an engine take in. -/
def heard (e : Engine) : EngineEvent → List Frame
  | .receive chunk => (e.receiver.feed chunk).framesMet e.config
  | _ => []

/-- What an event makes an engine tell. -/
def told (e : Engine) : EngineEvent → List Notice
  | .receive chunk => (e.receive chunk).2
  | .send m => (e.send m).2.2
  | _ => []

end EngineEvent

namespace Reception

/-- Nothing has been received yet. -/
def start (e : Engine) : Reception := { engine := e, frames := [], notices := [] }

/-- The reception after an event, if the event can happen. -/
def step (t : Reception) (event : EngineEvent) : Option Reception :=
  (t.engine.step event).map fun engine =>
    { engine, frames := t.frames ++ event.heard t.engine
      notices := t.notices ++ event.told t.engine }

/-- The reception after a sequence of events, if each can happen in its turn. -/
def run (t : Reception) : List EngineEvent → Option Reception
  | [] => some t
  | event :: rest => (t.step event).bind fun t => t.run rest

/-- A property that every event keeps holds after every run. -/
theorem run_induction {P : Reception → Prop}
    (hstep : ∀ t event t', P t → t.step event = some t' → P t') {t t' : Reception}
    {events : List EngineEvent} (h : P t) (hrun : t.run events = some t') : P t' := by
  induction events generalizing t with
  | nil =>
    obtain rfl := Option.some.inj hrun
    exact h
  | cons event rest ih =>
    obtain ⟨next, hnext, hrest⟩ := Option.bind_eq_some_iff.1 hrun
    exact ih (hstep t event next h hnext) hrest

/-- A run leads an engine to what it can become. -/
theorem reachable_of_run {config : Config} {e : Engine} (he : Engine.ofConfig config = .ok e)
    {t : Reception} {events : List EngineEvent} (hrun : (start e).run events = some t) :
    Engine.Reachable config t.engine := by
  refine run_induction (P := fun t => Engine.Reachable config t.engine) ?_ (.fresh he) hrun
  intro t event t' hreach hstep
  obtain ⟨e', he', rfl⟩ := Option.map_eq_some_iff.1 hstep
  exact hreach.step he'

/-- The messages that were delivered. -/
def messages (t : Reception) : List Message := t.notices.filterMap Notice.message?

/-! ## The record explains the engine -/

/-- A fresh receiver that is given the frames delivers the messages and has the
buffers. -/
structure Faithful (config : Config) (t : Reception) : Prop where
  config_eq : t.engine.config = config
  assembler_eq : t.engine.receiver.assembler =
    (Receiver.routeAll config (Receiver.ofConfig config) t.frames).1.assembler
  messages_eq : t.messages = Receiver.delivers config (Receiver.ofConfig config) t.frames

variable {config : Config} {e : Engine} {t t' : Reception}

theorem faithful_start (he : Engine.ofConfig config = .ok e) : Faithful config (start e) := by
  obtain ⟨-, rfl⟩ := Engine.ofConfig_eq_ok he
  exact ⟨rfl, rfl, rfl⟩

/-- An event that brings no bytes changes of the receiving side the version at
most, and tells of nothing but the heartbeat timer. -/
theorem quiet_of_ne_receive {e' : Engine} {event : EngineEvent} (h : e.step event = some e')
    (hevent : ∀ chunk, event ≠ .receive chunk) :
    (∃ version, e'.receiver = { e.receiver with version }) ∧ event.heard e = [] ∧
      ∀ {α : Type} (pick : Notice → Option α),
        (∀ session, pick (.resetHeartbeat session) = none) →
          (event.told e).filterMap pick = [] := by
  rw [(Engine.receiver_step h).2]
  cases event with
  | receive chunk => exact absurd rfl (hevent chunk)
  | send m =>
    refine ⟨⟨_, rfl⟩, rfl, fun pick hpick => ?_⟩
    simp only [EngineEvent.told]
    rcases Engine.send_cases e m with ⟨_, _, hsend⟩ | ⟨_, _, _, _, hsend⟩
    · rw [hsend]
      rfl
    · rw [hsend]
      simp only [List.filterMap_cons, hpick, List.filterMap_nil]
  | setVersion version =>
    simp only [Engine.receiverAfter]
    split <;> exact ⟨⟨_, rfl⟩, rfl, fun _ _ => rfl⟩
  | _ => exact ⟨⟨_, rfl⟩, rfl, fun _ _ => rfl⟩

theorem Faithful.receive (h : Faithful config t) (chunk : Bytes) :
    Faithful config { engine := (t.engine.receive chunk).1
                      frames := t.frames ++ (t.engine.receiver.feed chunk).framesMet config
                      notices := t.notices ++ (t.engine.receive chunk).2 } := by
  obtain ⟨rfl, hbuffers, hold⟩ := h
  let fed := t.engine.receiver.feed chunk
  obtain ⟨hassembler, hmessages⟩ := Receiver.delivers_drain t.engine.config fed
  obtain ⟨hsame, hdelivers⟩ := Receiver.routeAll_congr t.engine.config
    (show fed.assembler = _ from hbuffers) (fed.framesMet t.engine.config)
  have hnew : (t.engine.receive chunk).2.filterMap Notice.message? = _ := hmessages.trans hdelivers
  refine ⟨rfl, ?_, ?_⟩
  · simp only [Receiver.routeAll_append]
    exact hassembler.trans hsame
  · simp only [messages, List.filterMap_append, Receiver.delivers_append]
    rw [hnew, ← hold]
    rfl

theorem Faithful.step (h : Faithful config t) {event : EngineEvent}
    (hstep : t.step event = some t') : Faithful config t' := by
  obtain ⟨e', he, rfl⟩ := Option.map_eq_some_iff.1 hstep
  by_cases hevent : ∃ chunk, event = .receive chunk
  · obtain ⟨chunk, rfl⟩ := hevent
    obtain rfl := Option.some.inj he
    have hnext := h.receive chunk
    rw [← h.config_eq] at hnext ⊢
    exact hnext
  · obtain ⟨⟨version, hreceiver⟩, hheard, hquiet⟩ :=
      quiet_of_ne_receive he fun chunk heq => hevent ⟨chunk, heq⟩
    refine ⟨(Engine.receiver_step he).1.trans h.config_eq, ?_, ?_⟩
    · simp only [hheard, List.append_nil, hreceiver]
      exact h.assembler_eq
    · unfold messages
      simp only [hheard, List.append_nil, List.filterMap_append,
        hquiet Notice.message? fun _ => rfl]
      exact h.messages_eq

theorem Faithful.run {events : List EngineEvent} (h : Faithful config t)
    (hrun : t.run events = some t') : Faithful config t' :=
  run_induction (fun _ _ _ h hstep => h.step hstep) h hrun

/-! ## Teardown in a run -/

/-- Whatever bytes an engine receives, in whatever chunks and with whatever
requests in between: once a frame has torn a key down, no message of the key has
anything to do with what came before the frame.  It is the message that would
come of the later frames alone, and its data is made of their payloads.  A
control frame leaves every buffer alone that it does not tear down. -/
theorem isolated_of_run (he : Engine.ofConfig config = .ok e) {events : List EngineEvent}
    (hrun : (start e).run events = some t) :
    (∀ before frame after, t.frames = before ++ frame :: after →
      ∃ later,
        t.messages =
          Receiver.delivers config (Receiver.ofConfig config) (before ++ [frame]) ++ later ∧
        ∀ key, frame.TearsDown key →
          later.filter (fun m => m.key = key) =
              (Receiver.delivers config (Receiver.ofConfig config) after).filter
                (fun m => m.key = key) ∧
            ∀ m ∈ later, m.key = key →
              ∃ parts : List Frame, parts.Sublist (Assembler.lane key after) ∧
                m.data = parts.flatMap Frame.payload) ∧
      ∀ (r : Receiver) (frame : Frame), frame.header.frameType = .control →
        let next := (Receiver.route config r frame).1
        (∀ key, ¬ frame.TearsDown key → next.assembler.get? key = r.assembler.get? key) ∧
          ((∀ key, ¬ frame.TearsDown key) → next.assembler = r.assembler) := by
  have hfaithful := (faithful_start he).run hrun
  constructor
  · intro before frame after hframes
    have hmessages := hfaithful.messages_eq
    rw [hframes, ← List.singleton_append, ← List.append_assoc, Receiver.delivers_append]
      at hmessages
    refine ⟨_, hmessages, fun key htears => ?_⟩
    -- the receiver that takes the later frames in has just taken in the teardown
    rw [Receiver.routeAll_append]
    refine ⟨Receiver.filter_delivers_of_tearsDown htears ?_ after, fun m hm hkey =>
      Receiver.data_of_delivers_of_tearsDown htears hm hkey⟩
    rw [Receiver.maxMessageSize_routeAll]
    rfl
  · intro r frame htype
    exact ⟨fun key hkeeps => Receiver.get?_route_of_control htype config r hkeeps,
      fun hkeeps => Receiver.assembler_route_of_control htype config r hkeeps⟩

/-- Two messages are under way on a session when the service of one is ended: its
last piece is refused, and the other message is delivered. -/
theorem isolated_of_run_two_services :
    let bulk := Message.plain .bulk 1 1 [0x6F, 0x6E]
    let audio := Message.plain .audio 1 1 [0x61, 0x62]
    let before := [bulk.firstFrame 0 1, bulk.consecutiveFrame 0 1 [0x6F],
      audio.firstFrame 0 1, audio.consecutiveFrame 0 1 [0x61]]
    let ended := Frame.stamped (Header.control .bulk 1 .endServiceAck 1) []
    let after := [bulk.consecutiveFrame 0 terminalSequence [0x6E],
      audio.consecutiveFrame 0 terminalSequence [0x62]]
    let events : List EngineEvent := [
      .receive [0x12, 0x0F, 0, 1, 0, 0, 0, 8, 0, 0, 0, 2, 0, 0, 0, 2, 0x13, 0x0F, 1, 1, 0, 0, 0],
      .heartbeat 1,
      .receive [1, 0x6F, 0x12, 0x0A, 0, 1, 0, 0, 0, 8, 0, 0, 0, 2, 0, 0, 0, 2,
        0x13, 0x0A, 1, 1, 0, 0, 0, 1, 0x61, 0x10, 0x0F, 5, 1, 0, 0, 0, 0,
        0x13, 0x0F, 0, 1, 0, 0, 0, 1, 0x6E, 0x13, 0x0A, 0, 1, 0, 0, 0, 1, 0x62]]
    ended.TearsDown bulk.key ∧ ¬ ended.TearsDown audio.key ∧
      ∃ e t, Engine.ofConfig Config.default = .ok e ∧ (start e).run events = some t ∧
        t.frames = before ++ ended :: after ∧ t.messages = [audio] ∧
        ∃ later,
          t.messages = Receiver.delivers Config.default (Receiver.ofConfig Config.default)
            (before ++ [ended]) ++ later ∧
          ∀ m ∈ later, m.key = bulk.key →
            ∃ parts : List Frame, parts.Sublist (Assembler.lane bulk.key after) ∧
              m.data = parts.flatMap Frame.payload := by
  intro bulk audio before ended after events
  obtain ⟨e, he⟩ : ∃ e, Engine.ofConfig Config.default = .ok e := ⟨_, rfl⟩
  obtain ⟨t, hrun⟩ : ∃ t, (start e).run events = some t := ⟨_, rfl⟩
  have htears : ended.TearsDown bulk.key := by decide
  have hframes : t.frames = before ++ ended :: after := by
    obtain rfl := Except.ok.inj he
    obtain rfl := Option.some.inj hrun
    decide +kernel
  have hmessages : t.messages = [audio] := by
    obtain rfl := Except.ok.inj he
    obtain rfl := Option.some.inj hrun
    decide +kernel
  obtain ⟨later, hlater, hisolated⟩ := (isolated_of_run he hrun).1 _ _ _ hframes
  exact ⟨htears, by decide, e, t, he, hrun, hframes, hmessages, later, hlater,
    (hisolated _ htears).2⟩

end Reception

end HeadUnitLink
