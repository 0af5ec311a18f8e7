import HeadUnitLink.Proofs.Engine.Reception
import HeadUnitLink.Proofs.Receiver.Segments

/-!
# How much an engine holds

Whatever bytes a head unit sends, an engine keeps no more of them than its
settings allow.  Four things can grow: the bytes that are not yet a frame, the
number of bytes that are still to be dropped, the messages under way, and a
message that is delivered.

* `Frame.length_lt_of_decode_none` bounds the bytes that are not yet a frame.
* `Assembler.mem_handle` says where the entries of an assembler come from, and
  `Assembler.length_le_of_delivered` bounds a message by its frame or the limit.
* `Receiver.Confined` is the invariant.  `Receiver.Confined.step` carries it
  through one piece of work, and `Receiver.Confined.drain` through all of it.
* `Reception.confined_of_run` is the result for every run of an engine.
-/

namespace HeadUnitLink

/-! ## Frames -/

namespace Frame

/-- Bytes that are waited on are shorter than the longest frame. -/
theorem length_lt_of_decode_none {limit : Nat} {bytes : Bytes} (h : decode limit bytes = .ok none) :
    bytes.length < maxHeaderSize + limit := by
  rcases decode_ok_cases h with ⟨-, hshort⟩ | ⟨first, _, size, header, rfl, hsize, _, hfits, htake⟩
  · omega
  · have hmax := (headerSize_bounds hsize).2
    unfold takePayload at htake
    simp only at htake
    split at htake
    · rename_i hmissing
      rw [List.length_take, List.length_drop] at hmissing
      omega
    · exact absurd htake (by simp)

end Frame

/-! ## Messages under way -/

namespace Assembler

/-- An entry of an assembler was there before the frame, or it holds no more
than the limit. -/
theorem mem_handle {a : Assembler} {frame : Frame} {entry : MessageKey × PartialMessage}
    (h : entry ∈ (a.handle frame).2.buffers) :
    entry ∈ a.buffers ∨ entry.2.data.length ≤ a.maxMessageSize := by
  have herase : ∀ {key : MessageKey}, entry ∈ (a.erase key).buffers → entry ∈ a.buffers :=
    fun hmem => (List.mem_filter.1 hmem).1
  have hinsert : ∀ {key : MessageKey} {buffer : PartialMessage},
      buffer.data.length ≤ a.maxMessageSize → entry ∈ (a.insert key buffer).buffers →
        entry ∈ a.buffers ∨ entry.2.data.length ≤ a.maxMessageSize := by
    intro key buffer hlength hmem
    rcases List.mem_cons.1 hmem with rfl | hold
    · exact Or.inr hlength
    · exact Or.inl (herase hold)
  unfold handle at h
  split at h
  · exact Or.inl h
  · unfold single at h
    simp only at h
    split at h
    · exact Or.inl (herase h)
    · exact Or.inl h
  · unfold first at h
    split at h
    · exact Or.inl h
    · split at h
      · exact Or.inl (herase h)
      · exact hinsert (Nat.zero_le _) h
  · unfold consecutive at h
    simp only at h
    split at h
    · exact Or.inl h
    · split at h
      · exact Or.inl (herase h)
      · rename_i hfits
        rw [← List.length_append] at hfits
        split at h
        · exact hinsert (Nat.le_of_not_lt hfits) h
        · exact Or.inl (herase h)

/-- What a frame delivers is its own payload or is within the limit. -/
theorem length_le_of_delivered {a : Assembler} {frame : Frame} {m : Message}
    (h : delivered? (a.handle frame).1 = some m) :
    m.data.length ≤ max frame.payload.length a.maxMessageSize := by
  have hstep := onKey_gathers a.maxMessageSize (a.get? frame.header.key) frame
  rw [← handle_fst, h] at hstep
  revert hstep
  generalize (a.get? frame.header.key).map PartialMessage.data = before
  generalize Option.map PartialMessage.data _ = after
  intro hstep
  have hdata : ∀ {delivered : Option Bytes},
      Gathers a.maxMessageSize frame.payload before after delivered →
        ∀ data, delivered = some data → data.length ≤ max frame.payload.length a.maxMessageSize := by
    intro delivered hgathers data hdelivered
    cases hgathers with
    | whole =>
      obtain rfl := Option.some.inj hdelivered
      exact Nat.le_max_left _ _
    | finished hfits =>
      obtain rfl := Option.some.inj hdelivered
      rw [List.length_append]
      exact Nat.le_trans hfits (Nat.le_max_right _ _)
    | _ => exact absurd hdelivered (by simp)
  exact hdata hstep _ rfl

end Assembler

/-- A teardown adds nothing. -/
theorem Frame.mem_tearDown {frame : Frame} {a : Assembler}
    {entry : MessageKey × PartialMessage} (h : entry ∈ (frame.tearDown a).buffers) :
    entry ∈ a.buffers := by
  unfold tearDown at h
  split at h
  · split at h
    · exact (List.mem_filter.1 h).1
    · exact h
  · split at h
    · exact (List.mem_filter.1 h).1
    · exact (List.mem_filter.1 h).1
  · exact h

/-! ## The receiving side -/

namespace Receiver

variable {config : Config} {r r' : Receiver} {notices : List Notice}

/-- What is still to be dropped and what is under way is within the settings. -/
structure Confined (config : Config) (r : Receiver) : Prop where
  aligned : r.Aligned
  discard_le : r.discard ≤ config.maxMessageSize + 4
  limit_eq : r.assembler.maxMessageSize = config.maxMessageSize
  length_le : ∀ entry ∈ r.assembler.buffers, entry.2.data.length ≤ config.maxMessageSize

theorem confined_ofConfig (config : Config) : (ofConfig config).Confined config :=
  ⟨aligned_ofConfig config, Nat.zero_le _, rfl, fun _ hentry => absurd hentry List.not_mem_nil⟩

theorem Confined.feed (h : r.Confined config) (chunk : Bytes) :
    (r.feed chunk).Confined config :=
  ⟨h.aligned.feed chunk, Nat.le_trans (Nat.sub_le _ _) h.discard_le, h.limit_eq, h.length_le⟩

/-- The header of a malformed frame has arrived, so at most its payload can be
missing.  With the shortest header the limit leaves room for four bytes more. -/
theorem discard_skipFrame_le (hbound : maxHeaderSize + config.maxMessageSize < sizeModulus)
    {e : FrameError} {length : Nat} (hdiscard : r.discard = 0)
    (hdecode : Frame.decode config.maxMessageSize r.buffer = .error e)
    (hskip : skipLength? config r.buffer e = some length) :
    (r.skipFrame length).discard ≤ config.maxMessageSize + 4 := by
  obtain ⟨fault, rfl, _, hfits⟩ := skipLength?_eq_some_iff.1 hskip
  obtain ⟨_, _, size, _, hbuffer, hsize, hlength, _, _⟩ := Frame.decode_eq_malformed hdecode
  have hshort := (headerSize_bounds hsize).1
  rw [← hbuffer] at hlength
  unfold Frame.skipLimit at hfits
  rw [Nat.mod_eq_of_lt hbound] at hfits
  have hheader : shortHeaderSize + 4 = maxHeaderSize := rfl
  unfold skipFrame
  simp only
  split <;> omega

/-- A piece of work keeps to the settings, and so does what it delivers. -/
theorem Confined.step (hbound : maxHeaderSize + config.maxMessageSize < sizeModulus)
    (h : r.Confined config) (hstep : r.step? config = some (r', notices)) :
    r'.Confined config ∧
      ∀ m ∈ notices.filterMap Notice.message?, m.data.length ≤ config.maxMessageSize := by
  have haligned := h.aligned.step hstep
  have hdiscard := h.aligned.discard_of_step hstep
  rcases step_cases hstep with ⟨frame, rest, hdecode, hroute⟩ | ⟨e, hdecode, hresync⟩
  · rw [route_stream config r] at hroute
    obtain ⟨rfl, rfl⟩ := Prod.mk.inj hroute
    refine ⟨⟨haligned, h.discard_le, (maxMessageSize_route config r frame).trans h.limit_eq, ?_⟩, ?_⟩
    · intro entry hentry
      have hassembler : entry ∈ (route config r frame).1.assembler.buffers := hentry
      rw [assembler_route] at hassembler
      rcases Assembler.mem_handle (Frame.mem_tearDown hassembler) with hold | hnew
      · exact h.length_le entry hold
      · exact h.limit_eq ▸ hnew
    · intro m hm
      rw [messages_route, Option.mem_toList] at hm
      have hle := Assembler.length_le_of_delivered hm
      have hpayload := Frame.length_payload_le_of_decode hdecode
      rw [h.limit_eq] at hle
      omega
  · obtain ⟨hassembler, hmessages⟩ := resync_assembler config r e
    rw [hresync] at hassembler hmessages
    simp only at hassembler hmessages
    refine ⟨⟨haligned, ?_, hassembler ▸ h.limit_eq, hassembler ▸ h.length_le⟩, ?_⟩
    · unfold resync at hresync
      split at hresync
      · rename_i length hskip
        obtain ⟨rfl, -⟩ := Prod.mk.inj hresync
        exact discard_skipFrame_le hbound hdiscard hdecode hskip
      · obtain ⟨rfl, -⟩ := Prod.mk.inj hresync
        exact h.discard_le
    · rw [hmessages]
      exact fun _ hm => absurd hm List.not_mem_nil

theorem Confined.drain (hbound : maxHeaderSize + config.maxMessageSize < sizeModulus)
    (h : r.Confined config) :
    (r.drain config).1.Confined config ∧
      ∀ m ∈ (r.drain config).2.filterMap Notice.message?,
        m.data.length ≤ config.maxMessageSize := by
  induction r using step_induction config with
  | hstop r hstop =>
    rw [drain_of_none hstop]
    exact ⟨h, fun _ hm => absurd hm List.not_mem_nil⟩
  | hwork r r' notices hstep ih =>
    obtain ⟨hnext, hnow⟩ := h.step hbound hstep
    obtain ⟨hlast, hlater⟩ := ih hnext
    rw [drain_of_some hstep]
    refine ⟨hlast, fun m hm => ?_⟩
    rw [List.filterMap_append, List.mem_append] at hm
    exact hm.elim (hnow m) (hlater m)

end Receiver

/-! ## Runs -/

namespace Reception

variable {config : Config} {e : Engine} {t t' : Reception}

/-- What the engine holds and what it has delivered is within the settings. -/
structure Confined (config : Config) (t : Reception) : Prop where
  config_eq : t.engine.config = config
  receiver : t.engine.receiver.Confined config
  length_le : ∀ m ∈ t.messages, m.data.length ≤ config.maxMessageSize

theorem confined_start (he : Engine.ofConfig config = .ok e) : Confined config (start e) := by
  obtain ⟨-, rfl⟩ := Engine.ofConfig_eq_ok he
  exact ⟨rfl, Receiver.confined_ofConfig config, fun _ hm => absurd hm List.not_mem_nil⟩

theorem Confined.step (hbound : maxHeaderSize + config.maxMessageSize < sizeModulus)
    (h : Confined config t) {event : EngineEvent} (hstep : t.step event = some t') :
    Confined config t' := by
  obtain ⟨e', he', rfl⟩ := Option.map_eq_some_iff.1 hstep
  obtain ⟨hconfig, hreceiver⟩ := Engine.receiver_step he'
  have hnext : (t.engine.receiverAfter event).Confined config ∧
      ∀ m ∈ (event.told t.engine).filterMap Notice.message?,
        m.data.length ≤ config.maxMessageSize := by
    by_cases hevent : ∃ chunk, event = .receive chunk
    · obtain ⟨chunk, rfl⟩ := hevent
      have hdrain := (h.receiver.feed chunk).drain hbound
      rw [← h.config_eq] at hdrain ⊢
      exact hdrain
    · obtain ⟨⟨version, hsame⟩, -, hquiet⟩ :=
        quiet_of_ne_receive he' fun chunk heq => hevent ⟨chunk, heq⟩
      rw [← hreceiver, hsame, hquiet Notice.message? fun _ => rfl]
      obtain ⟨haligned, hdiscard, hlimit, hlength⟩ := h.receiver
      exact ⟨⟨haligned, hdiscard, hlimit, hlength⟩, fun _ hm => absurd hm List.not_mem_nil⟩
  refine ⟨hconfig.trans h.config_eq, hreceiver ▸ hnext.1, fun m hm => ?_⟩
  unfold messages at hm
  rw [List.filterMap_append, List.mem_append] at hm
  exact hm.elim (h.length_le m) (hnext.2 m)

/-- Whatever bytes an engine receives, in whatever chunks and with whatever
requests in between: what it keeps is shorter than the longest frame and waits
for more, at most a payload is still to be dropped, and that only while nothing
is kept, and neither a message under way nor one that was delivered is larger
than the settings allow. -/
theorem confined_of_run (he : Engine.ofConfig config = .ok e)
    (hbound : maxHeaderSize + config.maxMessageSize < sizeModulus) {events : List EngineEvent}
    (hrun : (start e).run events = some t) :
    let r := t.engine.receiver
    (r.buffer.length ≤ config.maxMessageSize + 11 ∧
        Frame.decode config.maxMessageSize r.buffer = .ok none) ∧
      (r.discard ≤ config.maxMessageSize + 4 ∧ (0 < r.discard → r.buffer = [])) ∧
      (∀ entry ∈ r.assembler.buffers, entry.2.data.length ≤ config.maxMessageSize) ∧
      ∀ m ∈ t.messages, m.data.length ≤ config.maxMessageSize := by
  intro r
  have hconfined : Confined config t :=
    run_induction (fun _ _ _ h hstep => h.step hbound hstep) (confined_start he) hrun
  have hstopped : Frame.decode config.maxMessageSize r.buffer = .ok none := by
    have hstop := (reachable_of_run he hrun).settled.stopped
    rw [hconfined.config_eq] at hstop
    exact Receiver.step?_eq_none_iff.1 hstop
  have hshort := Frame.length_lt_of_decode_none hstopped
  have hheader : maxHeaderSize = 12 := rfl
  refine ⟨⟨by omega, hstopped⟩, ⟨hconfined.receiver.discard_le, fun hpos => ?_⟩,
    hconfined.receiver.length_le, hconfined.length_le⟩
  exact hconfined.receiver.aligned.resolve_left (Nat.ne_of_gt hpos)

/-- All of a limit of eight bytes is used: by a message under way, by one that
was delivered, and by a malformed frame with a short header. -/
theorem confined_of_run_full :
    let config := { Config.default with maxMessageSize := 8 }
    let events : List EngineEvent := [
      .receive [0x12, 0x0F, 0, 1, 0, 0, 0, 8, 0, 0, 0, 8, 0, 0, 0, 2, 0x13, 0x0F, 1, 1, 0],
      .heartbeat 1,
      .receive [0, 0, 8, 1, 2, 3, 4, 5, 6, 7, 8, 0x11, 0x07, 0, 1, 0, 0, 0, 8, 1, 2, 3, 4],
      .receive [5, 6, 7, 8, 0x17, 0x07, 0, 1, 0, 0, 0, 12]]
    maxHeaderSize + config.maxMessageSize < sizeModulus ∧
      ∃ e t, Engine.ofConfig config = .ok e ∧ (start e).run events = some t ∧
        t.engine.receiver.discard = 12 ∧ t.engine.receiver.buffer = [] ∧
        t.engine.receiver.assembler.buffers.map (fun entry => entry.2.data.length) = [8] ∧
        t.messages.map (fun m => m.data.length) = [8] ∧
        (∀ entry ∈ t.engine.receiver.assembler.buffers, entry.2.data.length ≤ 8) ∧
        ∀ m ∈ t.messages, m.data.length ≤ 8 := by
  intro config events
  have hbound : maxHeaderSize + config.maxMessageSize < sizeModulus := by decide
  obtain ⟨e, he⟩ : ∃ e, Engine.ofConfig config = .ok e := ⟨_, rfl⟩
  obtain ⟨t, hrun⟩ : ∃ t, (start e).run events = some t := ⟨_, rfl⟩
  obtain ⟨-, -, hbuffers, hmessages⟩ := confined_of_run he hbound hrun
  refine ⟨hbound, e, t, he, hrun, ?_, ?_, ?_, ?_, hbuffers, hmessages⟩
  all_goals
    obtain rfl := Except.ok.inj he
    obtain rfl := Option.some.inj hrun
    decide +kernel

end Reception

end HeadUnitLink
