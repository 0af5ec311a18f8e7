import HeadUnitLink.Proofs.Message.Restart
import HeadUnitLink.Proofs.Receiver.Frames
import HeadUnitLink.Proofs.Receiver.Reading

/-!
# Teardown

The start of a session, and the end of a session or of a service, give up what
is under way there.  A control frame gives up nothing else.

* `Frame.TearsDown` says on which keys a frame gives up what is under way.
* `Receiver.get?_route` and `Receiver.delivers_cons` are all that a frame does
  to the buffers and all that it delivers.  The registry has no part in it, so
  `Receiver.routeAll_congr` holds of any two receivers with the same buffers.
* `Receiver.data_of_delivers` says where the data of a message has come from,
  and `Receiver.filter_delivers_congr` that one key decides alone about the
  messages that come there.
* `Receiver.delivers_drain` carries this over from frames to bytes.
-/

namespace HeadUnitLink

/-! ## What a frame tears down -/

/-- Does the frame give up what is under way on the key?  The start of a session
and the end of its RPC service do on every service of the session, and the end
of another service does on that service of the session. -/
def Frame.TearsDown (frame : Frame) (key : MessageKey) : Prop :=
  frame.header.session = key.session ∧
    (frame.header.controlKind? = some .startServiceAck ∧ frame.header.service = .rpc ∨
      frame.header.controlKind? = some .endServiceAck ∧
        (frame.header.service = .rpc ∨ frame.header.service = key.service))

instance (frame : Frame) (key : MessageKey) : Decidable (frame.TearsDown key) :=
  inferInstanceAs (Decidable (_ ∧ _))

/-- An assembler without what the frame tears down. -/
def Frame.tearDown (frame : Frame) (a : Assembler) : Assembler :=
  match frame.header.controlKind? with
  | some .startServiceAck =>
    if frame.header.service = .rpc then (a.discardSession frame.header.session).2 else a
  | some .endServiceAck =>
    if frame.header.service = .rpc then (a.discardSession frame.header.session).2
    else (a.discard frame.header.key).2
  | _ => a

namespace Frame

variable {frame : Frame} {key : MessageKey}

/-- What is torn down is given up, and nothing else. -/
theorem get?_tearDown (frame : Frame) (a : Assembler) (key : MessageKey) :
    (frame.tearDown a).get? key = if frame.TearsDown key then none else a.get? key := by
  unfold tearDown
  split
  · rename_i hkind
    split
    · rename_i hrpc
      rw [Assembler.get?_discardSession]
      refine ite_congr (propext ?_) (fun _ => rfl) fun _ => rfl
      unfold TearsDown
      simp [hkind, hrpc, eq_comm]
    · rename_i hrpc
      rw [if_neg]
      unfold TearsDown
      simp [hkind, hrpc]
  · rename_i hkind
    split
    · rename_i hrpc
      rw [Assembler.get?_discardSession]
      refine ite_congr (propext ?_) (fun _ => rfl) fun _ => rfl
      unfold TearsDown
      simp [hkind, hrpc, eq_comm]
    · rename_i hrpc
      show (a.erase frame.header.key).get? key = _
      rw [Assembler.get?_erase]
      refine ite_congr (propext ?_) (fun _ => rfl) fun _ => rfl
      obtain ⟨session, service⟩ := key
      unfold TearsDown Header.key
      simp [hkind, hrpc, eq_comm]
  · rename_i hstart hend
    rw [if_neg]
    rintro ⟨-, ⟨hkind, -⟩ | ⟨hkind, -⟩⟩
    · exact hstart hkind
    · exact hend hkind

/-- A frame that tears nothing down leaves everything as it is. -/
theorem tearDown_of_not (h : ∀ key, ¬ frame.TearsDown key) (a : Assembler) :
    frame.tearDown a = a := by
  unfold tearDown
  split
  · rename_i hkind
    split
    · rename_i hrpc
      exact absurd ⟨rfl, Or.inl ⟨hkind, hrpc⟩⟩ (h frame.header.key)
    · rfl
  · rename_i hkind
    exact absurd ⟨rfl, Or.inr ⟨hkind, Or.inr rfl⟩⟩ (h frame.header.key)
  · rfl

theorem tearDown_of_data (h : frame.header.controlKind? = none) (a : Assembler) :
    frame.tearDown a = a := by
  unfold tearDown
  rw [h]

@[simp] theorem maxMessageSize_tearDown (frame : Frame) (a : Assembler) :
    (frame.tearDown a).maxMessageSize = a.maxMessageSize := by
  unfold tearDown
  split
  · split <;> rfl
  · split <;> rfl
  · rfl

end Frame

namespace Assembler

/-- An assembler passes a control frame through. -/
theorem handle_of_control {frame : Frame} (htype : frame.header.frameType = .control)
    (a : Assembler) : a.handle frame = (.ok (.control frame), a) := by
  unfold handle
  simp only [htype]

end Assembler

namespace Receiver

variable {config : Config} {r r' : Receiver} {frame : Frame} {key : MessageKey}

/-! ## One frame -/

theorem assembler_routeControl (config : Config) (r : Receiver) (frame : Frame) :
    (routeControl config r frame).1.assembler = frame.tearDown r.assembler := by
  unfold routeControl ControlEvent.ofFrame Frame.tearDown
  cases hkind : frame.header.controlKind? with
  | none => simp only [hkind]
  | some kind =>
    cases kind with
    | startServiceAck =>
      simp only [hkind, ControlEvent.ofStartAck]
      by_cases hrpc : frame.header.service = .rpc
      · simp only [hrpc, if_true]
        rfl
      · simp only [hrpc, if_false]
        by_cases hzero : frame.header.session = 0
        · simp only [hzero, if_true]
        · simp only [hzero, if_false]
          rfl
    | endServiceAck =>
      simp only [hkind, Header.key]
      cases frame.header.service <;> rfl
    | _ => simp only [hkind, follow]

/-- The buffers after a frame: the assembler has taken it in, and what it tears
down is given up. -/
theorem assembler_route (config : Config) (r : Receiver) (frame : Frame) :
    (route config r frame).1.assembler = frame.tearDown (r.assembler.handle frame).2 := by
  by_cases htype : frame.header.frameType = .control
  · unfold route
    rw [Assembler.handle_of_control htype]
    exact assembler_routeControl config _ frame
  · rw [Frame.tearDown_of_data (Header.controlKind?_of_ne htype), route_of_data htype]

theorem get?_route (config : Config) (r : Receiver) (frame : Frame) (key : MessageKey) :
    (route config r frame).1.assembler.get? key =
      if frame.TearsDown key then none else (r.assembler.handle frame).2.get? key := by
  rw [assembler_route, Frame.get?_tearDown]

/-- What is under way after a frame was not torn down by it. -/
theorem get?_handle_of_route {buffer : PartialMessage}
    (h : (route config r frame).1.assembler.get? key = some buffer) :
    (r.assembler.handle frame).2.get? key = some buffer := by
  rw [get?_route] at h
  by_cases htears : frame.TearsDown key
  · rw [if_pos htears] at h
    exact absurd h (by simp)
  · rwa [if_neg htears] at h

@[simp] theorem maxMessageSize_route (config : Config) (r : Receiver) (frame : Frame) :
    (route config r frame).1.assembler.maxMessageSize = r.assembler.maxMessageSize := by
  rw [assembler_route, Frame.maxMessageSize_tearDown, Assembler.maxMessageSize_handle]

/-- A control frame leaves all buffers alone but those that it tears down. -/
theorem get?_route_of_control (htype : frame.header.frameType = .control) (config : Config)
    (r : Receiver) (hkeeps : ¬ frame.TearsDown key) :
    (route config r frame).1.assembler.get? key = r.assembler.get? key := by
  rw [get?_route, if_neg hkeeps, Assembler.handle_of_control htype]

theorem assembler_route_of_control (htype : frame.header.frameType = .control) (config : Config)
    (r : Receiver) (hkeeps : ∀ key, ¬ frame.TearsDown key) :
    (route config r frame).1.assembler = r.assembler := by
  rw [assembler_route, Frame.tearDown_of_not hkeeps, Assembler.handle_of_control htype]

/-! ## Many frames -/

/-- The messages that frames deliver. -/
def delivers (config : Config) (r : Receiver) (frames : List Frame) : List Message :=
  (routeAll config r frames).2.filterMap Notice.message?

theorem delivers_cons (config : Config) (r : Receiver) (frame : Frame) (rest : List Frame) :
    delivers config r (frame :: rest) =
      (Assembler.delivered? (r.assembler.handle frame).1).toList ++
        delivers config (route config r frame).1 rest := by
  unfold delivers
  rw [routeAll, List.filterMap_append, messages_route]

theorem routeAll_append (config : Config) (r : Receiver) (frames more : List Frame) :
    routeAll config r (frames ++ more) =
      ((routeAll config (routeAll config r frames).1 more).1,
        (routeAll config r frames).2 ++ (routeAll config (routeAll config r frames).1 more).2) := by
  induction frames generalizing r with
  | nil => rfl
  | cons frame rest ih => simp only [List.cons_append, routeAll, ih, List.append_assoc]

theorem delivers_append (config : Config) (r : Receiver) (frames more : List Frame) :
    delivers config r (frames ++ more) =
      delivers config r frames ++ delivers config (routeAll config r frames).1 more := by
  unfold delivers
  rw [routeAll_append, List.filterMap_append]

/-- Buffers and messages depend on the buffers alone. -/
theorem routeAll_congr (config : Config) (h : r.assembler = r'.assembler) (frames : List Frame) :
    (routeAll config r frames).1.assembler = (routeAll config r' frames).1.assembler ∧
      delivers config r frames = delivers config r' frames := by
  induction frames generalizing r r' with
  | nil => exact ⟨h, rfl⟩
  | cons frame rest ih =>
    have hnext : (route config r frame).1.assembler = (route config r' frame).1.assembler := by
      rw [assembler_route, assembler_route, h]
    rw [delivers_cons, delivers_cons, h, (ih hnext).2]
    exact ⟨(ih hnext).1, rfl⟩

theorem maxMessageSize_routeAll (config : Config) (r : Receiver) (frames : List Frame) :
    (routeAll config r frames).1.assembler.maxMessageSize = r.assembler.maxMessageSize := by
  induction frames generalizing r with
  | nil => rfl
  | cons frame rest ih => rw [routeAll, ih, maxMessageSize_route]

/-! ## One key -/

/-- The data of a message has come with frames of its key, after what was under
way there at the start or without it. -/
theorem data_of_delivers {frames : List Frame} {m : Message}
    (h : m ∈ delivers config r frames) :
    ∃ parts : List Frame, parts.Sublist (Assembler.lane m.key frames) ∧
      (m.data = parts.flatMap Frame.payload ∨
        ∃ old, (r.assembler.get? m.key).map PartialMessage.data = some old ∧
          m.data = old ++ parts.flatMap Frame.payload) := by
  induction frames generalizing r with
  | nil => exact absurd h List.not_mem_nil
  | cons frame rest ih =>
    have hstep := Assembler.onKey_gathers r.assembler.maxMessageSize
      (r.assembler.get? frame.header.key) frame
    unfold Assembler.lane
    rw [List.filter_cons]
    rw [delivers_cons, List.mem_append, Option.mem_toList, Assembler.handle_fst] at h
    rcases h with hnow | hlater
    · rw [if_pos (decide_eq_true (Assembler.key_of_delivered hnow).symm)]
      rw [hnow] at hstep
      refine ⟨[frame], List.singleton_sublist.2 List.mem_cons_self, ?_⟩
      rw [List.flatMap_singleton, Assembler.key_of_delivered hnow]
      exact hstep.delivered_eq
    · obtain ⟨parts, hparts, hfresh | ⟨old, hold, hjoined⟩⟩ := ih hlater
      · refine ⟨parts, ?_, Or.inl hfresh⟩
        split
        · exact hparts.cons frame
        · exact hparts
      · obtain ⟨buffer, hroute, hdata⟩ := Option.map_eq_some_iff.1 hold
        have hbuffer := get?_handle_of_route hroute
        rw [Assembler.get?_handle] at hbuffer
        by_cases hkey : m.key = frame.header.key
        · rw [if_pos hkey] at hbuffer
          rw [hbuffer, Option.map_some, hdata] at hstep
          rw [if_pos (decide_eq_true hkey.symm), hkey]
          exact hstep.prepend (hkey ▸ hparts) hjoined
        · rw [if_neg hkey] at hbuffer
          rw [if_neg (mt of_decide_eq_true (Ne.symm hkey)), hbuffer]
          exact ⟨parts, hparts, Or.inr ⟨old, congrArg some hdata, hjoined⟩⟩

/-- The messages that come on a key depend on the buffer of that key alone. -/
theorem filter_delivers_congr (hget : r.assembler.get? key = r'.assembler.get? key)
    (hlimit : r.assembler.maxMessageSize = r'.assembler.maxMessageSize) (frames : List Frame) :
    (delivers config r frames).filter (fun m => m.key = key) =
      (delivers config r' frames).filter fun m => m.key = key := by
  induction frames generalizing r r' with
  | nil => rfl
  | cons frame rest ih =>
    rw [delivers_cons, delivers_cons, List.filter_append, List.filter_append]
    congr 1
    · rw [Assembler.handle_fst, Assembler.handle_fst]
      by_cases hkey : frame.header.key = key
      · rw [hkey, hget, hlimit]
      · -- what comes of a frame of another key comes on that key
        have hother : ∀ buffer, (Assembler.delivered?
            (Assembler.onKey r.assembler.maxMessageSize buffer frame).1).toList.filter
              (fun m => m.key = key) = [] := by
          intro buffer
          refine List.filter_eq_nil_iff.2 fun m hm hown => hkey ?_
          rw [Option.mem_toList] at hm
          exact (Assembler.key_of_delivered hm).symm.trans (of_decide_eq_true hown)
        rw [← hlimit, hother, hother]
    · refine ih ?_ ?_
      · rw [get?_route, get?_route, Assembler.get?_handle, Assembler.get?_handle]
        by_cases hkey : key = frame.header.key
        · rw [if_pos hkey, if_pos hkey, ← hkey, hget, hlimit]
        · rw [if_neg hkey, if_neg hkey, hget]
      · rw [maxMessageSize_route, maxMessageSize_route, hlimit]

/-- What is delivered on a key after its teardown is what would be delivered if
nothing had come before. -/
theorem filter_delivers_of_tearsDown (htears : frame.TearsDown key)
    (hfresh : r'.assembler = Assembler.empty r.assembler.maxMessageSize) (after : List Frame) :
    (delivers config (route config r frame).1 after).filter (fun m => m.key = key) =
      (delivers config r' after).filter fun m => m.key = key := by
  refine filter_delivers_congr ?_ ?_ after
  · rw [get?_route, if_pos htears, hfresh]
    rfl
  · rw [maxMessageSize_route, hfresh]
    rfl

theorem data_of_delivers_of_tearsDown (htears : frame.TearsDown key) {after : List Frame}
    {m : Message} (h : m ∈ delivers config (route config r frame).1 after) (hkey : m.key = key) :
    ∃ parts : List Frame, parts.Sublist (Assembler.lane key after) ∧
      m.data = parts.flatMap Frame.payload := by
  obtain ⟨parts, hparts, hfresh | ⟨old, hold, -⟩⟩ := data_of_delivers h
  · exact ⟨parts, hkey ▸ hparts, hfresh⟩
  · rw [hkey, get?_route, if_pos htears] at hold
    exact absurd hold (by simp)

end Receiver

/-! ## From frames to bytes -/

/-- The frame that an event of a stream brings, if it brings one. -/
def StreamEvent.frame? : StreamEvent → Option Frame
  | .frame content => some content
  | _ => none

namespace Receiver

variable {config : Config} {r r' : Receiver} {frame : Frame}

/-- The frames that a receiver takes in until more bytes are needed. -/
def framesMet (config : Config) (r : Receiver) : List Frame :=
  (r.met config).filterMap StreamEvent.frame?

theorem framesMet_of_none (h : r.step? config = none) : r.framesMet config = [] := by
  unfold framesMet
  rw [met_of_none h, List.filterMap_nil]

theorem framesMet_of_frame {notices : List Notice} {rest : Bytes}
    (hstep : r.step? config = some (r', notices))
    (hdecode : Frame.decode config.maxMessageSize r.buffer = .ok (some (frame, rest))) :
    r.framesMet config = frame :: r'.framesMet config := by
  unfold framesMet
  rw [met_of_some hstep, metBy, hdecode]
  rfl

theorem framesMet_of_error {notices : List Notice} {e : FrameError}
    (hstep : r.step? config = some (r', notices))
    (hdecode : Frame.decode config.maxMessageSize r.buffer = .error e) :
    r.framesMet config = r'.framesMet config := by
  unfold framesMet
  rw [met_of_some hstep, metBy, hdecode]
  rfl

theorem resync_assembler (config : Config) (r : Receiver) (e : FrameError) :
    (resync config r e).1.assembler = r.assembler ∧
      (resync config r e).2.filterMap Notice.message? = [] := by
  unfold resync
  split
  · exact ⟨rfl, rfl⟩
  · refine ⟨rfl, ?_⟩
    simp only
    split <;> rfl

/-- Damage changes no buffer and delivers nothing, so the frames in the bytes
decide about both. -/
theorem delivers_drain (config : Config) (r : Receiver) :
    (r.drain config).1.assembler = (routeAll config r (r.framesMet config)).1.assembler ∧
      (r.drain config).2.filterMap Notice.message? = delivers config r (r.framesMet config) := by
  induction r using step_induction config with
  | hstop r hstop =>
    rw [framesMet_of_none hstop, drain_of_none hstop]
    exact ⟨rfl, rfl⟩
  | hwork r r' notices hstep ih =>
    rw [drain_of_some hstep, List.filterMap_append]
    rcases step_cases hstep with ⟨frame, rest, hdecode, hroute⟩ | ⟨e, hdecode, hresync⟩
    · have hsame : r'.assembler = (route config r frame).1.assembler := by
        have hframe := assembler_route config { r with buffer := rest, resyncing := false } frame
        rw [hroute] at hframe
        rw [assembler_route]
        exact hframe
      have hnotices : notices.filterMap Notice.message? =
          (Assembler.delivered? (r.assembler.handle frame).1).toList := by
        have hframe := messages_route config { r with buffer := rest, resyncing := false } frame
        rw [hroute] at hframe
        exact hframe
      obtain ⟨hassembler, hdelivers⟩ := routeAll_congr config hsame (r'.framesMet config)
      rw [framesMet_of_frame hstep hdecode, delivers_cons, hnotices, ih.2, hdelivers, ih.1,
        hassembler]
      exact ⟨rfl, rfl⟩
    · obtain ⟨hassembler, hmessages⟩ := resync_assembler config r e
      rw [hresync] at hassembler hmessages
      obtain ⟨hsame, hdelivers⟩ := routeAll_congr config hassembler (r'.framesMet config)
      rw [framesMet_of_error hstep hdecode, hmessages, ih.2, hdelivers, ih.1, hsame]
      exact ⟨rfl, rfl⟩

end Receiver

end HeadUnitLink
