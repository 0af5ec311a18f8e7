import HeadUnitLink.Proofs.Message.Lanes
import HeadUnitLink.Proofs.Receiver.Loop
import HeadUnitLink.Proofs.Wire.Decode

/-!
# A stream of whole frames

When the bytes of a stream are those of frames one after the other, a receiver
takes in these frames one after the other: `Receiver.drain_stream`.  A data
frame changes the assembler only: `Receiver.route_of_data`.  If no frame among
them reports a start, an end or a refusal, only the assembler changes and
`Receiver.routeAll_of_quiet` says what is told of it.
-/

namespace HeadUnitLink

/-- The frame that a byte string is, as it arrives. -/
def Frame.arrival? (limit : Nat) (bytes : Bytes) : Option Frame :=
  match decode limit bytes with
  | .ok (some (frame, [])) => some frame
  | _ => none

theorem Frame.arrival?_eq_some_iff {limit : Nat} {bytes : Bytes} {frame : Frame} :
    arrival? limit bytes = some frame ↔ decode limit bytes = .ok (some (frame, [])) := by
  unfold arrival?
  split
  · rename_i found hdecode
    rw [hdecode]
    simp
  · rename_i hnone
    exact ⟨fun h => absurd h (by simp), fun h => absurd h (hnone frame)⟩

theorem Frame.arrival?_of_encode {limit : Nat} {f : Frame} {bytes : Bytes}
    (hencode : f.encode = .ok bytes) (hread : f.header.Readable)
    (hlimit : f.payload.length ≤ limit) : arrival? limit bytes = some f.received := by
  have hdecode := decode_encode_append hencode hread hlimit []
  rw [List.append_nil] at hdecode
  exact arrival?_eq_some_iff.2 hdecode

/-- Is this an ordinary data frame, or a control frame that changes nothing
where it arrives: a request or a heartbeat? -/
def Frame.Quiet (frame : Frame) : Prop :=
  ∀ kind, frame.header.controlKind? = some kind →
    kind = .startService ∨ kind = .endService ∨ kind = .heartbeat ∨ kind = .heartbeatAck

/-- The message that a notice delivers, if it delivers one. -/
def Notice.message? : Notice → Option Message
  | .message m => some m
  | _ => none

/-- Does a notice report no error? -/
def Notice.IsCalm : Notice → Prop
  | .error _ _ => False
  | _ => True

/-- What is told of a data frame when this comes of it in the assembler. -/
def Assembler.notices : Except LinkError Assembled → List Notice
  | .error cause => [.error .reassembly cause]
  | .ok (.message m) => [.message m]
  | .ok (.interrupted m dropped) =>
    [.error .interruption (.reassemblyInterrupted m.session m.service dropped), .message m]
  | .ok (.control _) => []
  | .ok .pending => []

/-- Only control frames have a kind. -/
theorem Header.controlKind?_of_ne {h : Header} (htype : h.frameType ≠ .control) :
    h.controlKind? = none := by
  unfold controlKind?
  rw [if_neg htype]

namespace Receiver

/-- Takes in frames one after the other. -/
def routeAll (config : Config) (r : Receiver) : List Frame → Receiver × List Notice
  | [] => (r, [])
  | frame :: rest =>
    ((routeAll config (route config r frame).1 rest).1,
      (route config r frame).2 ++ (routeAll config (route config r frame).1 rest).2)

/-- A stream of whole frames is worked off frame by frame, and nothing of it is
left. -/
theorem drain_stream {config : Config} {stream : List Bytes} {frames : List Frame}
    (harrive : stream.map (Frame.arrival? config.maxMessageSize) = frames.map some)
    (r : Receiver) (discard : Nat) :
    drain config { r with buffer := stream.flatten, discard, resyncing := false } =
      ({ (routeAll config r frames).1 with buffer := [], discard, resyncing := false },
        (routeAll config r frames).2) := by
  induction stream generalizing r frames with
  | nil =>
    obtain rfl : frames = [] := List.map_eq_nil_iff.1 harrive.symm
    exact drain_of_none rfl
  | cons bytes rest ih =>
    cases frames with
    | nil => exact absurd harrive (by simp)
    | cons frame more =>
      rw [List.map_cons, List.map_cons] at harrive
      obtain ⟨hframe, hmore⟩ := List.cons.inj harrive
      have hdecode := Frame.decode_append_of_frame (Frame.arrival?_eq_some_iff.1 hframe)
        rest.flatten
      have hstep : step? config
          { r with buffer := (bytes :: rest).flatten, discard, resyncing := false } =
            some (route config
              { r with buffer := rest.flatten, discard, resyncing := false } frame) :=
        step_of_frame hdecode
      rw [route_stream] at hstep
      rw [drain_of_some hstep, ih hmore]
      rfl

/-! ## The messages of a frame -/

theorem messages_routeControl (config : Config) (r : Receiver) (frame : Frame) :
    (routeControl config r frame).2.filterMap Notice.message? = [] := by
  unfold routeControl
  split <;> rfl

/-- Messages come from the assembler alone. -/
theorem messages_route (config : Config) (r : Receiver) (frame : Frame) :
    (route config r frame).2.filterMap Notice.message? =
      (Assembler.delivered? (r.assembler.handle frame).1).toList := by
  unfold route
  cases r.assembler.handle frame with
  | mk result assembler =>
    cases result with
    | error cause => rfl
    | ok assembled =>
      cases assembled with
      | control content => exact messages_routeControl config _ content
      | _ => rfl

/-! ## Frames that change no session -/

theorem ofFrame_of_quiet {frame : Frame} (hquiet : frame.Quiet) (registry : Registry) :
    ∃ event, ControlEvent.ofFrame frame registry = (.ok event, registry) ∧
      (event = .ignored ∨ event = .heartbeat frame.header.session ∨
        event = .heartbeatAck frame.header.session) := by
  unfold ControlEvent.ofFrame
  cases hkind : frame.header.controlKind? with
  | none =>
    simp only [hkind]
    exact ⟨_, rfl, Or.inl rfl⟩
  | some kind =>
    rcases hquiet kind hkind with rfl | rfl | rfl | rfl
    · simp only [hkind]
      exact ⟨_, rfl, Or.inl rfl⟩
    · simp only [hkind]
      exact ⟨_, rfl, Or.inl rfl⟩
    · simp only [hkind]
      exact ⟨_, rfl, Or.inr (Or.inl rfl)⟩
    · simp only [hkind]
      exact ⟨_, rfl, Or.inr (Or.inr rfl)⟩

theorem routeControl_of_quiet {frame : Frame} (hquiet : frame.Quiet) (config : Config)
    (r : Receiver) :
    (routeControl config r frame).1 = r ∧
      ∀ notice ∈ (routeControl config r frame).2, notice.IsCalm := by
  obtain ⟨event, hevent, hcases⟩ := ofFrame_of_quiet hquiet r.registry
  unfold routeControl
  rw [hevent]
  rcases hcases with rfl | rfl | rfl
  · exact ⟨rfl, fun _ hnotice => absurd hnotice List.not_mem_nil⟩
  · refine ⟨rfl, fun notice hnotice => ?_⟩
    rw [List.mem_singleton.1 hnotice]
    trivial
  · refine ⟨rfl, fun notice hnotice => ?_⟩
    rw [List.mem_singleton.1 hnotice]
    trivial

theorem control_of_handle {a : Assembler} {frame content : Frame}
    (h : (a.handle frame).1 = .ok (.control content)) : content = frame := by
  rw [Assembler.handle_fst] at h
  unfold Assembler.onKey at h
  cases htype : frame.header.frameType with
  | control =>
    simp only [htype] at h
    exact (Assembled.control.inj (Except.ok.inj h)).symm
  | single =>
    simp only [htype, Assembler.onSingle] at h
    split at h <;> exact absurd h (by simp)
  | first =>
    simp only [htype, Assembler.onFirst] at h
    split at h
    · exact absurd h (by simp)
    · split at h <;> exact absurd h (by simp)
  | consecutive =>
    simp only [htype, Assembler.onConsecutive] at h
    split at h
    · exact absurd h (by simp)
    · split at h
      · exact absurd h (by simp)
      · split at h <;> exact absurd h (by simp)

/-- A data frame changes the assembler only. -/
theorem route_of_data {frame : Frame} (hdata : frame.header.frameType ≠ .control)
    (config : Config) (r : Receiver) :
    route config r frame =
      ({ r with assembler := (r.assembler.handle frame).2 },
        Assembler.notices (r.assembler.handle frame).1) := by
  have hkind := Header.controlKind?_of_ne hdata
  have hcontrol := @control_of_handle r.assembler frame
  unfold route
  cases hhandle : r.assembler.handle frame with
  | mk result assembler =>
    rw [hhandle] at hcontrol
    cases result with
    | error cause => rfl
    | ok assembled =>
      cases assembled with
      | control content =>
        -- No data frame comes to this, but nothing would be told of it either.
        obtain rfl := hcontrol rfl
        simp only [routeControl, ControlEvent.ofFrame, hkind, Assembler.notices]
      | message m => rfl
      | interrupted m dropped => rfl
      | pending => rfl

/-- A quiet frame goes to the assembler, and the assembler alone decides which
complaints come of it. -/
theorem route_of_quiet {frame : Frame} (hquiet : frame.Quiet) (config : Config) (r : Receiver) :
    (route config r frame).1 = { r with assembler := (r.assembler.handle frame).2 } ∧
      (Assembler.IsSmooth (r.assembler.handle frame).1 →
        ∀ notice ∈ (route config r frame).2, notice.IsCalm) := by
  have hcontrol := @control_of_handle r.assembler frame
  unfold route
  cases hhandle : r.assembler.handle frame with
  | mk result assembler =>
    rw [hhandle] at hcontrol
    cases result with
    | error cause => exact ⟨rfl, fun hsmooth => hsmooth.elim⟩
    | ok assembled =>
      cases assembled with
      | message m =>
        refine ⟨rfl, fun _ notice hnotice => ?_⟩
        rw [List.mem_singleton.1 hnotice]
        trivial
      | interrupted m dropped => exact ⟨rfl, fun hsmooth => hsmooth.elim⟩
      | pending => exact ⟨rfl, fun _ _ hnotice => absurd hnotice List.not_mem_nil⟩
      | control content =>
        obtain rfl := hcontrol rfl
        obtain ⟨hsame, hcalm⟩ := routeControl_of_quiet hquiet config { r with assembler }
        exact ⟨hsame, fun _ => hcalm⟩

theorem routeAll_of_quiet {frames : List Frame} (hquiet : ∀ frame ∈ frames, frame.Quiet)
    (config : Config) (r : Receiver) :
    (routeAll config r frames).2.filterMap Notice.message? =
        (r.assembler.handleAll frames).1.filterMap Assembler.delivered? ∧
      ((∀ result ∈ (r.assembler.handleAll frames).1, Assembler.IsSmooth result) →
        ∀ notice ∈ (routeAll config r frames).2, notice.IsCalm) := by
  induction frames generalizing r with
  | nil => exact ⟨rfl, fun _ _ hnotice => absurd hnotice List.not_mem_nil⟩
  | cons frame rest ih =>
    obtain ⟨hnext, hcalm⟩ := route_of_quiet (hquiet frame List.mem_cons_self) config r
    have hmessages := messages_route config r frame
    obtain ⟨hrestMessages, hrestCalm⟩ :=
      ih (fun other hother => hquiet other (List.mem_cons_of_mem _ hother)) (route config r frame).1
    rw [hnext] at hrestMessages hrestCalm
    rw [routeAll, Assembler.handleAll, hnext]
    refine ⟨?_, fun hsmooth notice hnotice => ?_⟩
    · rw [List.filterMap_append, hmessages, hrestMessages, List.filterMap_cons]
      cases Assembler.delivered? (r.assembler.handle frame).1 <;> rfl
    · rcases List.mem_append.1 hnotice with hnow | hlater
      · exact hcalm (hsmooth _ List.mem_cons_self) notice hnow
      · exact hrestCalm (fun result hresult => hsmooth result (List.mem_cons_of_mem _ hresult))
          notice hlater

end Receiver

end HeadUnitLink
