import HeadUnitLink.Proofs.Receiver.Teardown
import HeadUnitLink.Proofs.Session.Registry

/-!
# What received bytes do to the sessions

A receiver changes its registry frame by frame, as `ControlEvent.ofFrame` says,
and reports what that has come to.  Data frames and damage have no part in it,
so the registry is a replay of the frames in the bytes: `Receiver.registry_drain`.
-/

namespace HeadUnitLink

/-- The event that a notice reports, if it reports one. -/
def Notice.control? : Notice → Option ControlEvent
  | .control event => some event
  | _ => none

/-- What is reported of a control frame that means this. -/
def ControlEvent.reported? : Except LinkError ControlEvent → Option ControlEvent
  | .ok .ignored => none
  | .ok event => some event
  | .error _ => none

/-- The events that frames have with a registry, in order. -/
def Registry.events (r : Registry) : List Frame → List ControlEvent
  | [] => []
  | frame :: rest =>
    (ControlEvent.reported? (ControlEvent.ofFrame frame r).1).toList ++
      (ControlEvent.ofFrame frame r).2.events rest

theorem Registry.events_append (r : Registry) (frames more : List Frame) :
    r.events (frames ++ more) = r.events frames ++ (r.replay frames).events more := by
  induction frames generalizing r with
  | nil => rfl
  | cons frame rest ih =>
    rw [List.cons_append, Registry.events, Registry.events, ih, List.append_assoc]
    rfl

namespace Receiver

/-! ## One frame -/

theorem registry_follow (config : Config) (r : Receiver) (event : ControlEvent) :
    (follow config r event).registry = r.registry := by
  unfold follow
  split <;> rfl

theorem registry_routeControl (config : Config) (r : Receiver) (frame : Frame) :
    (routeControl config r frame).1.registry = (ControlEvent.ofFrame frame r.registry).2 ∧
      (routeControl config r frame).2.filterMap Notice.control? =
        (ControlEvent.reported? (ControlEvent.ofFrame frame r.registry).1).toList := by
  unfold routeControl
  split
  · rename_i hframe
    rw [hframe]
    exact ⟨rfl, rfl⟩
  · rename_i hframe
    rw [hframe]
    exact ⟨rfl, rfl⟩
  · rename_i event registry hevent hframe
    rw [hframe, registry_follow]
    cases event with
    | ignored => exact absurd rfl hevent
    | _ => exact ⟨rfl, rfl⟩

/-- A data frame has no part in the sessions. -/
theorem ofFrame_of_data {frame : Frame} (hdata : frame.header.frameType ≠ .control)
    (registry : Registry) : ControlEvent.ofFrame frame registry = (.ok .ignored, registry) := by
  unfold ControlEvent.ofFrame
  simp only [Header.controlKind?_of_ne hdata]

theorem control?_of_notices (result : Except LinkError Assembled) :
    (Assembler.notices result).filterMap Notice.control? = [] := by
  unfold Assembler.notices
  split <;> rfl

/-- A frame changes the registry and is reported as its meaning says, whatever
frame it is. -/
theorem registry_route (config : Config) (r : Receiver) (frame : Frame) :
    (route config r frame).1.registry = (ControlEvent.ofFrame frame r.registry).2 ∧
      (route config r frame).2.filterMap Notice.control? =
        (ControlEvent.reported? (ControlEvent.ofFrame frame r.registry).1).toList := by
  by_cases htype : frame.header.frameType = .control
  · unfold route
    rw [Assembler.handle_of_control htype]
    exact registry_routeControl config _ frame
  · rw [route_of_data htype, ofFrame_of_data htype]
    exact ⟨rfl, control?_of_notices _⟩

/-! ## Many bytes -/

theorem registry_resync (config : Config) (r : Receiver) (e : FrameError) :
    (resync config r e).1.registry = r.registry ∧
      (resync config r e).2.filterMap Notice.control? = [] := by
  unfold resync
  split
  · exact ⟨rfl, rfl⟩
  · refine ⟨rfl, ?_⟩
    simp only
    split <;> rfl

/-- The frames in the bytes decide about the sessions and about what is reported
of them. -/
theorem registry_drain (config : Config) (r : Receiver) :
    (r.drain config).1.registry = r.registry.replay (r.framesMet config) ∧
      (r.drain config).2.filterMap Notice.control? = r.registry.events (r.framesMet config) := by
  induction r using step_induction config with
  | hstop r hstop =>
    rw [framesMet_of_none hstop, drain_of_none hstop]
    exact ⟨rfl, rfl⟩
  | hwork r r' notices hstep ih =>
    rw [drain_of_some hstep, List.filterMap_append, ih.1, ih.2]
    rcases step_cases hstep with ⟨frame, rest, hdecode, hroute⟩ | ⟨e, hdecode, hresync⟩
    · obtain ⟨hregistry, hreported⟩ :=
        registry_route config { r with buffer := rest, resyncing := false } frame
      rw [hroute] at hregistry hreported
      rw [framesMet_of_frame hstep hdecode, hreported, hregistry]
      exact ⟨rfl, rfl⟩
    · obtain ⟨hregistry, hreported⟩ := registry_resync config r e
      rw [hresync] at hregistry hreported
      rw [framesMet_of_error hstep hdecode, hreported, hregistry]
      exact ⟨rfl, rfl⟩

end Receiver

end HeadUnitLink
