import HeadUnitLink.Engine.Receiver

/-!
# The loop of a receiver

`Receiver.drain` gathers its notices backwards.  `drain_of_none` and
`drain_of_some` say what it does in the order of the work, and
`step_induction` is the induction that every proof about it uses: on the
pieces of work that a receiver still has in its buffer.

`route_stream` says that a frame is taken in without a look at the bytes that
follow it.
-/

namespace HeadUnitLink

namespace Receiver

/-! ## One piece of work after the other -/

/-- Induction on the work that is left in the buffer. -/
theorem step_induction (config : Config) {P : Receiver → Prop}
    (hstop : ∀ r, r.step? config = none → P r)
    (hwork : ∀ r r' notices, r.step? config = some (r', notices) → P r' → P r)
    (r : Receiver) : P r := by
  induction hlength : r.buffer.length using Nat.strongRecOn generalizing r with
  | ind n ih =>
    cases hstep : r.step? config with
    | none => exact hstop r hstep
    | some next =>
      have hlt := length_buffer_step?_lt hstep
      exact hwork r next.1 next.2 hstep (ih _ (hlength ▸ hlt) _ rfl)

theorem drainOnto_of_none {config : Config} {r : Receiver} (h : r.step? config = none)
    (notices : List Notice) : r.drainOnto config notices = (r, notices) := by
  rw [drainOnto]
  split
  · rfl
  · rename_i next hnext
    rw [h] at hnext
    exact absurd hnext (by simp)

theorem drainOnto_of_some {config : Config} {r r' : Receiver} {given : List Notice}
    (h : r.step? config = some (r', given)) (notices : List Notice) :
    r.drainOnto config notices = r'.drainOnto config (given.reverse ++ notices) := by
  rw [drainOnto]
  split
  · rename_i hnone
    rw [h] at hnone
    exact absurd hnone (by simp)
  · rename_i next hnext
    rw [h] at hnext
    obtain rfl := Option.some.inj hnext
    rfl

/-- What was given before stays behind what is given now. -/
theorem drainOnto_eq (config : Config) (r : Receiver) :
    ∀ notices, r.drainOnto config notices =
      ((r.drainOnto config []).1, (r.drainOnto config []).2 ++ notices) := by
  induction r using step_induction config with
  | hstop r h =>
    intro notices
    rw [drainOnto_of_none h, drainOnto_of_none h, List.nil_append]
  | hwork r r' given h ih =>
    intro notices
    rw [drainOnto_of_some h, drainOnto_of_some h, ih (given.reverse ++ notices),
      ih (given.reverse ++ []), List.append_nil, List.append_assoc]

theorem drain_of_none {config : Config} {r : Receiver} (h : r.step? config = none) :
    r.drain config = (r, []) := by
  rw [drain, drainOnto_of_none h]
  rfl

theorem drain_of_some {config : Config} {r r' : Receiver} {given : List Notice}
    (h : r.step? config = some (r', given)) :
    r.drain config = ((r'.drain config).1, given ++ (r'.drain config).2) := by
  rw [drain, drain, drainOnto_of_some h, List.append_nil, drainOnto_eq config r' given.reverse]
  simp only [List.reverse_append, List.reverse_reverse]

/-- A receiver stops only when it needs more bytes. -/
theorem step?_drain (config : Config) (r : Receiver) :
    (r.drain config).1.step? config = none := by
  induction r using step_induction config with
  | hstop r h =>
    rw [drain_of_none h]
    exact h
  | hwork r r' given h ih =>
    rw [drain_of_some h]
    exact ih

/-- A property that every piece of work keeps holds at the end. -/
theorem drain_induction {config : Config} {P : Receiver → Prop}
    (hwork : ∀ r r' notices, r.step? config = some (r', notices) → P r → P r')
    (r : Receiver) (h : P r) : P (r.drain config).1 := by
  induction r using step_induction config with
  | hstop r hstop =>
    rw [drain_of_none hstop]
    exact h
  | hwork r r' given hstep ih =>
    rw [drain_of_some hstep]
    exact ih (hwork r r' given hstep h)

/-! ## Frames do not see the bytes behind them -/

theorem routeControl_stream (config : Config) (r : Receiver) (frame : Frame) (buffer : Bytes)
    (discard : Nat) (resyncing : Bool) :
    routeControl config { r with buffer, discard, resyncing } frame =
      ({ (routeControl config r frame).1 with buffer, discard, resyncing },
        (routeControl config r frame).2) := by
  unfold routeControl
  simp only
  split
  · rfl
  · rfl
  · unfold follow
    split <;> rfl

/-- Taking a frame in neither reads nor changes the state of the stream. -/
theorem route_stream (config : Config) (r : Receiver) (frame : Frame) (buffer : Bytes)
    (discard : Nat) (resyncing : Bool) :
    route config { r with buffer, discard, resyncing } frame =
      ({ (route config r frame).1 with buffer, discard, resyncing },
        (route config r frame).2) := by
  unfold route
  simp only
  split
  · rfl
  · rfl
  · rfl
  · rename_i content assembler _
    exact routeControl_stream config { r with assembler } content buffer discard resyncing
  · rfl

/-! ## One piece of work -/

/-- What is stepped over as a whole: a malformed frame that declares no more
than the longest one. -/
theorem skipLength?_eq_some_iff {config : Config} {buffer : Bytes} {e : FrameError}
    {length : Nat} :
    skipLength? config buffer e = some length ↔
      ∃ fault, e = .malformedHeader fault ∧ Frame.declaredLength? buffer = some length ∧
        length ≤ Frame.skipLimit config.maxMessageSize := by
  constructor
  · intro h
    unfold skipLength? at h
    split at h
    · rename_i fault
      split at h
      · rename_i declared hdeclared
        split at h
        · rename_i hfits
          obtain rfl := Option.some.inj h
          exact ⟨fault, rfl, hdeclared, hfits⟩
        · cases h
      · cases h
    · cases h
  · rintro ⟨fault, rfl, hdeclared, hfits⟩
    unfold skipLength?
    simp only [hdeclared]
    exact if_pos hfits

/-- A piece of work either takes a frame in or steps over damage. -/
theorem step_cases {config : Config} {r r' : Receiver} {notices : List Notice}
    (h : r.step? config = some (r', notices)) :
    (∃ frame rest, Frame.decode config.maxMessageSize r.buffer = .ok (some (frame, rest)) ∧
        route config { r with buffer := rest, resyncing := false } frame = (r', notices)) ∨
      ∃ e, Frame.decode config.maxMessageSize r.buffer = .error e ∧
        resync config r e = (r', notices) := by
  rw [step?_eq] at h
  split at h
  · exact absurd h (by simp)
  · rename_i frame rest hdecode
    exact Or.inl ⟨frame, rest, hdecode, Option.some.inj h⟩
  · rename_i e hdecode
    exact Or.inr ⟨e, hdecode, Option.some.inj h⟩

theorem step?_eq_none_iff {config : Config} {r : Receiver} :
    r.step? config = none ↔ Frame.decode config.maxMessageSize r.buffer = .ok none := by
  rw [step?_eq]
  split
  · rename_i hdecode
    exact ⟨fun _ => hdecode, fun _ => rfl⟩
  · rename_i hdecode
    rw [hdecode]
    exact ⟨fun h => absurd h (by simp), fun h => absurd h (by simp)⟩
  · rename_i hdecode
    rw [hdecode]
    exact ⟨fun h => absurd h (by simp), fun h => absurd h (by simp)⟩

theorem step_of_frame {config : Config} {r : Receiver} {frame : Frame} {rest : Bytes}
    (h : Frame.decode config.maxMessageSize r.buffer = .ok (some (frame, rest))) :
    r.step? config = some (route config { r with buffer := rest, resyncing := false } frame) := by
  rw [step?_eq, h]

theorem step_of_error {config : Config} {r : Receiver} {e : FrameError}
    (h : Frame.decode config.maxMessageSize r.buffer = .error e) :
    r.step? config = some (resync config r e) := by
  rw [step?_eq, h]

end Receiver

end HeadUnitLink
