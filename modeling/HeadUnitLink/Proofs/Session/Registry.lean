import HeadUnitLink.Session.Control

/-!
# A registry and the frames that change it

A registry is a map from ids to sessions.  Three kinds of control frames change
it, and `ControlEvent.effect` says once what each of them does; later proofs do
not open `ControlEvent.ofFrame` again.

* `Registry.get?_put`, `get?_addService` and `get?_removeService` are the
  operations through the view `Registry.get?`.
* `Registry.replay` is the registry after many frames.
-/

namespace HeadUnitLink

/-! ## Frames that change a registry -/

/-- Does the frame acknowledge the start of the service in the session? -/
def Frame.Starts (frame : Frame) (service : Service) (session : UInt8) : Prop :=
  frame.header.controlKind? = some .startServiceAck ∧ frame.header.service = service ∧
    frame.header.session = session

instance (frame : Frame) (service : Service) (session : UInt8) :
    Decidable (frame.Starts service session) :=
  inferInstanceAs (Decidable (_ ∧ _))

/-- Does the frame acknowledge the end of the service in the session? -/
def Frame.Ends (frame : Frame) (service : Service) (session : UInt8) : Prop :=
  frame.header.controlKind? = some .endServiceAck ∧ frame.header.service = service ∧
    frame.header.session = session

instance (frame : Frame) (service : Service) (session : UInt8) :
    Decidable (frame.Ends service session) :=
  inferInstanceAs (Decidable (_ ∧ _))

/-- Does the event report that something has been started or ended? -/
def ControlEvent.StartsOrEnds : ControlEvent → Prop
  | sessionStarted _ _ _ => True
  | serviceStarted _ _ _ _ => True
  | serviceEnded _ _ _ => True
  | _ => False

/-- A session that has just been started. -/
def Session.opened (id : UInt8) (hashId : Option UInt32) : Session :=
  { id, services := [{ service := .rpc, session := id }], hashId }

@[simp] theorem Session.opened_id (id : UInt8) (hashId : Option UInt32) :
    (Session.opened id hashId).id = id := rfl

theorem Registry.startSession_eq (r : Registry) (id : UInt8) (hashId : Option UInt32) :
    r.startSession id hashId = (Session.opened id hashId, r.put (Session.opened id hashId)) := rfl

namespace ControlEvent

/-- All that a frame can do to a registry, with what it means to the
application. -/
inductive Effect (frame : Frame) (r : Registry) :
    Except LinkError ControlEvent → Registry → Prop where
  | opened {session : UInt8} (hstart : frame.Starts .rpc session) :
    Effect frame r
      (.ok (.sessionStarted (Session.opened session (sessionAckFields frame).1)
        frame.header.version (sessionAckFields frame).2))
      (r.put (Session.opened session (sessionAckFields frame).1))
  | added {service : Service} {session : UInt8} (hstart : frame.Starts service session)
    (hservice : service ≠ .rpc) (hsession : session ≠ 0) :
    Effect frame r
      (.ok (.serviceStarted service session frame.header.version (correlationText frame.payload)))
      (r.addService session service).2
  | ended {service : Service} {session : UInt8} (hend : frame.Ends service session) :
    Effect frame r (.ok (.serviceEnded service session (correlationText frame.payload)))
      (r.removeService session service).2
  | kept {result : Except LinkError ControlEvent}
    (hstart : ∀ service session, frame.Starts service session → service ≠ .rpc ∧ session = 0)
    (hend : ∀ service session, ¬ frame.Ends service session)
    (hresult : ∀ event, result = .ok event → ¬ event.StartsOrEnds) : Effect frame r result r

theorem effect (frame : Frame) (r : Registry) :
    Effect frame r (ofFrame frame r).1 (ofFrame frame r).2 := by
  -- A frame of another kind starts nothing and ends nothing.
  have hother : ∀ {result : Except LinkError ControlEvent},
      frame.header.controlKind? ≠ some .startServiceAck →
      frame.header.controlKind? ≠ some .endServiceAck →
      (∀ event, result = .ok event → ¬ event.StartsOrEnds) → Effect frame r result r :=
    fun hstart hend hresult =>
      .kept (fun _ _ h => absurd h.1 hstart) (fun _ _ h => hend h.1) hresult
  unfold ofFrame
  cases hkind : frame.header.controlKind? with
  | none =>
    simp only [hkind]
    exact hother (by simp [hkind]) (by simp [hkind]) (by rintro event ⟨⟩ h; exact h)
  | some kind =>
    cases kind with
    | startServiceAck =>
      simp only [hkind]
      unfold ofStartAck
      by_cases hrpc : frame.header.service = .rpc
      · simp only [if_pos hrpc, Registry.startSession_eq]
        exact .opened ⟨hkind, hrpc, rfl⟩
      · simp only [if_neg hrpc]
        by_cases hzero : frame.header.session = 0
        · simp only [if_pos hzero]
          refine .kept ?_ ?_ ?_
          · rintro service session ⟨-, rfl, rfl⟩
            exact ⟨hrpc, hzero⟩
          · rintro service session ⟨hend, -⟩
            exact absurd (hkind.symm.trans hend) (by simp)
          · rintro event ⟨⟩
        · simp only [if_neg hzero]
          exact .added ⟨hkind, rfl, rfl⟩ hrpc hzero
    | endServiceAck =>
      simp only [hkind]
      exact .ended ⟨hkind, rfl, rfl⟩
    | _ =>
      simp only [hkind]
      exact hother (by simp [hkind]) (by simp [hkind]) (by rintro event ⟨⟩ <;> exact id)

/-- A frame that starts nothing and ends nothing leaves a registry as it is. -/
theorem ofFrame_of_not_startsOrEnds {frame : Frame} {r : Registry}
    (h : ∀ event, (ofFrame frame r).1 = .ok event → ¬ event.StartsOrEnds) :
    (ofFrame frame r).2 = r := by
  have heffect := effect frame r
  generalize (ofFrame frame r).1 = result, (ofFrame frame r).2 = next at heffect h ⊢
  cases heffect with
  | opened _ => exact absurd trivial (h _ rfl)
  | added _ _ _ => exact absurd trivial (h _ rfl)
  | ended _ => exact absurd trivial (h _ rfl)
  | kept _ _ _ => rfl

end ControlEvent

/-! ## The registry as a map -/

namespace Registry

variable {r : Registry} {found : Session} {id : UInt8}

theorem id_of_get? (h : r.get? id = some found) : found.id = id := by
  have htest := List.find?_some h
  simpa using htest

/-- Of the sessions that are kept by their ids, one is found as before or not at
all. -/
theorem find?_filter_id (r : Registry) (keep : UInt8 → Bool) (id : UInt8) :
    (r.sessions.filter fun s => keep s.id).find? (fun s => s.id = id) =
      if keep id then r.get? id else none := by
  unfold get?
  rw [List.find?_filter]
  split
  · rename_i hkeep
    refine congrFun (congrArg _ (funext fun s => ?_)) _
    by_cases hs : s.id = id
    · simp [hs, hkeep]
    · simp [hs]
  · rename_i hdrop
    refine List.find?_eq_none.2 fun s _ hs => ?_
    by_cases hid : s.id = id
    · simp [hid, hdrop] at hs
    · simp [hid] at hs

theorem get?_put (r : Registry) (session : Session) (id : UInt8) :
    (r.put session).get? id = if id = session.id then some session else r.get? id := by
  have hbelow := r.find?_filter_id (fun other => other < session.id) id
  have habove := r.find?_filter_id (fun other => session.id < other) id
  show List.find? _ (_ ++ _ :: _) = _
  rw [List.find?_append, List.find?_cons, hbelow, habove]
  by_cases heq : id = session.id
  · subst heq
    simp
  · have hne : session.id ≠ id := Ne.symm heq
    rw [if_neg heq, decide_eq_false hne]
    rcases UInt8.lt_or_lt_of_ne heq with hlt | hgt
    · simp [hlt, UInt8.lt_asymm hlt]
    · simp [hgt, UInt8.lt_asymm hgt]

theorem get?_erase (r : Registry) (id other : UInt8) :
    (r.erase id).get? other = if other = id then none else r.get? other := by
  have hkept := r.find?_filter_id (fun found => found ≠ id) other
  show List.find? _ (List.filter _ _) = _
  rw [hkept]
  by_cases heq : other = id
  · simp [heq]
  · simp [heq]

theorem get?_addService (r : Registry) (session : UInt8) (service : Service) (id : UInt8) :
    (r.addService session service).2.get? id =
      if id = session then some (((r.get? session).getD (Session.blank session)).addService service)
      else r.get? id := by
  have hid : (((r.get? session).getD (Session.blank session)).addService service).id = session := by
    have hsame : ((r.get? session).getD (Session.blank session)).id = session := by
      cases hfound : r.get? session with
      | none => rfl
      | some found => exact id_of_get? hfound
    unfold Session.addService
    split <;> exact hsame
  unfold addService
  rw [get?_put, hid]

theorem get?_removeService (r : Registry) (session : UInt8) (service : Service) (id : UInt8) :
    (r.removeService session service).2.get? id =
      if id = session then
        if service = .rpc then none else (r.get? session).map fun s => s.removeService service
      else r.get? id := by
  unfold removeService
  cases hfound : r.get? session with
  | none =>
    simp only
    split
    · rename_i heq
      rw [heq, hfound]
      exact (ite_self _).symm
    · rfl
  | some found =>
    simp only
    split
    · exact get?_erase r session id
    · rw [get?_put]
      show (if id = found.id then _ else _) = _
      rw [id_of_get? hfound]
      rfl

/-! ## Many frames -/

/-- The registry after frames that came one after the other. -/
def replay (r : Registry) (frames : List Frame) : Registry :=
  frames.foldl (fun r frame => (ControlEvent.ofFrame frame r).2) r

theorem replay_append (r : Registry) (frames more : List Frame) :
    r.replay (frames ++ more) = (r.replay frames).replay more :=
  List.foldl_append

theorem replay_concat (r : Registry) (frames : List Frame) (frame : Frame) :
    r.replay (frames ++ [frame]) = (ControlEvent.ofFrame frame (r.replay frames)).2 :=
  r.replay_append frames [frame]

/-- What every frame keeps, many frames keep. -/
theorem replay_induction {P : Registry → Prop}
    (hstep : ∀ r frame, P r → P (ControlEvent.ofFrame frame r).2) {r : Registry} (h : P r)
    (frames : List Frame) : P (r.replay frames) := by
  induction frames generalizing r with
  | nil => exact h
  | cons frame rest ih => exact ih (hstep r frame h)

end Registry

end HeadUnitLink
