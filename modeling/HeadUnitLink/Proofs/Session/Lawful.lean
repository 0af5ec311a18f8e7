import HeadUnitLink.Proofs.Session.Registry
import Mathlib.Data.List.Nodup

/-!
# What every registry has

Sessions become known in two ways, by the start of RPC and by the start of
another service, and lose services one at a time.  Whatever the order of the
frames, a registry stays in order.

* `Session.Lawful` is the invariant of one session, and each operation on a
  session keeps it.
* `Registry.Lawful` adds that the ids ascend, so that the list of the sessions
  and the map from ids say the same: `Registry.Lawful.mem_sessions_iff`.
* `Registry.Lawful.ofFrame` says that every frame keeps it.
-/

namespace HeadUnitLink

/-! ## One session -/

/-- A session in order. -/
structure Session.Lawful (s : Session) : Prop where
  /-- Its services run in it. -/
  own : ∀ running ∈ s.services, running.session = s.id
  nodup : (s.services.map RunningService.service).Nodup
  rpc_first : ∀ running ∈ s.services, running.service = .rpc → s.services.head? = some running
  /-- A hash id of 0 is none. -/
  hash_ne_zero : s.hashId ≠ some 0
  rpc_of_hash : s.hashId ≠ none → s.hasService .rpc = true
  /-- Only RPC runs in session 0. -/
  zero_eq : s.id = 0 → s.services = [{ service := .rpc, session := 0 }]

namespace Session

variable {s : Session} {service : Service}

theorem hasService_iff : s.hasService service = true ↔
    service ∈ s.services.map RunningService.service := by
  unfold hasService
  rw [List.any_eq_true, List.mem_map]
  simp only [decide_eq_true_eq]

theorem lawful_opened (id : UInt8) {hashId : Option UInt32} (hhash : hashId ≠ some 0) :
    (opened id hashId).Lawful where
  own running hrunning := by rw [List.mem_singleton.1 hrunning]; rfl
  nodup := List.nodup_singleton _
  rpc_first running hrunning _ := by rw [List.mem_singleton.1 hrunning]; rfl
  hash_ne_zero := hhash
  rpc_of_hash _ := rfl
  zero_eq hzero := by
    obtain rfl : id = 0 := hzero
    rfl

theorem lawful_blank {id : UInt8} (hid : id ≠ 0) : (blank id).Lawful where
  own _ hrunning := absurd hrunning List.not_mem_nil
  nodup := List.nodup_nil
  rpc_first _ hrunning := absurd hrunning List.not_mem_nil
  hash_ne_zero := by simp [blank]
  rpc_of_hash hhash := absurd rfl hhash
  zero_eq hzero := absurd hzero hid

/-- A service other than RPC goes behind the others. -/
theorem Lawful.addService (h : s.Lawful) (hservice : service ≠ .rpc) (hid : s.id ≠ 0) :
    (s.addService service).Lawful := by
  unfold Session.addService
  split
  · exact h
  · rename_i hnew
    rw [hasService_iff] at hnew
    refine ⟨?_, ?_, ?_, h.hash_ne_zero, fun hhash => ?_, fun hzero => absurd hzero hid⟩
    · intro running hrunning
      rcases List.mem_append.1 hrunning with hold | hadded
      · exact h.own running hold
      · rw [List.mem_singleton.1 hadded]
    · rw [List.map_append]
      exact List.concat_eq_append ▸ h.nodup.concat hnew
    · intro running hrunning hrpc
      rcases List.mem_append.1 hrunning with hold | hadded
      · rw [List.head?_append, h.rpc_first running hold hrpc]
        rfl
      · rw [List.mem_singleton.1 hadded] at hrpc
        exact absurd hrpc hservice
    · have hrpc := h.rpc_of_hash hhash
      rw [hasService_iff] at hrpc ⊢
      rw [List.map_append]
      exact List.mem_append_left _ hrpc

/-- The end of a service other than RPC leaves RPC where it is. -/
theorem Lawful.removeService (h : s.Lawful) (hservice : service ≠ .rpc) :
    (s.removeService service).Lawful := by
  have hkept : ∀ running : RunningService, running.service = .rpc →
      running.service ≠ service := by
    rintro running hrpc rfl
    exact hservice hrpc
  refine ⟨?_, ?_, ?_, h.hash_ne_zero, fun hhash => ?_, fun hzero => ?_⟩
  · exact fun running hrunning => h.own running (List.mem_filter.1 hrunning).1
  · exact h.nodup.sublist (List.filter_sublist.map _)
  · intro running hrunning hrpc
    have hhead := h.rpc_first running (List.mem_filter.1 hrunning).1 hrpc
    obtain ⟨rest, hservices⟩ := List.head?_eq_some_iff.1 hhead
    unfold Session.removeService
    simp only [hservices, List.filter_cons, decide_eq_true (hkept running hrpc), if_true,
      List.head?_cons]
  · have hrpc := h.rpc_of_hash hhash
    rw [hasService_iff, List.mem_map] at hrpc ⊢
    obtain ⟨running, hrunning, hrpc⟩ := hrpc
    exact ⟨running, List.mem_filter.2 ⟨hrunning, decide_eq_true (hkept running hrpc)⟩, hrpc⟩
  · show List.filter _ s.services = _
    rw [h.zero_eq hzero]
    exact List.filter_cons_of_pos (decide_eq_true (hkept _ rfl))

end Session

/-! ## The registry -/

/-- A hash id of 0 is not taken from an acknowledgement. -/
theorem sessionAckFields_ne_zero (frame : Frame) : (sessionAckFields frame).1 ≠ some 0 := by
  unfold sessionAckFields
  show (if (sessionAckParts frame).1 = 0 then none else some (sessionAckParts frame).1) ≠ some 0
  split
  · simp
  · rename_i hne
    exact fun heq => hne (Option.some.inj heq)

/-- A registry in order. -/
structure Registry.Lawful (r : Registry) : Prop where
  ascending : r.sessions.Pairwise fun s later => s.id < later.id
  lawful : ∀ s ∈ r.sessions, s.Lawful

namespace Registry

variable {r : Registry} {found : Session}

theorem lawful_empty : empty.Lawful :=
  ⟨List.Pairwise.nil, fun _ hs => absurd hs List.not_mem_nil⟩

/-- What the list of the sessions holds is what is found by its id. -/
theorem Lawful.mem_sessions_iff (h : r.Lawful) :
    found ∈ r.sessions ↔ r.get? found.id = some found := by
  refine ⟨fun hmem => ?_, List.mem_of_find?_eq_some⟩
  cases hget : r.get? found.id with
  | none =>
    have hnone := List.find?_eq_none.1 hget found hmem
    simp at hnone
  | some other =>
    have hid := id_of_get? hget
    have hother : other ∈ r.sessions := List.mem_of_find?_eq_some hget
    have hids : (r.sessions.map Session.id).Nodup :=
      List.pairwise_map.2 (h.ascending.imp UInt8.ne_of_lt)
    exact congrArg some (List.inj_on_of_nodup_map hids hother hmem hid)

theorem Lawful.get? (h : r.Lawful) {id : UInt8} (hget : r.get? id = some found) : found.Lawful :=
  h.lawful found (List.mem_of_find?_eq_some hget)

theorem Lawful.put (h : r.Lawful) {session : Session} (hsession : session.Lawful) :
    (r.put session).Lawful := by
  constructor
  · refine List.pairwise_append.2 ⟨h.ascending.filter _, ?_, ?_⟩
    · refine List.pairwise_cons.2 ⟨fun later hlater => ?_, h.ascending.filter _⟩
      exact of_decide_eq_true (List.mem_filter.1 hlater).2
    · intro earlier hearlier later hlater
      have hbelow : earlier.id < session.id := of_decide_eq_true (List.mem_filter.1 hearlier).2
      rcases List.mem_cons.1 hlater with rfl | habove
      · exact hbelow
      · exact UInt8.lt_trans hbelow (of_decide_eq_true (List.mem_filter.1 habove).2)
  · intro s hs
    rcases List.mem_append.1 hs with hbelow | hrest
    · exact h.lawful s (List.mem_filter.1 hbelow).1
    · rcases List.mem_cons.1 hrest with rfl | habove
      · exact hsession
      · exact h.lawful s (List.mem_filter.1 habove).1

theorem Lawful.erase (h : r.Lawful) (id : UInt8) : (r.erase id).Lawful :=
  ⟨h.ascending.filter _, fun s hs => h.lawful s (List.mem_filter.1 hs).1⟩

/-- A frame leaves a registry in order. -/
theorem Lawful.ofFrame (h : r.Lawful) (frame : Frame) :
    (ControlEvent.ofFrame frame r).2.Lawful := by
  have heffect := ControlEvent.effect frame r
  generalize (ControlEvent.ofFrame frame r).1 = result,
    (ControlEvent.ofFrame frame r).2 = next at heffect ⊢
  cases heffect with
  | opened _ => exact h.put (Session.lawful_opened _ (sessionAckFields_ne_zero frame))
  | @added service session hstart hservice hsession =>
    -- the session may be one that only now becomes known, and it is not session 0
    unfold addService
    cases hfound : r.get? session with
    | none => exact h.put ((Session.lawful_blank hsession).addService hservice hsession)
    | some found =>
      have hid : found.id ≠ 0 := by rwa [id_of_get? hfound]
      exact h.put ((h.get? hfound).addService hservice hid)
  | @ended service session hend =>
    unfold removeService
    split
    · exact h
    · rename_i found hfound
      split
      · exact h.erase session
      · rename_i hservice
        exact h.put ((h.get? hfound).removeService hservice)
  | kept => exact h

theorem Lawful.replay (h : r.Lawful) (frames : List Frame) : (r.replay frames).Lawful :=
  replay_induction (fun _ frame h => h.ofFrame frame) h frames

end Registry

end HeadUnitLink
