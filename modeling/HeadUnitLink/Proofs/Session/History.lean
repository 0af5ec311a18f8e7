import HeadUnitLink.Proofs.Session.Lawful
import HeadUnitLink.Wire.Role
import Mathlib.Data.List.Induction

/-!
# What the history of a registry says

Which sessions are known and what runs in them can be read off the frames that
have come, without looking at the registry.

* `Frame.Since` says of a history that a frame has brought something about and
  that none has undone it since.  A property that one frame brings about or
  undoes is of this form: `Frame.since_of_step`.
* `Registry.Relisted` is all that a frame can do to the services of one session.
* `Registry.LastEnters` says when a service was last listed anew.
* `Registry.sessions_of_history` puts these together.
-/

namespace HeadUnitLink

/-! ## Histories -/

/-- Has a frame made it so, and has no later one undone it? -/
def Frame.Since (makes undoes : Frame → Prop) (history : List Frame) : Prop :=
  ∃ before frame after, history = before ++ frame :: after ∧ makes frame ∧
    ∀ later ∈ after, ¬ undoes later

namespace Frame

variable {makes undoes : Frame → Prop} {history : List Frame} {frame : Frame}

theorem not_since_nil : ¬ Since makes undoes [] := by
  rintro ⟨before, frame, after, hnil, -⟩
  simp at hnil

theorem since_concat : Since makes undoes (history ++ [frame]) ↔
    makes frame ∨ Since makes undoes history ∧ ¬ undoes frame := by
  constructor
  · rintro ⟨before, made, after, heq, hmakes, hafter⟩
    -- either the last frame has made it so, or it came after the one that has
    rcases List.eq_nil_or_concat after with rfl | ⟨earlier, last, rfl⟩
    · obtain ⟨-, hlast⟩ := List.append_inj' heq rfl
      obtain rfl : frame = made := List.singleton_inj.1 hlast
      exact .inl hmakes
    · have hsplit : history ++ [frame] = (before ++ made :: earlier) ++ [last] := by
        rw [heq, List.concat_eq_append, List.append_assoc, List.cons_append]
      obtain ⟨rfl, hlast⟩ := List.append_inj' hsplit rfl
      obtain rfl : frame = last := List.singleton_inj.1 hlast
      refine .inr ⟨⟨before, made, earlier, rfl, hmakes, fun later hlater => ?_⟩, ?_⟩
      · exact hafter later (by simp [hlater])
      · exact hafter frame (by simp)
  · rintro (hmakes | ⟨⟨before, made, after, rfl, hmakes, hafter⟩, hundoes⟩)
    · exact ⟨history, frame, [], rfl, hmakes, fun _ hlater => absurd hlater List.not_mem_nil⟩
    · refine ⟨before, made, after ++ [frame], by simp, hmakes, fun later hlater => ?_⟩
      rcases List.mem_append.1 hlater with hearlier | hlast
      · exact hafter later hearlier
      · rwa [List.mem_singleton.1 hlast]

/-- What one frame brings about or undoes holds if one has brought it about and
none has undone it since. -/
theorem since_of_step {P : List Frame → Prop} (hnil : ¬ P [])
    (hconcat : ∀ history frame, P (history ++ [frame]) ↔ makes frame ∨ P history ∧ ¬ undoes frame)
    (history : List Frame) : P history ↔ Since makes undoes history := by
  induction history using List.reverseRecOn with
  | nil => exact iff_of_false hnil not_since_nil
  | append_singleton history frame ih => rw [hconcat, since_concat, ih]

/-- A frame acknowledges one thing at most. -/
theorem Starts.service_eq {service other : Service} {id : UInt8}
    (h : frame.Starts service id) (hother : frame.Starts other id) : other = service :=
  hother.2.1.symm.trans h.2.1

theorem Ends.service_eq {service other : Service} {id : UInt8}
    (h : frame.Ends service id) (hother : frame.Ends other id) : other = service :=
  hother.2.1.symm.trans h.2.1

theorem Starts.not_ends {service other : Service} {id : UInt8} (h : frame.Starts service id) :
    ¬ frame.Ends other id :=
  fun hends => absurd (h.1.symm.trans hends.1) (by simp)

end Frame

namespace Registry

/-! ## The services of one session -/

/-- Is the session known? -/
def Knows (r : Registry) (id : UInt8) : Prop := ∃ s ∈ r.sessions, s.id = id

/-- The services of a session, in order; `none` if the session is not known. -/
def services? (r : Registry) (id : UInt8) : Option (List Service) :=
  (r.get? id).map fun s => s.services.map RunningService.service

/-- The services that are listed for a session, in order; a session that is not
known lists none. -/
def listed (r : Registry) (id : UInt8) : List Service :=
  (r.services? id).getD []

theorem knows_iff (r : Registry) (id : UInt8) : r.Knows id ↔ (r.services? id).isSome = true := by
  unfold services? get? Knows
  rw [Option.isSome_map, List.find?_isSome]
  simp only [decide_eq_true_eq]

theorem not_knows_empty (id : UInt8) : ¬ empty.Knows id := by
  rintro ⟨s, hs, -⟩
  exact absurd hs List.not_mem_nil

/-- The services of a session with one more: behind the others, unless it is
there already. -/
def withService (service : Service) (services : List Service) : List Service :=
  if service ∈ services then services else services ++ [service]

theorem mem_withService {service other : Service} {services : List Service} :
    other ∈ withService service services ↔ other = service ∨ other ∈ services := by
  unfold withService
  split
  · rename_i hmem
    refine (or_iff_right_of_imp ?_).symm
    rintro rfl
    exact hmem
  · rw [List.mem_append, List.mem_singleton, or_comm]

theorem map_service_addService (s : Session) (service : Service) :
    (s.addService service).services.map RunningService.service =
      withService service (s.services.map RunningService.service) := by
  unfold Session.addService withService
  by_cases hruns : s.hasService service = true
  · rw [if_pos hruns, if_pos (Session.hasService_iff.1 hruns)]
  · rw [if_neg hruns, if_neg fun hmem => hruns (Session.hasService_iff.2 hmem), List.map_append]
    rfl

theorem map_service_removeService (s : Session) (service : Service) :
    (s.removeService service).services.map RunningService.service =
      (s.services.map RunningService.service).filter fun other => other ≠ service := by
  rw [List.filter_map]
  rfl

/-- All that a frame can do to the services of a session. -/
inductive Relisted (frame : Frame) (id : UInt8) (old : Option (List Service)) :
    Option (List Service) → Prop where
  | opened (hstart : frame.Starts .rpc id) : Relisted frame id old (some [.rpc])
  | added {service : Service} (hstart : frame.Starts service id) (hservice : service ≠ .rpc)
    (hid : id ≠ 0) : Relisted frame id old (some (withService service (old.getD [])))
  | closed (hend : frame.Ends .rpc id) : Relisted frame id old none
  | ended {service : Service} (hend : frame.Ends service id) (hservice : service ≠ .rpc) :
    Relisted frame id old (old.map fun services => services.filter fun other => other ≠ service)
  | kept (hstart : ∀ service, frame.Starts service id → service ≠ .rpc ∧ id = 0)
    (hend : ∀ service, ¬ frame.Ends service id) : Relisted frame id old old

/-- A frame does nothing to the services of a session that it is not about. -/
theorem Relisted.of_session_ne {frame : Frame} {id : UInt8} {old : Option (List Service)}
    (h : frame.header.session ≠ id) : Relisted frame id old old :=
  .kept (fun _ hstart => absurd hstart.2.2 h) fun _ hend => h hend.2.2

theorem relisted (frame : Frame) (r : Registry) (id : UInt8) :
    Relisted frame id (r.services? id) ((ControlEvent.ofFrame frame r).2.services? id) := by
  have heffect := ControlEvent.effect frame r
  generalize (ControlEvent.ofFrame frame r).1 = result,
    (ControlEvent.ofFrame frame r).2 = next at heffect ⊢
  cases heffect with
  | @opened session hstart =>
    unfold services?
    rw [get?_put, Session.opened_id]
    by_cases hid : id = session
    · rw [hid, if_pos rfl]
      exact .opened hstart
    · rw [if_neg hid]
      exact .of_session_ne fun h => hid (h.symm.trans hstart.2.2)
  | @added service session hstart hservice hsession =>
    unfold services?
    rw [get?_addService]
    by_cases hid : id = session
    · subst hid
      rw [if_pos rfl, Option.map_some, map_service_addService]
      have hold : ((r.get? id).getD (Session.blank id)).services.map RunningService.service =
          ((r.get? id).map fun s => s.services.map RunningService.service).getD [] := by
        cases r.get? id <;> rfl
      rw [hold]
      exact .added hstart hservice hsession
    · rw [if_neg hid]
      exact .of_session_ne fun h => hid (h.symm.trans hstart.2.2)
  | @ended service session hend =>
    unfold services?
    rw [get?_removeService]
    by_cases hid : id = session
    · subst hid
      rw [if_pos rfl]
      by_cases hservice : service = .rpc
      · subst hservice
        rw [if_pos rfl]
        exact .closed hend
      · have hmap : ((r.get? id).map fun s => s.removeService service).map
            (fun s => s.services.map RunningService.service) =
              ((r.get? id).map fun s => s.services.map RunningService.service).map
                fun services => services.filter fun other => other ≠ service := by
          cases r.get? id with
          | none => rfl
          | some s => exact congrArg some (map_service_removeService s service)
        rw [if_neg hservice, hmap]
        exact .ended hend hservice
    · rw [if_neg hid]
      exact .of_session_ne fun h => hid (h.symm.trans hend.2.2)
  | kept hstart hend => exact .kept (fun service => hstart service id) fun service => hend service id

/-! ## What one frame brings about and undoes -/

section Step

variable {frame : Frame} {id : UInt8} {old new : Option (List Service)}

/-- A session is known after the start of any of its services, until RPC ends. -/
theorem Relisted.isSome_iff (h : Relisted frame id old new) :
    new.isSome = true ↔
      (∃ service, frame.Starts service id ∧ (service = .rpc ∨ id ≠ 0)) ∨
        old.isSome = true ∧ ¬ frame.Ends .rpc id := by
  cases h with
  | opened hstart => exact iff_of_true rfl (.inl ⟨_, hstart, .inl rfl⟩)
  | added hstart _ hid => exact iff_of_true rfl (.inl ⟨_, hstart, .inr hid⟩)
  | closed hend =>
    refine iff_of_false (by simp) ?_
    rintro (⟨service, hstart, -⟩ | ⟨-, hnot⟩)
    · exact hstart.not_ends hend
    · exact hnot hend
  | ended hend hservice =>
    rw [Option.isSome_map]
    have hnot : ¬ frame.Ends .rpc id := fun hrpc => hservice (hrpc.service_eq hend)
    refine ⟨fun hsome => .inr ⟨hsome, hnot⟩, ?_⟩
    rintro (⟨service, hstart, -⟩ | ⟨hsome, -⟩)
    · exact absurd hend hstart.not_ends
    · exact hsome
  | kept hstart hend =>
    refine ⟨fun hsome => .inr ⟨hsome, hend _⟩, ?_⟩
    rintro (⟨service, hstarts, hrpc | hid⟩ | ⟨hsome, -⟩)
    · exact absurd hrpc (hstart service hstarts).1
    · exact absurd (hstart service hstarts).2 hid
    · exact hsome

/-- RPC is listed from its start to its end. -/
theorem Relisted.rpc_mem_iff (h : Relisted frame id old new) :
    .rpc ∈ new.getD [] ↔
      frame.Starts .rpc id ∨ .rpc ∈ old.getD [] ∧ ¬ frame.Ends .rpc id := by
  cases h with
  | opened hstart => exact iff_of_true (List.mem_singleton.2 rfl) (.inl hstart)
  | added hstart hservice _ =>
    have hnot : ¬ frame.Starts .rpc id := fun hrpc => hservice (hrpc.service_eq hstart)
    rw [Option.getD_some, mem_withService, or_iff_right hservice.symm, or_iff_right hnot]
    exact (and_iff_left hstart.not_ends).symm
  | closed hend =>
    refine iff_of_false List.not_mem_nil ?_
    rintro (hstart | ⟨-, hnot⟩)
    · exact hstart.not_ends hend
    · exact hnot hend
  | @ended service hend hservice =>
    have hnot : ¬ frame.Ends .rpc id := fun hrpc => hservice (hrpc.service_eq hend)
    rw [or_iff_right fun hstart => hstart.not_ends hend, and_iff_left hnot]
    cases old with
    | none => exact Iff.rfl
    | some services =>
      rw [Option.map_some, Option.getD_some, Option.getD_some, List.mem_filter,
        and_iff_left (decide_eq_true hservice.symm)]
  | kept hstart hend =>
    rw [or_iff_right fun hrpc => (hstart _ hrpc).1 rfl, and_iff_left (hend _)]

/-- A service other than RPC is listed from its start to its end, or until RPC
starts or ends. -/
theorem Relisted.mem_iff (h : Relisted frame id old new) {service : Service}
    (hservice : service ≠ .rpc) :
    service ∈ new.getD [] ↔
      (frame.Starts service id ∧ id ≠ 0) ∨ service ∈ old.getD [] ∧
        ¬ (frame.Ends service id ∨ frame.Ends .rpc id ∨ frame.Starts .rpc id) := by
  cases h with
  | opened hstart =>
    refine iff_of_false (fun hmem => hservice (List.mem_singleton.1 hmem)) ?_
    rintro (⟨hstarts, -⟩ | ⟨-, hnot⟩)
    · exact hservice (hstart.service_eq hstarts)
    · exact hnot (.inr (.inr hstart))
  | @added other hstart hother hid =>
    have hnot : ¬ (frame.Ends service id ∨ frame.Ends .rpc id ∨ frame.Starts .rpc id) := by
      rintro (hend | hend | hrpc)
      · exact hstart.not_ends hend
      · exact hstart.not_ends hend
      · exact hother (hrpc.service_eq hstart)
    have hstarts : frame.Starts service id ↔ service = other :=
      ⟨hstart.service_eq, fun heq => heq ▸ hstart⟩
    rw [Option.getD_some, mem_withService, hstarts, and_iff_left hid, and_iff_left hnot]
  | closed hend =>
    refine iff_of_false List.not_mem_nil ?_
    rintro (⟨hstarts, -⟩ | ⟨-, hnot⟩)
    · exact hstarts.not_ends hend
    · exact hnot (.inr (.inl hend))
  | @ended other hend hother =>
    have hends : (frame.Ends service id ∨ frame.Ends .rpc id ∨ frame.Starts .rpc id) ↔
        service = other := by
      constructor
      · rintro (hends | hends | hrpc)
        · exact hend.service_eq hends
        · exact absurd (hends.service_eq hend) hother
        · exact absurd hend hrpc.not_ends
      · rintro rfl
        exact .inl hend
    rw [or_iff_right fun hstart => hstart.1.not_ends hend, hends]
    cases old with
    | none => exact iff_of_false List.not_mem_nil fun hmem => absurd hmem.1 List.not_mem_nil
    | some services =>
      rw [Option.map_some, Option.getD_some, Option.getD_some, List.mem_filter, decide_eq_true_eq]
  | kept hstart hend =>
    have hnot : ¬ (frame.Ends service id ∨ frame.Ends .rpc id ∨ frame.Starts .rpc id) := by
      rintro (hends | hends | hrpc)
      · exact hend _ hends
      · exact hend _ hends
      · exact (hstart _ hrpc).1 rfl
    rw [or_iff_right fun hstarts => hstarts.2 (hstart _ hstarts.1).2, and_iff_left hnot]

/-- The services that stay keep their order, and what is listed anew stands
behind them. -/
theorem Relisted.sublist_or_concat (h : Relisted frame id old new) :
    (new.getD []).Sublist (old.getD []) ∨
      ∃ stay entrant, stay.Sublist (old.getD []) ∧ entrant ∉ old.getD [] ∧
        new.getD [] = stay ++ [entrant] := by
  cases h with
  | opened _ =>
    by_cases hmem : .rpc ∈ old.getD []
    · exact .inl (List.singleton_sublist.2 hmem)
    · exact .inr ⟨[], .rpc, List.nil_sublist _, hmem, rfl⟩
  | @added service _ _ _ =>
    unfold withService
    by_cases hmem : service ∈ old.getD []
    · rw [if_pos hmem]
      exact .inl (List.Sublist.refl _)
    · rw [if_neg hmem]
      exact .inr ⟨_, service, List.Sublist.refl _, hmem, rfl⟩
  | closed _ => exact .inl (List.nil_sublist _)
  | ended _ _ =>
    cases old with
    | none => exact .inl (List.Sublist.refl _)
    | some services => exact .inl List.filter_sublist
  | kept _ _ => exact .inl (List.Sublist.refl _)

end Step

/-! ## The order of the services -/

/-- The services that are listed for a session after a history. -/
def listedAfter (history : List Frame) (id : UInt8) : List Service :=
  (empty.replay history).listed id

theorem relisted_concat (history : List Frame) (frame : Frame) (id : UInt8) :
    Relisted frame id ((empty.replay history).services? id)
      ((empty.replay (history ++ [frame])).services? id) := by
  rw [replay_concat]
  exact relisted frame _ id

/-- Frame `n` of the history makes a service listed that was not listed. -/
structure Enters (history : List Frame) (id : UInt8) (service : Service) (n : Nat) : Prop where
  lt_length : n < history.length
  before : service ∉ listedAfter (history.take n) id
  after : service ∈ listedAfter (history.take (n + 1)) id

/-- Frame `n` of the history is the last that makes the service listed. -/
def LastEnters (history : List Frame) (id : UInt8) (service : Service) (n : Nat) : Prop :=
  Enters history id service n ∧ ∀ m, Enters history id service m → m ≤ n

section Order

variable {history : List Frame} {frame : Frame} {id : UInt8} {service : Service} {n : Nat}

/-- A frame more does not change when a service has entered before. -/
theorem enters_concat_iff : Enters (history ++ [frame]) id service n ↔
    Enters history id service n ∨ n = history.length ∧ service ∉ listedAfter history id ∧
      service ∈ listedAfter (history ++ [frame]) id := by
  constructor
  · rintro ⟨hlt, hbefore, hafter⟩
    rw [List.length_append, List.length_singleton] at hlt
    rcases Nat.lt_or_eq_of_le (Nat.le_of_lt_succ hlt) with hn | rfl
    · rw [List.take_append_of_le_length (by omega)] at hbefore hafter
      exact .inl ⟨hn, hbefore, hafter⟩
    · rw [List.take_left] at hbefore
      rw [List.take_of_length_le (by simp)] at hafter
      exact .inr ⟨rfl, hbefore, hafter⟩
  · rintro (⟨hn, hbefore, hafter⟩ | ⟨rfl, hbefore, hafter⟩)
    · refine ⟨by rw [List.length_append]; omega, ?_, ?_⟩
      · rwa [List.take_append_of_le_length (by omega)]
      · rwa [List.take_append_of_le_length (by omega)]
    · refine ⟨by simp, ?_, ?_⟩
      · rwa [List.take_left]
      · rwa [List.take_of_length_le (by simp)]

/-- A service that was listed already does not enter. -/
theorem LastEnters.concat (h : LastEnters history id service n)
    (hlisted : service ∈ listedAfter history id) (frame : Frame) :
    LastEnters (history ++ [frame]) id service n := by
  refine ⟨enters_concat_iff.2 (.inl h.1), fun m hm => ?_⟩
  rcases enters_concat_iff.1 hm with hm | ⟨-, hnew, -⟩
  · exact h.2 m hm
  · exact absurd hlisted hnew

theorem lastEnters_length (hnew : service ∉ listedAfter history id)
    (hlisted : service ∈ listedAfter (history ++ [frame]) id) :
    LastEnters (history ++ [frame]) id service history.length := by
  refine ⟨enters_concat_iff.2 (.inr ⟨rfl, hnew, hlisted⟩), fun m hm => ?_⟩
  have hlt := hm.lt_length
  rw [List.length_append, List.length_singleton] at hlt
  omega

end Order

/-- Services are listed by when they were last listed anew. -/
structure InOrder (history : List Frame) (id : UInt8) (since : Service → Nat) : Prop where
  lastEnters : ∀ service ∈ listedAfter history id, LastEnters history id service (since service)
  ordered : (listedAfter history id).Pairwise fun service later => since service < since later

/-- One more frame, and a service enters at it or none. -/
theorem InOrder.concat {history : List Frame} {id : UInt8} {since : Service → Nat}
    (h : InOrder history id since) (frame : Frame) :
    ∃ since', InOrder (history ++ [frame]) id since' := by
  rcases (relisted_concat history frame id).sublist_or_concat with hsub | hentrant
  · refine ⟨since, fun service hlisted => ?_, h.ordered.sublist hsub⟩
    have hold : service ∈ listedAfter history id := hsub.subset hlisted
    exact (h.lastEnters service hold).concat hold frame
  · obtain ⟨stay, entrant, hsub, hnew, heq⟩ := hentrant
    have hlisted : listedAfter (history ++ [frame]) id = stay ++ [entrant] := heq
    -- Those that stay have entered earlier, the entrant enters now.
    have hne : ∀ service ∈ stay, service ≠ entrant := by
      rintro service hstay rfl
      exact hnew (hsub.subset hstay)
    have hlt : ∀ service ∈ stay, since service < history.length := fun service hstay =>
      (h.lastEnters service (hsub.subset hstay)).1.lt_length
    let since' := fun service => if service = entrant then history.length else since service
    have hstays : ∀ service ∈ stay, since' service = since service := fun service hstay =>
      if_neg (hne service hstay)
    have henters : since' entrant = history.length := if_pos rfl
    refine ⟨since', fun service hmem => ?_, ?_⟩
    · have hcases : service ∈ stay ∨ service = entrant := by
        rwa [hlisted, List.mem_append, List.mem_singleton] at hmem
      rcases hcases with hstay | rfl
      · rw [hstays service hstay]
        exact (h.lastEnters service (hsub.subset hstay)).concat (hsub.subset hstay) frame
      · rw [henters]
        exact lastEnters_length hnew hmem
    · rw [hlisted]
      refine List.pairwise_append.2 ⟨?_, List.pairwise_singleton _ _, ?_⟩
      · refine (h.ordered.sublist hsub).imp_of_mem fun hservice hlater hearlier => ?_
        rwa [hstays _ hservice, hstays _ hlater]
      · intro service hstay later hlast
        rw [List.mem_singleton.1 hlast, henters, hstays service hstay]
        exact hlt service hstay

theorem exists_inOrder (history : List Frame) (id : UInt8) : ∃ since, InOrder history id since := by
  induction history using List.reverseRecOn with
  | nil => exact ⟨fun _ => 0, fun _ hlisted => absurd hlisted List.not_mem_nil, List.Pairwise.nil⟩
  | append_singleton history frame ih =>
    obtain ⟨since, hsince⟩ := ih
    exact hsince.concat frame

theorem InOrder.nodup {history : List Frame} {id : UInt8} {since : Service → Nat}
    (h : InOrder history id since) : (listedAfter history id).Nodup :=
  h.ordered.imp fun hlt heq => absurd (heq ▸ hlt) (Nat.lt_irrefl _)

/-! ## Known sessions and their services -/

/-- A session is known if one of its services has been started and RPC has not
ended since. -/
theorem knows_replay_iff (history : List Frame) (id : UInt8) :
    (empty.replay history).Knows id ↔
      Frame.Since (fun frame => ∃ service, frame.Starts service id ∧ (service = .rpc ∨ id ≠ 0))
        (fun frame => frame.Ends .rpc id) history := by
  refine Frame.since_of_step (P := fun history => (empty.replay history).Knows id)
    (not_knows_empty id) (fun history frame => ?_) history
  rw [knows_iff, knows_iff]
  exact (relisted_concat history frame id).isSome_iff

theorem rpc_mem_listedAfter_iff (history : List Frame) (id : UInt8) :
    .rpc ∈ listedAfter history id ↔
      Frame.Since (fun frame => frame.Starts .rpc id) (fun frame => frame.Ends .rpc id) history :=
  Frame.since_of_step (P := fun history => .rpc ∈ listedAfter history id) List.not_mem_nil
    (fun history frame => (relisted_concat history frame id).rpc_mem_iff) history

theorem mem_listedAfter_iff (history : List Frame) (id : UInt8) {service : Service}
    (hservice : service ≠ .rpc) :
    service ∈ listedAfter history id ↔
      Frame.Since (fun frame => frame.Starts service id ∧ id ≠ 0)
        (fun frame => frame.Ends service id ∨ frame.Ends .rpc id ∨ frame.Starts .rpc id)
        history :=
  Frame.since_of_step (P := fun history => service ∈ listedAfter history id) List.not_mem_nil
    (fun history frame => (relisted_concat history frame id).mem_iff hservice) history

/-- The services of a session in the list of the sessions are those listed for
its id. -/
theorem map_service_of_mem {history : List Frame} {s : Session}
    (hs : s ∈ (empty.replay history).sessions) :
    s.services.map RunningService.service = listedAfter history s.id := by
  have hget := (lawful_empty.replay history).mem_sessions_iff.1 hs
  unfold listedAfter listed services?
  rw [hget]
  rfl

/-- The registry after a history is what the history says.

A session is known if the start of RPC in it, or of another service in a session
other than 0, has not been followed by the end of RPC.  RPC runs in it from its
start to its end, and another service from its start to its end or until RPC
starts or ends.  The services stand in the order in which they were last listed
anew.  A frame that starts nothing and ends nothing, one that is an error too,
leaves any registry as it is. -/
theorem sessions_of_history (history : List Frame) :
    (∀ id, (∃ s ∈ (empty.replay history).sessions, s.id = id) ↔
      Frame.Since (fun frame => ∃ service, frame.Starts service id ∧ (service = .rpc ∨ id ≠ 0))
        (fun frame => frame.Ends .rpc id) history) ∧
    (∀ s ∈ (empty.replay history).sessions,
      s.services.map RunningService.service = listedAfter history s.id) ∧
    (∀ id, (.rpc ∈ listedAfter history id ↔
        Frame.Since (fun frame => frame.Starts .rpc id) (fun frame => frame.Ends .rpc id)
          history) ∧
      (∀ service, service ≠ .rpc →
        (service ∈ listedAfter history id ↔
          Frame.Since (fun frame => frame.Starts service id ∧ id ≠ 0)
            (fun frame => frame.Ends service id ∨ frame.Ends .rpc id ∨ frame.Starts .rpc id)
            history)) ∧
      (listedAfter history id).Nodup ∧
      ∃ since : Service → Nat,
        (∀ service ∈ listedAfter history id, LastEnters history id service (since service)) ∧
        (listedAfter history id).Pairwise fun service later => since service < since later) ∧
    ∀ (r : Registry) (frame : Frame),
      (∀ event, (ControlEvent.ofFrame frame r).1 = .ok event → ¬ event.StartsOrEnds) →
        (ControlEvent.ofFrame frame r).2 = r := by
  refine ⟨knows_replay_iff history, fun _ => map_service_of_mem, fun id => ?_,
    fun _ _ => ControlEvent.ofFrame_of_not_startsOrEnds⟩
  obtain ⟨since, hsince⟩ := exists_inOrder history id
  exact ⟨rpc_mem_listedAfter_iff history id, fun _ => mem_listedAfter_iff history id,
    hsince.nodup, since, hsince.lastEnters, hsince.ordered⟩

/-- A service that is started again after its end stands behind one that was
started in between. -/
theorem sessions_of_history_started_again :
    let started := fun service => Frame.stamped (Header.control service 1 .startServiceAck 1) []
    let ended := fun service => Frame.stamped (Header.control service 1 .endServiceAck 1) []
    let history := [started .rpc, started .nav, started .bulk, ended .nav, started .nav]
    listedAfter history 1 = [.rpc, .bulk, .nav] ∧
      Frame.Since (fun frame => frame.Starts .nav 1 ∧ (1 : UInt8) ≠ 0)
        (fun frame => frame.Ends .nav 1 ∨ frame.Ends .rpc 1 ∨ frame.Starts .rpc 1) history ∧
      ∃ since : Service → Nat, LastEnters history 1 .bulk (since .bulk) ∧
        LastEnters history 1 .nav (since .nav) ∧ since .bulk < since .nav := by
  intro started ended history
  have hlisted : listedAfter history 1 = [.rpc, .bulk, .nav] := by decide
  obtain ⟨-, hmem, -, since, henters, hordered⟩ := (sessions_of_history history).2.2.1 1
  rw [hlisted] at henters hordered
  exact ⟨hlisted, (hmem .nav (by decide)).1 (by decide), since, henters _ (by decide),
    henters _ (by decide), by simpa using (List.pairwise_cons.1 hordered).2⟩

end Registry

end HeadUnitLink
