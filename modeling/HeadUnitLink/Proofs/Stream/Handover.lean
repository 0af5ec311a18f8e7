import HeadUnitLink.Stream.Writer

/-!
# Bytes that are handed over to a stream

A stream may take a few bytes at a time, fail for the moment, and break.  Whatever it
does, it has taken the beginning of the bytes that were handed over to it, and all of
them if it did not break.  Failures that may be gone at the next attempt make no
difference to that.

* `Handover` is what a stream can have taken.  `Sink.writeAll_handover` is the loop over
  the writes, and `Sink.deliver_handover` has the flush after it.
* `Sink.steady` is a stream without the failures that pass, and `Sink.deliver_of_steady`
  says that two streams with the same one take the same bytes.
-/

namespace HeadUnitLink

/-! ## Bytes that are handed over -/

/-- The stream takes no more, now and later. -/
def FrameError.Breaks : FrameError → Prop
  | io cause => cause.isTransient = false
  | connectionClosed => True
  | _ => False

/-- What a stream has taken of the bytes that it was to take: all of them, or the
beginning if it broke. -/
inductive Handover (content : Bytes) : Except FrameError Unit → Bytes → Prop where
  | whole : Handover content (.ok ()) content
  | cut {e : FrameError} {taken : Bytes} (hcause : e.Breaks) (hpart : taken <+: content) :
      Handover content (.error e) taken

/-- What was taken before goes before. -/
theorem Handover.append_left {content taken : Bytes} {result : Except FrameError Unit}
    (h : Handover content result taken) (before : Bytes) :
    Handover (before ++ content) result (before ++ taken) := by
  cases h with
  | whole => exact .whole
  | cut hcause hpart => exact .cut hcause ((List.prefix_append_right_inj before).2 hpart)

namespace Sink

/-- The writes take the bytes in order, each of them once, until all are taken or the
stream breaks. -/
theorem writeAll_handover (pending : Bytes) (outcomes : List Acceptance) (s : Sink) :
    ∃ taken, Handover pending (s.writeAll pending outcomes).1 taken ∧
      (s.writeAll pending outcomes).2.accepted = s.accepted ++ taken ∧
      (s.writeAll pending outcomes).2.flushCount = s.flushCount := by
  fun_induction writeAll pending outcomes s with
  | case1 outcomes s => exact ⟨[], .whole, (List.append_nil _).symm, rfl⟩
  | case2 s first more => exact ⟨first :: more, .whole, rfl, rfl⟩
  | case3 s first more cause rest htransient ih =>
    obtain ⟨taken, htaken, haccepted, hcount⟩ := ih
    rw [show (s.take [] rest).accepted = s.accepted ++ [] from rfl, List.append_nil] at haccepted
    exact ⟨taken, htaken, haccepted, hcount⟩
  | case4 s first more cause rest hlasting =>
    exact ⟨[], .cut (Bool.eq_false_iff.2 hlasting) List.nil_prefix, rfl, rfl⟩
  | case5 s first more rest => exact ⟨[], .cut trivial List.nil_prefix, rfl, rfl⟩
  | case6 s first more count rest hcount ih =>
    obtain ⟨taken, htaken, haccepted, hflushes⟩ := ih
    refine ⟨(first :: more).take count ++ taken, ?_, ?_, hflushes⟩
    · have hwhole := htaken.append_left ((first :: more).take count)
      rw [List.take_append_drop] at hwhole
      exact hwhole
    · rw [haccepted]
      exact List.append_assoc _ _ _

/-- A flush takes no bytes, and is repeated until it succeeds or the stream breaks. -/
theorem flushAll_cases (outcomes : List (Option IoFault)) (s : Sink) :
    (s.flushAll outcomes).2.accepted = s.accepted ∧
      ((s.flushAll outcomes).1 = .ok () ∧
          (s.flushAll outcomes).2.flushCount = s.flushCount + 1 ∨
        ∃ e, (s.flushAll outcomes).1 = .error e ∧ e.Breaks) := by
  fun_induction flushAll outcomes s with
  | case1 s => exact ⟨rfl, Or.inl ⟨rfl, rfl⟩⟩
  | case2 s rest => exact ⟨rfl, Or.inl ⟨rfl, rfl⟩⟩
  | case3 s cause rest htransient ih => exact ih
  | case4 s cause rest hlasting =>
    exact ⟨rfl, Or.inr ⟨.io cause, rfl, Bool.eq_false_iff.2 hlasting⟩⟩

theorem deliver_of_error {s broken : Sink} {content : Bytes} {e : FrameError}
    (h : s.writeAll content s.writes = (.error e, broken)) :
    s.deliver content = (.error e, broken) := by
  unfold deliver
  rw [h]

theorem deliver_of_ok {s full : Sink} {content : Bytes}
    (h : s.writeAll content s.writes = (.ok (), full)) : s.deliver content = full.flush := by
  unfold deliver
  rw [h]

/-- Bytes are written, and then the stream is flushed, which takes none.  If all
succeeds, it is flushed once, when it has them all. -/
theorem deliver_handover (s : Sink) (content : Bytes) :
    ∃ taken, Handover content (s.deliver content).1 taken ∧
      (s.deliver content).2.accepted = s.accepted ++ taken ∧
      ((s.deliver content).1 = .ok () → ∃ full : Sink,
        full.accepted = s.accepted ++ content ∧ full.flushCount = s.flushCount ∧
        full.flush = (.ok (), (s.deliver content).2) ∧
        (s.deliver content).2.flushCount = s.flushCount + 1) := by
  obtain ⟨taken, htaken, haccepted, hcount⟩ := writeAll_handover content s.writes s
  cases hwritten : s.writeAll content s.writes with
  | mk result full =>
    rw [hwritten] at htaken haccepted hcount
    cases htaken with
    | cut hcause hpart =>
      rw [deliver_of_error hwritten]
      exact ⟨taken, .cut hcause hpart, haccepted, fun h => absurd h (by simp)⟩
    | whole =>
      have hsame : full.flush.2.accepted = s.accepted ++ content :=
        (flushAll_cases full.flushes full).1.trans haccepted
      rw [deliver_of_ok hwritten]
      rcases (flushAll_cases full.flushes full).2 with ⟨hok, hflushed⟩ | ⟨e, herror, hcause⟩
      · change full.flush.1 = .ok () at hok
        change full.flush.2.flushCount = full.flushCount + 1 at hflushed
        rw [hok]
        refine ⟨content, .whole, hsame, fun _ => ⟨full, haccepted, hcount, ?_, ?_⟩⟩
        · exact Prod.ext hok rfl
        · rw [hflushed]
          exact congrArg (· + 1) hcount
      · change full.flush.1 = .error e at herror
        rw [herror]
        exact ⟨content, .cut hcause (List.prefix_refl content), hsame,
          fun h => absurd h (by simp)⟩

end Sink

/-! ## Failures that pass -/

/-- Does a write that ends like this end in the same way when it is repeated? -/
def Acceptance.lasts : Acceptance → Bool
  | upTo _ => true
  | fault cause => !cause.isTransient

namespace Sink

/-- Does a flush that ends like this end in the same way when it is repeated? -/
def flushLasts : Option IoFault → Bool
  | none => true
  | some cause => !cause.isTransient

/-- A sink without the failures that may be gone at the next attempt.  It is forgotten
how often it was written to, which is all that these failures change. -/
def steady (s : Sink) : Sink :=
  { s with
    writes := s.writes.filter Acceptance.lasts, flushes := s.flushes.filter flushLasts
    writeCalls := 0 }

variable {s t : Sink}

/-- A write is the same on two sinks that differ in failures that pass. -/
theorem steady_take (h : s.steady = t.steady) (content : Bytes) (rest : List Acceptance) :
    (s.take content rest).steady = (t.take content (rest.filter Acceptance.lasts)).steady := by
  obtain ⟨-, hflushes, haccepted, -, hcount⟩ := Sink.mk.inj h
  unfold take steady
  simp only [List.filter_filter, Bool.and_self, haccepted, hflushes, hcount]

/-- A failure that passes is gone at the next write. -/
theorem steady_take_nil {outcome : Acceptance} {rest : List Acceptance}
    (hs : s.writes = outcome :: rest) (hpasses : ¬ outcome.lasts = true) :
    (s.take [] rest).steady = s.steady := by
  unfold take steady
  rw [hs, List.filter_cons_of_neg hpasses, List.append_nil]

/-- Writing passes over the failures that pass. -/
theorem writeAll_of_steady (pending : Bytes) (outcomes : List Acceptance) (s t : Sink)
    (hs : s.writes = outcomes) (h : s.steady = t.steady) :
    (s.writeAll pending outcomes).1 =
        (t.writeAll pending (outcomes.filter Acceptance.lasts)).1 ∧
      (s.writeAll pending outcomes).2.steady =
        (t.writeAll pending (outcomes.filter Acceptance.lasts)).2.steady := by
  -- along the loop on `s`: `t` goes with it where the outcome lasts, and waits where it passes
  fun_induction writeAll pending outcomes s generalizing t with
  | case1 outcomes s =>
    rw [writeAll]
    exact ⟨rfl, h⟩
  | case2 s first more =>
    rw [List.filter_nil, writeAll]
    exact ⟨rfl, steady_take h _ []⟩
  | case3 s first more cause rest htransient ih =>
    have hpasses : ¬ (Acceptance.fault cause).lasts = true := by
      simp only [Acceptance.lasts, htransient, Bool.not_true, Bool.false_eq_true, not_false_eq_true]
    rw [List.filter_cons_of_neg hpasses]
    exact ih t rfl ((steady_take_nil hs hpasses).trans h)
  | case4 s first more cause rest hlasting =>
    have hlasts : (Acceptance.fault cause).lasts = true := by
      simp only [Acceptance.lasts, Bool.eq_false_iff.2 hlasting, Bool.not_false]
    rw [List.filter_cons_of_pos hlasts, writeAll, if_neg hlasting]
    exact ⟨rfl, steady_take h _ rest⟩
  | case5 s first more rest =>
    rw [List.filter_cons_of_pos rfl, writeAll, if_pos rfl]
    exact ⟨rfl, steady_take h _ rest⟩
  | case6 s first more count rest hcount ih =>
    rw [List.filter_cons_of_pos rfl, writeAll, if_neg hcount]
    exact ih _ rfl (steady_take h _ rest)

/-- A flush that ends is the same on two sinks that differ in failures that pass. -/
theorem steady_flushed (h : s.steady = t.steady) (rest : List (Option IoFault)) :
    (s.flushed rest).steady = (t.flushed (rest.filter flushLasts)).steady := by
  obtain ⟨hwrites, -, haccepted, -, hcount⟩ := Sink.mk.inj h
  unfold flushed steady
  simp only [List.filter_filter, Bool.and_self, hwrites, haccepted, hcount]

theorem steady_flushes (h : s.steady = t.steady) (rest : List (Option IoFault)) :
    ({ s with flushes := rest } : Sink).steady =
      ({ t with flushes := rest.filter flushLasts } : Sink).steady := by
  obtain ⟨hwrites, -, haccepted, -, hcount⟩ := Sink.mk.inj h
  unfold steady
  simp only [List.filter_filter, Bool.and_self, hwrites, haccepted, hcount]

/-- Flushing passes over the failures that pass. -/
theorem flushAll_of_steady (outcomes : List (Option IoFault)) (s t : Sink)
    (hs : s.flushes = outcomes) (h : s.steady = t.steady) :
    (s.flushAll outcomes).1 = (t.flushAll (outcomes.filter flushLasts)).1 ∧
      (s.flushAll outcomes).2.steady = (t.flushAll (outcomes.filter flushLasts)).2.steady := by
  fun_induction flushAll outcomes s generalizing t with
  | case1 s => exact ⟨rfl, steady_flushed h []⟩
  | case2 s rest => exact ⟨rfl, steady_flushed h rest⟩
  | case3 s cause rest htransient ih =>
    have hpasses : ¬ flushLasts (some cause) = true := by
      simp only [flushLasts, htransient, Bool.not_true, Bool.false_eq_true, not_false_eq_true]
    have hsame : ({ s with flushes := rest } : Sink).steady = s.steady := by
      unfold steady
      rw [hs, List.filter_cons_of_neg hpasses]
    rw [List.filter_cons_of_neg hpasses]
    exact ih t rfl (hsame.trans h)
  | case4 s cause rest hlasting =>
    have hlasts : flushLasts (some cause) = true := by
      simp only [flushLasts, Bool.eq_false_iff.2 hlasting, Bool.not_false]
    rw [List.filter_cons_of_pos hlasts, flushAll, if_neg hlasting]
    exact ⟨rfl, steady_flushes h rest⟩

/-- Two streams that differ in failures that pass are flushed alike. -/
theorem flush_of_steady (h : s.steady = t.steady) :
    s.flush.1 = t.flush.1 ∧ s.flush.2.steady = t.flush.2.steady := by
  obtain ⟨hresult, hsink⟩ := flushAll_of_steady s.flushes s t rfl h
  obtain ⟨hresult', hsink'⟩ := flushAll_of_steady t.flushes t t rfl rfl
  have hflushes : s.flushes.filter flushLasts = t.flushes.filter flushLasts :=
    congrArg flushes h
  rw [hflushes] at hresult hsink
  exact ⟨hresult.trans hresult'.symm, hsink.trans hsink'.symm⟩

/-- Two streams that differ in failures that pass take the same bytes with the same
result. -/
theorem deliver_of_steady (h : s.steady = t.steady) (content : Bytes) :
    (s.deliver content).1 = (t.deliver content).1 ∧
      (s.deliver content).2.steady = (t.deliver content).2.steady := by
  obtain ⟨hresult, hsink⟩ := writeAll_of_steady content s.writes s t rfl h
  obtain ⟨hresult', hsink'⟩ := writeAll_of_steady content t.writes t t rfl rfl
  have hwrites : s.writes.filter Acceptance.lasts = t.writes.filter Acceptance.lasts :=
    congrArg writes h
  rw [hwrites] at hresult hsink
  have hsame := hresult.trans hresult'.symm
  have hsteady := hsink.trans hsink'.symm
  cases hs : s.writeAll content s.writes with
  | mk result full =>
    cases ht : t.writeAll content t.writes with
    | mk result' full' =>
      rw [hs, ht] at hsame hsteady
      obtain rfl : result = result' := hsame
      cases result with
      | error e =>
        rw [deliver_of_error hs, deliver_of_error ht]
        exact ⟨rfl, hsteady⟩
      | ok _ =>
        rw [deliver_of_ok hs, deliver_of_ok ht]
        exact flush_of_steady hsteady

end Sink

end HeadUnitLink
