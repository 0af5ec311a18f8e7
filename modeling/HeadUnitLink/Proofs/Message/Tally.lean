import HeadUnitLink.Proofs.Message.Restart
import Mathlib.Data.List.Induction

/-!
# How many pieces a buffer has taken

A buffer counts its pieces in a 32-bit word.  How many there are can also be read
off what came in and what was answered: `Assembler.tally`.

* `Assembler.onKey_eq_some` is all that a frame can do to a buffer that is open
  after it, and `Assembler.tally_concat` what the frame does to the tally.
* `Assembler.tally_induction` carries a relation between the two through a run.
* `Assembler.received_eq_tally_iff`: the word is the tally as long as the tally is
  below 2^32, and the limit on the length of a message sees to that if no piece is
  empty (`Assembler.tally_le_of_ne_nil`).
* `Assembler.exists_received_wrapped`: empty pieces can come without end, and the
  word starts again from 0.
-/

namespace HeadUnitLink

namespace Assembler

/-! ## What came in and what was answered -/

/-- A frame and what it has brought about. -/
abbrev Entry := Frame × Except LinkError Assembled

/-- Did the frame open a buffer? -/
def Opens (entry : Entry) : Prop :=
  entry.1.header.frameType = .first ∧ entry.2 = .ok .pending

/-- Was the frame a piece that was accepted? -/
def AcceptsPiece (entry : Entry) : Prop :=
  entry.1.header.frameType = .consecutive ∧ entry.2.isOk

instance (entry : Entry) : Decidable (Opens entry) :=
  inferInstanceAs (Decidable (_ ∧ _))

instance (entry : Entry) : Decidable (AcceptsPiece entry) :=
  inferInstanceAs (Decidable (_ ∧ _))

/-- The entries of a run. -/
def log (a : Assembler) : List Frame → List Entry
  | [] => []
  | frame :: rest => (frame, (a.handle frame).1) :: (a.handle frame).2.log rest

/-- How many pieces were accepted on a key since a buffer was opened there for the
last time. -/
def tally (key : MessageKey) (entries : List Entry) : Nat :=
  ((entries.filter fun entry => entry.1.header.key = key).reverse.takeWhile
    fun entry => ¬ Opens entry).countP fun entry => AcceptsPiece entry

theorem log_concat (a : Assembler) (frames : List Frame) (frame : Frame) :
    a.log (frames ++ [frame]) =
      a.log frames ++ [(frame, ((a.handleAll frames).2.handle frame).1)] := by
  induction frames generalizing a with
  | nil => rfl
  | cons first rest ih =>
    rw [List.cons_append, log, ih]
    rfl

theorem handleAll_concat (a : Assembler) (frames : List Frame) (frame : Frame) :
    (a.handleAll (frames ++ [frame])).2 = ((a.handleAll frames).2.handle frame).2 := by
  induction frames generalizing a with
  | nil => rfl
  | cons first rest ih => exact ih _

theorem tally_concat (key : MessageKey) (entries : List Entry) (entry : Entry) :
    tally key (entries ++ [entry]) =
      if entry.1.header.key = key then
        if Opens entry then 0
        else if AcceptsPiece entry then tally key entries + 1
        else tally key entries
      else tally key entries := by
  unfold tally
  rw [List.filter_append]
  by_cases hkey : entry.1.header.key = key
  · rw [List.filter_cons_of_pos (by simpa using hkey), List.filter_nil, List.reverse_append,
      List.reverse_singleton, List.singleton_append, List.takeWhile_cons, if_pos hkey]
    by_cases hopens : Opens entry
    · rw [if_neg (by simpa using hopens), if_pos hopens, List.countP_nil]
    · rw [if_pos (by simpa using hopens), if_neg hopens, List.countP_cons]
      by_cases haccepted : AcceptsPiece entry
      · rw [if_pos (by simpa using haccepted), if_pos haccepted]
      · rw [if_neg (by simpa using haccepted), if_neg haccepted, Nat.add_zero]
  · rw [List.filter_cons_of_neg (by simpa using hkey), List.filter_nil, List.append_nil,
      if_neg hkey]

/-! ## One frame -/

variable {limit : Nat} {frame : Frame} {next : PartialMessage}

/-- A buffer that is open after a frame was opened by it, has taken in its piece, or
was there before. -/
theorem onKey_eq_some {buffer : Option PartialMessage} {result : Except LinkError Assembled}
    (h : onKey limit buffer frame = (result, some next)) :
    Opens (frame, result) ∧ next.received = 0 ∧ next.data = [] ∨
      ¬ Opens (frame, result) ∧ AcceptsPiece (frame, result) ∧
        (∃ old, buffer = some old ∧ next.received = old.received + 1 ∧
          next.data = old.data ++ frame.payload) ∨
      ¬ Opens (frame, result) ∧ ¬ AcceptsPiece (frame, result) ∧ buffer = some next := by
  unfold onKey at h
  cases htype : frame.header.frameType with
  | control =>
    simp only [htype] at h
    obtain ⟨-, hkept⟩ := Prod.mk.inj h
    exact Or.inr (Or.inr ⟨fun hopens => by simp [Opens, htype] at hopens,
      fun haccepts => by simp [AcceptsPiece, htype] at haccepts, hkept⟩)
  | single =>
    simp only [htype] at h
    obtain ⟨-, hclosed⟩ := Prod.mk.inj h
    cases buffer <;> cases hclosed
  | first =>
    simp only [htype, onFirst] at h
    split at h
    · obtain ⟨hresult, hkept⟩ := Prod.mk.inj h
      refine Or.inr (Or.inr ⟨fun hopens => ?_,
        fun haccepts => by simp [AcceptsPiece, htype] at haccepts, hkept⟩)
      rw [Opens, ← hresult] at hopens
      cases hopens.2
    · split at h
      · cases h
      · obtain ⟨hresult, hopened⟩ := Prod.mk.inj h
        rw [← Option.some.inj hopened]
        exact Or.inl ⟨⟨htype, hresult.symm⟩, rfl, rfl⟩
  | consecutive =>
    simp only [htype, onConsecutive] at h
    split at h
    · cases h
    · rename_i old
      split at h
      · cases h
      · split at h
        · obtain ⟨hresult, hjoined⟩ := Prod.mk.inj h
          rw [← Option.some.inj hjoined, ← hresult]
          exact Or.inr (Or.inl ⟨fun hopens => by simp [Opens, htype] at hopens, ⟨htype, rfl⟩,
            old, rfl, rfl, rfl⟩)
        · cases h

/-! ## A run -/

/-- A relation between the tally and the buffer holds in every run, if it holds of a
buffer that was just opened and every piece keeps it. -/
theorem tally_induction {P : Nat → PartialMessage → Prop} {key : MessageKey}
    {frames : List Frame}
    (hopened : ∀ next, next.received = 0 → next.data = [] → P 0 next)
    (hpiece : ∀ n old next frame, frame ∈ frames → frame.header.key = key →
      frame.header.frameType = .consecutive → P n old →
      next.received = old.received + 1 → next.data = old.data ++ frame.payload →
      P (n + 1) next) {buffer : PartialMessage}
    (hbuffer : ((empty limit).handleAll frames).2.get? key = some buffer) :
    P (tally key ((empty limit).log frames)) buffer := by
  induction frames using List.reverseRecOn generalizing buffer with
  | nil => exact absurd hbuffer (by simp [handleAll, empty, get?])
  | append_singleton frames frame ih =>
    have hearlier : ∀ old, ((empty limit).handleAll frames).2.get? key = some old →
        P (tally key ((empty limit).log frames)) old :=
      fun old => ih fun n old next other hother =>
        hpiece n old next other (List.mem_append_left _ hother)
    rw [handleAll_concat, get?_handle] at hbuffer
    rw [log_concat, tally_concat]
    simp only
    by_cases hkey : frame.header.key = key
    · rw [if_pos hkey.symm, hkey] at hbuffer
      rw [if_pos hkey, handle_fst, hkey]
      rcases onKey_eq_some (Prod.ext rfl hbuffer) with
        ⟨hopens, hreceived, hdata⟩ | ⟨hopens, haccepts, old, hold, hreceived, hdata⟩ |
          ⟨hopens, haccepts, hold⟩
      · rw [if_pos hopens]
        exact hopened buffer hreceived hdata
      · rw [if_neg hopens, if_pos haccepts]
        exact hpiece _ old buffer frame (List.mem_append_right _ List.mem_cons_self) hkey
          haccepts.1 (hearlier old hold) hreceived hdata
      · rw [if_neg hopens, if_neg haccepts]
        exact hearlier buffer hold
    · rw [if_neg (Ne.symm hkey)] at hbuffer
      rw [if_neg hkey]
      exact hearlier buffer hbuffer

variable {key : MessageKey} {buffer : PartialMessage} {frames : List Frame}

/-- The word of an open buffer is the tally, modulo 2^32. -/
theorem received_eq_ofNat_tally
    (hbuffer : ((empty limit).handleAll frames).2.get? key = some buffer) :
    buffer.received = UInt32.ofNat (tally key ((empty limit).log frames)) := by
  refine tally_induction (P := fun n buffer => buffer.received = UInt32.ofNat n) ?_ ?_ hbuffer
  · intro next hreceived _
    exact hreceived
  · intro n old next frame _ _ _ hold hreceived _
    rw [hreceived, hold]
    exact (UInt32.ofNat_add n 1).symm

/-- Pieces that are not empty are no more than the bytes that they have brought, and
so no more than the limit. -/
theorem tally_le_of_ne_nil
    (hpieces : ∀ frame ∈ frames, frame.header.key = key →
      frame.header.frameType = .consecutive → frame.payload ≠ [])
    (hbuffer : ((empty limit).handleAll frames).2.get? key = some buffer) :
    tally key ((empty limit).log frames) ≤ limit := by
  have hlength : tally key ((empty limit).log frames) ≤ buffer.data.length := by
    refine tally_induction (P := fun n buffer => n ≤ buffer.data.length) ?_ ?_ hbuffer
    · intro next _ _
      exact Nat.zero_le _
    · intro n old next frame hframe hkey htype hold _ hdata
      have hpos := List.length_pos_iff.2 (hpieces frame hframe hkey htype)
      rw [hdata, List.length_append]
      omega
  have hbounded := ((bounded_empty limit).handleAll frames) key buffer hbuffer
  rw [maxMessageSize_handleAll] at hbounded
  exact Nat.le_trans hlength hbounded

/-- In every run from an empty assembler, the word of an open buffer is the tally
modulo 2^32.  It is the tally itself if and only if fewer than 2^32 pieces were
accepted since the buffer was opened. -/
theorem received_eq_tally_iff (limit : Nat) (frames : List Frame) {key : MessageKey}
    {buffer : PartialMessage}
    (hbuffer : ((empty limit).handleAll frames).2.get? key = some buffer) :
    let accepted := tally key ((empty limit).log frames)
    buffer.received.toNat = accepted % UInt32.size ∧
      (buffer.received.toNat = accepted ↔ accepted < UInt32.size) := by
  intro accepted
  have hword : buffer.received.toNat = accepted % UInt32.size := by
    rw [received_eq_ofNat_tally hbuffer, UInt32.toNat_ofNat']
  refine ⟨hword, fun heq => ?_, fun hlt => ?_⟩
  · rw [← heq]
    exact buffer.received.toNat_lt
  · rw [hword, Nat.mod_eq_of_lt hlt]

/-- Three pieces on a key, with a first frame that cannot be read and the end of
another message in between. -/
theorem received_eq_tally_iff_three :
    let m := Message.plain .bulk 1 4 []
    let frames := [Frame.stamped (Header.first .bulk 1 7 4) (FirstPayload.encode 3 3),
      m.consecutiveFrame 7 1 [0x61], m.consecutiveFrame 7 2 [],
      Frame.stamped (Header.first .bulk 1 8 4) [0, 0, 0, 9],
      (Message.plain .audio 1 4 []).consecutiveFrame 7 terminalSequence [0x7A],
      m.consecutiveFrame 7 9 [0x62]]
    ∃ buffer, ((empty 8).handleAll frames).2.get? m.key = some buffer ∧
      tally m.key ((empty 8).log frames) = 3 ∧
      buffer.received.toNat = tally m.key ((empty 8).log frames) % UInt32.size ∧
      (buffer.received.toNat = tally m.key ((empty 8).log frames) ↔
        tally m.key ((empty 8).log frames) < UInt32.size) := by
  intro m frames
  have hbuffer : ((empty 8).handleAll frames).2.get? m.key = some {
      version := 4, messageId := 7, total := 3, count := 3, received := 3, nextSequence := 10
      data := [0x61, 0x62] } := by decide
  exact ⟨_, hbuffer, by decide, received_eq_tally_iff 8 frames hbuffer⟩

/-! ## Pieces without data -/

/-- A piece of a key that brings nothing and is not the last. -/
structure IsBlank (key : MessageKey) (piece : Frame) : Prop where
  key_eq : piece.header.key = key
  frameType_eq : piece.header.frameType = .consecutive
  frameData_ne : piece.header.frameData ≠ terminalSequence
  payload_eq : piece.payload = []

/-- A blank piece is accepted by every buffer that is within the limit. -/
theorem IsBlank.exists_onKey {piece : Frame} (hpiece : IsBlank key piece) {old : PartialMessage}
    (hroom : old.data.length ≤ limit) :
    ∃ next, onKey limit (some old) piece = (.ok .pending, some next) := by
  unfold onKey
  simp only [hpiece.frameType_eq, onConsecutive, hpiece.payload_eq, List.length_nil, Nat.add_zero,
    if_neg (Nat.not_lt_of_le hroom), if_pos hpiece.frameData_ne]
  exact ⟨_, rfl⟩

/-- Nothing bounds the number of blank pieces that an open buffer takes in. -/
theorem exists_tally_eq_add {piece : Frame} (hpiece : IsBlank key piece)
    (hbuffer : ((empty limit).handleAll frames).2.get? key = some buffer) (n : Nat) :
    ∃ next, ((empty limit).handleAll (frames ++ List.replicate n piece)).2.get? key = some next ∧
      tally key ((empty limit).log (frames ++ List.replicate n piece)) =
        tally key ((empty limit).log frames) + n := by
  induction n with
  | zero =>
    rw [List.replicate_zero, List.append_nil]
    exact ⟨buffer, hbuffer, rfl⟩
  | succ n ih =>
    obtain ⟨old, hold, htally⟩ := ih
    rw [List.replicate_succ', ← List.append_assoc]
    generalize frames ++ List.replicate n piece = earlier at hold htally ⊢
    have hroom := ((bounded_empty limit).handleAll earlier) key old hold
    obtain ⟨next, hnext⟩ := hpiece.exists_onKey hroom
    refine ⟨next, ?_, ?_⟩
    · rw [handleAll_concat, get?_handle, hpiece.key_eq, if_pos rfl, hold, hnext]
    · have hopens : ¬ Opens (piece, .ok .pending) := by simp [Opens, hpiece.frameType_eq]
      have haccepts : AcceptsPiece (piece, .ok .pending) := ⟨hpiece.frameType_eq, rfl⟩
      rw [log_concat, tally_concat, handle_fst, hpiece.key_eq, hold, hnext, if_pos rfl,
        if_neg hopens, if_pos haccepts, htally]
      rfl

/-- From every open buffer, 2^32 blank pieces lead back to the same word, though all
of them are accepted. -/
theorem exists_received_wrapped {piece : Frame} (hpiece : IsBlank key piece)
    (hbuffer : ((empty limit).handleAll frames).2.get? key = some buffer) :
    ∃ next, ((empty limit).handleAll
        (frames ++ List.replicate UInt32.size piece)).2.get? key = some next ∧
      tally key ((empty limit).log (frames ++ List.replicate UInt32.size piece)) =
        tally key ((empty limit).log frames) + UInt32.size ∧
      next.received = buffer.received := by
  obtain ⟨next, hnext, htally⟩ := exists_tally_eq_add hpiece hbuffer UInt32.size
  refine ⟨next, hnext, htally, ?_⟩
  have hzero : UInt32.ofNat UInt32.size = 0 := by decide
  rw [received_eq_ofNat_tally hnext, htally, UInt32.ofNat_add, hzero, UInt32.add_zero,
    received_eq_ofNat_tally hbuffer]

/-- A message without bytes and pieces is announced, and 2^32 blank pieces come. -/
theorem received_ne_tally_after_blanks :
    let m := Message.plain .nav 1 1 []
    let first := Frame.stamped (Header.first .nav 1 0 1) (FirstPayload.encode 0 0)
    let frames := [first] ++ List.replicate UInt32.size (m.consecutiveFrame 0 1 [])
    ∃ buffer, ((empty 16777216).handleAll frames).2.get? m.key = some buffer ∧
      buffer.received.toNat = 0 ∧
      tally m.key ((empty 16777216).log frames) = UInt32.size := by
  intro m first frames
  have hpiece : IsBlank m.key (m.consecutiveFrame 0 1 []) := ⟨rfl, rfl, by decide, rfl⟩
  have hopened : ((empty 16777216).handleAll [first]).2.get? m.key = some {
      version := 1, messageId := 0, total := 0, count := 0, received := 0, nextSequence := 1
      data := [] } := by decide
  have hnone : tally m.key ((empty 16777216).log [first]) = 0 := by decide
  obtain ⟨buffer, hbuffer, htally, hreceived⟩ := exists_received_wrapped hpiece hopened
  refine ⟨buffer, hbuffer, ?_, ?_⟩
  · rw [hreceived]
    rfl
  · rw [htally, hnone, Nat.zero_add]

end Assembler

end HeadUnitLink
