import HeadUnitLink.Proofs.Engine.Run
import HeadUnitLink.Proofs.Receiver.Loop
import HeadUnitLink.Proofs.Wire.Decode

/-!
# The chunks of a stream

Received bytes come in chunks, and a chunk can end anywhere: inside a header,
inside a payload, inside a frame that is stepped over.  This module proves
that the cuts make no difference.

* `Receiver.Aligned` is the invariant: bytes of a skipped frame are awaited
  only while nothing is buffered.
* `Receiver.step_feed` is the step: a piece of work that can be done is done
  the same way when more bytes have arrived.
* `Receiver.receive_append` follows by induction on the work in the buffer.
* `Engine.receiveAll_eq_receive_flatten` is the result for every engine that a
  run can lead to.
-/

namespace HeadUnitLink

namespace Receiver

/-- Bytes of a skipped frame are awaited only while nothing is buffered. -/
def Aligned (r : Receiver) : Prop := r.discard = 0 ∨ r.buffer = []

theorem aligned_ofConfig (config : Config) : (ofConfig config).Aligned := Or.inl rfl

theorem Aligned.feed {r : Receiver} (h : r.Aligned) (chunk : Bytes) : (r.feed chunk).Aligned := by
  unfold Aligned Receiver.feed
  simp only
  rcases h with hdiscard | hbuffer
  · exact Or.inl (by omega)
  · rcases Nat.le_total r.discard chunk.length with hle | hge
    · exact Or.inl (by omega)
    · exact Or.inr (by rw [hbuffer, List.drop_eq_nil_of_le hge, List.nil_append])

theorem feed_nil (r : Receiver) : r.feed [] = r := by
  unfold feed
  rw [List.drop_nil, List.append_nil, List.length_nil, Nat.sub_zero]

/-- Two chunks one after the other fill the buffer like one. -/
theorem feed_feed (r : Receiver) (chunk more : Bytes) :
    (r.feed chunk).feed more = r.feed (chunk ++ more) := by
  unfold feed
  simp only [List.drop_append, List.append_assoc, List.length_append, Nat.sub_sub]

theorem feed_of_discard {r : Receiver} (h : r.discard = 0) (more : Bytes) :
    r.feed more = { r with buffer := r.buffer ++ more } := by
  unfold feed
  rw [h, List.drop_zero, Nat.zero_sub]

/-- Work is there only when nothing is awaited. -/
theorem Aligned.discard_of_step {config : Config} {r r' : Receiver} {notices : List Notice}
    (h : r.Aligned) (hstep : r.step? config = some (r', notices)) : r.discard = 0 := by
  rcases h with hdiscard | hbuffer
  · exact hdiscard
  · have hlt := length_buffer_step?_lt hstep
    rw [hbuffer] at hlt
    exact absurd hlt (Nat.not_lt_zero _)

/-! ## One piece of work -/

/-- How far a damaged frame reaches is known before the bytes after its
header arrive. -/
theorem skipLength?_append {config : Config} {buffer : Bytes} {e : FrameError}
    (h : Frame.decode config.maxMessageSize buffer = .error e) (more : Bytes) :
    skipLength? config (buffer ++ more) e = skipLength? config buffer e := by
  unfold skipLength?
  split
  · obtain ⟨length, hlength⟩ := Frame.declaredLength?_of_malformed h
    rw [hlength, Frame.declaredLength?_append hlength]
  · rfl

/-- The bytes that a skipped frame lacks are dropped when they arrive. -/
theorem skipFrame_feed {r : Receiver} (h : r.discard = 0) (length : Nat) (more : Bytes) :
    (r.feed more).skipFrame length = (r.skipFrame length).feed more := by
  rw [feed_of_discard h]
  unfold skipFrame feed
  simp only [List.drop_append, List.length_append, h]
  rcases Nat.le_total length r.buffer.length with hle | hge
  · have hzero : length - r.buffer.length = 0 := Nat.sub_eq_zero_of_le hle
    rw [if_pos (by omega), if_pos hle, hzero, Nat.zero_sub]
  · by_cases heq : length ≤ r.buffer.length
    · rw [if_pos (by omega), if_pos heq, Nat.zero_sub, Nat.sub_eq_zero_of_le heq]
    · rw [if_neg heq]
      split
      · have hzero : length - r.buffer.length - more.length = 0 := by omega
        rw [hzero]
      · rw [Nat.sub_sub]

theorem resync_feed {config : Config} {r : Receiver} {e : FrameError} (hdiscard : r.discard = 0)
    (h : Frame.decode config.maxMessageSize r.buffer = .error e) (more : Bytes) :
    resync config (r.feed more) e =
      ((resync config r e).1.feed more, (resync config r e).2) := by
  have hbuffer : (r.feed more).buffer = r.buffer ++ more := by rw [feed_of_discard hdiscard]
  unfold resync
  rw [hbuffer, skipLength?_append h]
  split
  · rename_i length hskip
    rw [skipFrame_feed hdiscard]
  · have hpos := Frame.length_pos_of_decode_error h
    rw [List.drop_append_of_le_length hpos]
    unfold feed
    simp only [hdiscard, List.drop_zero, Nat.zero_sub]

/-- A piece of work is done the same way when more bytes have arrived. -/
theorem step_feed {config : Config} {r r' : Receiver} {notices : List Notice} (h : r.Aligned)
    (hstep : r.step? config = some (r', notices)) (more : Bytes) :
    (r.feed more).step? config = some (r'.feed more, notices) := by
  have hdiscard := h.discard_of_step hstep
  have hbuffer : (r.feed more).buffer = r.buffer ++ more := by rw [feed_of_discard hdiscard]
  rcases step_cases hstep with ⟨frame, rest, hdecode, hroute⟩ | ⟨e, hdecode, hresync⟩
  · have hmore := Frame.decode_append_of_frame hdecode more
    rw [← hbuffer] at hmore
    rw [route_stream config r] at hroute
    obtain ⟨hr', hnotices⟩ := Prod.mk.inj hroute
    rw [step_of_frame hmore, feed_of_discard hdiscard, route_stream config r, ← hr', hnotices]
    unfold feed
    simp only [hdiscard, List.drop_zero, Nat.zero_sub]
  · have hmore := Frame.decode_append_of_error hdecode more
    rw [← hbuffer] at hmore
    rw [step_of_error hmore, resync_feed hdiscard hdecode, hresync]

theorem Aligned.step {config : Config} {r r' : Receiver} {notices : List Notice} (h : r.Aligned)
    (hstep : r.step? config = some (r', notices)) : r'.Aligned := by
  have hdiscard := h.discard_of_step hstep
  rcases step_cases hstep with ⟨frame, rest, _, hroute⟩ | ⟨e, _, hresync⟩
  · rw [route_stream config r] at hroute
    rw [← (Prod.mk.inj hroute).1]
    exact Or.inl hdiscard
  · unfold resync at hresync
    split at hresync
    · rename_i length _
      rw [← (Prod.mk.inj hresync).1]
      unfold skipFrame Aligned
      simp only
      split
      · exact Or.inl hdiscard
      · exact Or.inr (List.drop_eq_nil_of_le (by omega))
    · rw [← (Prod.mk.inj hresync).1]
      exact Or.inl hdiscard

/-! ## Chunk after chunk -/

/-- Working first and then taking in more bytes is taking them in at once. -/
theorem drain_feed {config : Config} (r : Receiver) (h : r.Aligned) (more : Bytes) :
    (r.feed more).drain config =
      ((((r.drain config).1.feed more).drain config).1,
        (r.drain config).2 ++ (((r.drain config).1.feed more).drain config).2) := by
  induction r using step_induction config with
  | hstop r hstop =>
    rw [drain_of_none hstop]
    rfl
  | hwork r r' given hstep ih =>
    rw [drain_of_some (step_feed h hstep more), drain_of_some hstep, ih (h.step hstep),
      List.append_assoc]

/-- Where a chunk is cut makes no difference. -/
theorem receive_append {config : Config} {r : Receiver} (h : r.Aligned) (chunk more : Bytes) :
    r.receive config (chunk ++ more) =
      (((r.receive config chunk).1.receive config more).1,
        (r.receive config chunk).2 ++ ((r.receive config chunk).1.receive config more).2) := by
  unfold receive
  rw [← feed_feed, drain_feed _ (h.feed chunk)]

theorem Aligned.receive {r : Receiver} (h : r.Aligned) (config : Config) (chunk : Bytes) :
    (r.receive config chunk).1.Aligned :=
  drain_induction (fun _ _ _ hstep hr => hr.step hstep) _ (h.feed chunk)

/-- A receiver that is done with its buffer takes in nothing for nothing. -/
theorem receive_nil {config : Config} {r : Receiver} (h : r.step? config = none) :
    r.receive config [] = (r, []) := by
  unfold receive
  rw [feed_nil, drain_of_none h]

end Receiver

namespace Engine

/-- Takes in chunks one after the other: the engine at the end and everything
that it tells, in order. -/
def receiveAll (e : Engine) : List Bytes → Engine × List Notice
  | [] => (e, [])
  | chunk :: rest =>
    let (e, notices) := e.receive chunk
    let (e, more) := e.receiveAll rest
    (e, notices ++ more)

theorem receiveAll_cons (e : Engine) (chunk : Bytes) (rest : List Bytes) :
    e.receiveAll (chunk :: rest) =
      (((e.receive chunk).1.receiveAll rest).1,
        (e.receive chunk).2 ++ ((e.receive chunk).1.receiveAll rest).2) := rfl

/-- What an engine has between two chunks: nothing of its buffer can be worked
off yet. -/
structure Settled (e : Engine) : Prop where
  aligned : e.receiver.Aligned
  stopped : e.receiver.step? e.config = none

theorem settled_ofConfig {config : Config} {e : Engine} (h : ofConfig config = .ok e) :
    e.Settled := by
  obtain ⟨_, rfl⟩ := ofConfig_eq_ok h
  exact ⟨Receiver.aligned_ofConfig config, rfl⟩

theorem Settled.receive {e : Engine} (h : e.Settled) (chunk : Bytes) :
    (e.receive chunk).1.Settled :=
  ⟨h.aligned.receive e.config chunk, Receiver.step?_drain e.config _⟩

theorem Settled.receive_nil {e : Engine} (h : e.Settled) : e.receive [] = (e, []) := by
  unfold Engine.receive
  rw [Receiver.receive_nil h.stopped]

theorem Settled.receive_append {e : Engine} (h : e.Settled) (chunk more : Bytes) :
    e.receive (chunk ++ more) =
      (((e.receive chunk).1.receive more).1,
        (e.receive chunk).2 ++ ((e.receive chunk).1.receive more).2) := by
  unfold Engine.receive
  simp only [Receiver.receive_append h.aligned]

/-- Chunks one after the other do what they do in one piece. -/
theorem Settled.receiveAll {e : Engine} (h : e.Settled) (chunks : List Bytes) :
    e.receiveAll chunks = e.receive chunks.flatten := by
  induction chunks generalizing e with
  | nil => rw [Engine.receiveAll, List.flatten_nil, h.receive_nil]
  | cons chunk rest ih =>
    rw [receiveAll_cons, List.flatten_cons, h.receive_append, ih (h.receive chunk)]

/-- What a fresh engine makes of chunks is what a fresh receiver makes of their
bytes. -/
theorem receiveAll_of_ofConfig {config : Config} {e : Engine} (h : ofConfig config = .ok e)
    (chunks : List Bytes) :
    (e.receiveAll chunks).1.receiver =
        ((Receiver.ofConfig config).receive config chunks.flatten).1 ∧
      (e.receiveAll chunks).2 =
        ((Receiver.ofConfig config).receive config chunks.flatten).2 := by
  rw [(settled_ofConfig h).receiveAll]
  obtain ⟨_, rfl⟩ := ofConfig_eq_ok h
  exact ⟨rfl, rfl⟩

theorem Reachable.settled {config : Config} {e : Engine} (h : Reachable config e) :
    e.Settled := by
  have hreceiver : e.receiver.Aligned ∧ e.receiver.step? config = none := by
    refine h.receiver_induction (P := fun r => r.Aligned ∧ r.step? config = none) ?_ ?_ ?_
    · exact ⟨Receiver.aligned_ofConfig config, rfl⟩
    · intro r chunk hr
      exact ⟨hr.1.receive config chunk, Receiver.step?_drain config _⟩
    · intro r version _ _ hr
      have hdecode := Receiver.step?_eq_none_iff.1 hr.2
      exact ⟨hr.1, Receiver.step?_eq_none_iff.2 hdecode⟩
  refine ⟨hreceiver.1, ?_⟩
  rw [h.config_eq]
  exact hreceiver.2

/-- However a byte string is cut into chunks, an engine that a run has led to
becomes the same and tells the same as if it came in one piece. -/
theorem receiveAll_eq_receive_flatten {config : Config} {e : Engine} (h : Reachable config e)
    (chunks : List Bytes) : e.receiveAll chunks = e.receive chunks.flatten := by
  have hsettled := h.settled
  exact hsettled.receiveAll chunks

/-- A header with a damaged frame type, cut twice: before the engine is looked
at, and in its size field. -/
theorem receiveAll_eq_receive_flatten_inside_header :
    ∃ e, ofConfig Config.default = .ok e ∧
      Reachable Config.default (e.receive [0x3f, 0x07]).1 ∧
      (e.receive [0x3f, 0x07]).1.receiveAll [[0, 1, 0], [], [0, 0, 2, 0, 0, 0, 9, 5, 6, 0x10]] =
        (e.receive [0x3f, 0x07]).1.receive
          [[0, 1, 0], [], [0, 0, 2, 0, 0, 0, 9, 5, 6, 0x10]].flatten := by
  obtain ⟨e, he⟩ : ∃ e, ofConfig Config.default = .ok e := ⟨_, rfl⟩
  have hstep : e.step (.receive [0x3f, 0x07]) = some (e.receive [0x3f, 0x07]).1 := rfl
  have hreach : Reachable Config.default (e.receive [0x3f, 0x07]).1 :=
    (Reachable.fresh he).step hstep
  exact ⟨e, he, hreach, receiveAll_eq_receive_flatten hreach _⟩

end Engine

end HeadUnitLink
