import HeadUnitLink.Proofs.Receiver.Chunks
import HeadUnitLink.Proofs.Stream.Reading

/-!
# What a receiver meets in its bytes

A receiver tells of messages and errors, and not of the frames and the damage
behind them.  `Receiver.met` lists these: a piece of work on a frame has met
the frame, and one on damage has met damage over as many bytes as the receiver
has taken off its stream.

`Receiver.reading_met` says that this is the reading of the buffer, with
`Receiver.reach`.
-/

namespace HeadUnitLink

namespace Receiver

/-- The bytes that a receiver takes off its stream on the way from one state to
another: those that have left the buffer, and those that it will drop when they
arrive. -/
def taken (r r' : Receiver) : Nat :=
  (r.buffer.length - r'.buffer.length) + (r'.discard - r.discard)

/-- What the piece of work that leads from one state to another has met. -/
def metBy (config : Config) (r r' : Receiver) : List StreamEvent :=
  match Frame.decode config.maxMessageSize r.buffer with
  | .ok none => []
  | .ok (some (frame, _)) => [.frame frame]
  | .error e => [.damage e (r.taken r')]

/-- What a receiver meets until more bytes are needed. -/
def met (config : Config) (r : Receiver) : List StreamEvent :=
  match _h : r.step? config with
  | none => []
  | some next => metBy config r next.1 ++ met config next.1
termination_by r.buffer.length
decreasing_by exact length_buffer_step?_lt _h

theorem met_of_none {config : Config} {r : Receiver} (h : r.step? config = none) :
    r.met config = [] := by
  rw [met]
  split
  · rfl
  · rename_i next hnext
    exact absurd (h.symm.trans hnext) (by simp)

theorem met_of_some {config : Config} {r r' : Receiver} {notices : List Notice}
    (h : r.step? config = some (r', notices)) :
    r.met config = metBy config r r' ++ r'.met config := by
  rw [met]
  split
  · rename_i hnone
    exact absurd (h.symm.trans hnone) (by simp)
  · rename_i next hnext
    obtain rfl := Option.some.inj (h.symm.trans hnext)
    rfl

/-- How far a receiver steps when it stands in front of damage. -/
def reach (config : Config) (bytes : Bytes) (e : FrameError) : Nat :=
  (skipLength? config bytes e).getD 1

/-- Stepping over damage takes its reach off the stream. -/
theorem taken_resync {config : Config} {r : Receiver} {e : FrameError} (hdiscard : r.discard = 0)
    (hdecode : Frame.decode config.maxMessageSize r.buffer = .error e) :
    r.taken (resync config r e).1 = reach config r.buffer e ∧
      (resync config r e).1.buffer = r.buffer.drop (reach config r.buffer e) := by
  have hpos := Frame.length_pos_of_decode_error hdecode
  unfold resync reach
  split
  · rename_i length hskip
    rw [hskip]
    refine ⟨?_, rfl⟩
    unfold taken skipFrame
    simp only [hdiscard, List.length_drop, Option.getD_some]
    split <;> omega
  · rename_i hskip
    rw [hskip]
    refine ⟨?_, rfl⟩
    unfold taken
    simp only [List.length_drop, Option.getD_none]
    omega

/-- What a receiver meets is the reading of its buffer, and what is left of it
is what the receiver keeps. -/
theorem reading_met (config : Config) (r : Receiver) (h : r.Aligned) :
    Reading config.maxMessageSize (reach config) r.buffer (r.met config)
      (r.drain config).1.buffer := by
  induction r using step_induction config with
  | hstop r hstop =>
    rw [met_of_none hstop, drain_of_none hstop]
    exact .stop (step?_eq_none_iff.1 hstop)
  | hwork r r' notices hstep ih =>
    have htail := ih (h.step hstep)
    have hdiscard := h.discard_of_step hstep
    rw [met_of_some hstep, drain_of_some hstep]
    rcases step_cases hstep with ⟨frame, rest, hdecode, hroute⟩ | ⟨e, hdecode, hresync⟩
    · have hbuffer := buffer_route config { r with buffer := rest, resyncing := false } frame
      rw [hroute] at hbuffer
      simp only at hbuffer
      rw [hbuffer] at htail
      unfold metBy
      rw [hdecode]
      exact .frame hdecode htail
    · obtain ⟨htaken, hbuffer⟩ := taken_resync hdiscard hdecode
      rw [hresync] at htaken hbuffer
      simp only at htaken hbuffer
      rw [hbuffer] at htail
      unfold metBy
      rw [hdecode]
      simp only [List.singleton_append, htaken]
      exact .damage hdecode htail

end Receiver

/-- What an engine meets when it takes in bytes. -/
def Engine.met (e : Engine) (chunk : Bytes) : List StreamEvent :=
  (e.receiver.feed chunk).met e.config

end HeadUnitLink
