import HeadUnitLink.Stream.Reader

/-!
# Reading a stream to its end

`FrameReader.events` reads frame after frame until the stream ends.  Damage is
stepped over once and a failed read is repeated, so that every read gives one
event: the events in order are all that can be learnt from the stream, and the
bytes that the last reader holds are an incomplete frame.
-/

namespace HeadUnitLink

/-- What one read of a stream gives. -/
inductive StreamEvent where
  /-- A frame. -/
  | frame (frame : Frame)
  /-- Damage, over which so many bytes were stepped. -/
  | damage (cause : FrameError) (skipped : Nat)
  /-- A failed read. -/
  | fault (cause : IoFault)
  deriving DecidableEq, Repr

namespace StreamEvent

/-- How many bytes of the stream an event takes. -/
def size : StreamEvent → Nat
  | .frame content => content.wireSize
  | .damage _ count => count
  | .fault _ => 0

/-- The failure that an event reports. -/
def fault? : StreamEvent → Option IoFault
  | .fault cause => some cause
  | _ => none

/-- How many bytes an event steps over. -/
def skipped : StreamEvent → Nat
  | .damage _ count => count
  | _ => 0

end StreamEvent

namespace FrameReader

/-- Reads to the end of the stream; `past` are the events so far, latest
first. -/
def eventsOnto (past : List StreamEvent) (r : FrameReader) : List StreamEvent × FrameReader :=
  match _h : r.read with
  | (.ok frame, r') => eventsOnto (.frame frame :: past) r'
  | (.error e, r') =>
    if _hd : e.isDamage then eventsOnto (.damage e r'.skip.1 :: past) r'.skip.2
    else
      match _he : e with
      | .io cause => eventsOnto (.fault cause :: past) r'
      | _ => (past, r')
termination_by r.weight
decreasing_by
  all_goals
    have hread := r.consumes_read
    rw [_h] at hread
  · exact hread
  · have hdamage := hread.pos_of_isDamage _hd
    exact Nat.lt_of_lt_of_le (weight_skip_lt hdamage.2) hdamage.1
  · subst _he
    exact hread

/-- The events of a stream and the reader at its end. -/
def events (r : FrameReader) : List StreamEvent × FrameReader :=
  let (past, last) := r.eventsOnto []
  (past.reverse, last)

end FrameReader

end HeadUnitLink
