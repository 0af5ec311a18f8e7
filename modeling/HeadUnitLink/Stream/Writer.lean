import HeadUnitLink.Wire.Frame

/-!
# Writing frames to a byte stream

A `Sink` is a stream that takes bytes: it holds the outcomes of the writes and
flushes to come, and what it has accepted so far.  Every call of a
`FrameWriter` puts all its frames into a buffer before it touches the sink, so a
call with an invalid frame writes nothing.  What a call leaves in the buffer is
cleared by the next one.  Writes and flushes that fail only for the moment are
repeated; a write that takes no byte means that the stream is closed.
-/

namespace HeadUnitLink

/-! ## Sinks -/

/-- The outcome of one write. -/
inductive Acceptance where
  /-- At most this many bytes are taken. -/
  | upTo (count : Nat)
  /-- The write fails. -/
  | fault (cause : IoFault)
  deriving DecidableEq, Repr

/-- A stream that takes bytes. -/
structure Sink where
  /-- The outcomes of the next writes; after them every write takes all. -/
  writes : List Acceptance
  /-- The outcomes of the next flushes; after them every flush succeeds. -/
  flushes : List (Option IoFault)
  /-- The bytes taken so far. -/
  accepted : Bytes
  /-- The number of writes so far. -/
  writeCalls : Nat
  /-- The number of successful flushes so far. -/
  flushCount : Nat
  deriving DecidableEq, Repr

/-- A failure that may be gone at the next attempt. -/
def IoFault.isTransient : IoFault → Bool
  | interrupted => true
  | wouldBlock => true
  | _ => false

namespace Sink

/-- A sink that takes everything. -/
def accepting : Sink :=
  { writes := [], flushes := [], accepted := [], writeCalls := 0, flushCount := 0 }

/-- One write takes these bytes and leaves these outcomes. -/
def take (s : Sink) (content : Bytes) (outcomes : List Acceptance) : Sink :=
  { s with
    writes := outcomes, accepted := s.accepted ++ content, writeCalls := s.writeCalls + 1 }

/-- Writes until all of `pending` is taken; `outcomes` are the sink's next
ones. -/
def writeAll (pending : Bytes) (outcomes : List Acceptance) (s : Sink) :
    Except FrameError Unit × Sink :=
  match pending, outcomes with
  | [], _ => (.ok (), s)
  | _ :: _, [] => (.ok (), s.take pending [])
  | _ :: _, .fault cause :: rest =>
    if cause.isTransient then writeAll pending rest (s.take [] rest)
    else (.error (.io cause), s.take [] rest)
  | _ :: _, .upTo count :: rest =>
    if count = 0 then (.error .connectionClosed, s.take [] rest)
    else writeAll (pending.drop count) rest (s.take (pending.take count) rest)
termination_by outcomes.length

/-- One flush succeeds and leaves these outcomes. -/
def flushed (s : Sink) (outcomes : List (Option IoFault)) : Sink :=
  { s with flushes := outcomes, flushCount := s.flushCount + 1 }

/-- Flushes until it succeeds or fails for good; `outcomes` are the sink's next
ones. -/
def flushAll (outcomes : List (Option IoFault)) (s : Sink) : Except FrameError Unit × Sink :=
  match outcomes with
  | [] => (.ok (), s.flushed [])
  | none :: rest => (.ok (), s.flushed rest)
  | some cause :: rest =>
    if cause.isTransient then flushAll rest { s with flushes := rest }
    else (.error (.io cause), { s with flushes := rest })

/-- Flushes the sink. -/
def flush (s : Sink) : Except FrameError Unit × Sink :=
  s.flushAll s.flushes

/-- Writes all bytes, then flushes. -/
def deliver (s : Sink) (content : Bytes) : Except FrameError Unit × Sink :=
  match s.writeAll content s.writes with
  | (.error e, s) => (.error e, s)
  | (.ok (), s) => s.flush

end Sink

/-! ## The writer -/

/-- A writer of frames with at most `limit` payload bytes. -/
structure FrameWriter where
  limit : Nat
  sink : Sink
  /-- The bytes of the last call, which the next one clears. -/
  buffer : Bytes := []
  deriving DecidableEq, Repr

namespace FrameWriter

/-- Empties the buffer. -/
def clear (w : FrameWriter) : FrameWriter := { w with buffer := [] }

/-- Puts bytes behind those in the buffer. -/
def append (w : FrameWriter) (content : Bytes) : FrameWriter :=
  { w with buffer := w.buffer ++ content }

/-- Puts frames into the buffer, up to the first one that is refused. -/
def stage (w : FrameWriter) (frames : List Frame) : Except FrameError Unit × FrameWriter :=
  let (result, buffer) := Frame.appendUntil w.limit frames w.buffer
  (result, { w with buffer })

/-- Hands the buffer over to the sink. -/
def deliver (w : FrameWriter) : Except FrameError Unit × FrameWriter :=
  let (result, sink) := w.sink.deliver w.buffer
  (result, { w with sink })

/-- Writes bytes that are frames already. -/
def writeRaw (w : FrameWriter) (content : Bytes) : Except FrameError Unit × FrameWriter :=
  (w.clear.append content).deliver

/-- Writes several frames with one flush at the end, and says how many bytes
they have. -/
def writeFrames (w : FrameWriter) (frames : List Frame) :
    Except FrameError Nat × FrameWriter :=
  match w.clear.stage frames with
  | (.error e, w) => (.error e, w)
  | (.ok (), w) =>
    let (result, w) := w.deliver
    (result.map fun _ => w.buffer.length, w)

/-- Writes a header and a payload as one frame. -/
def send (w : FrameWriter) (header : Header) (payload : Bytes) :
    Except FrameError Unit × FrameWriter :=
  match w.clear.stage [{ header, payload }] with
  | (.error e, w) => (.error e, w)
  | (.ok (), w) => w.deliver

/-- Writes one frame. -/
def writeFrame (w : FrameWriter) (frame : Frame) : Except FrameError Unit × FrameWriter :=
  w.send frame.header frame.payload

/-- Flushes the sink. -/
def flush (w : FrameWriter) : Except FrameError Unit × FrameWriter :=
  let (result, sink) := w.sink.flush
  (result, { w with sink })

end FrameWriter

end HeadUnitLink
