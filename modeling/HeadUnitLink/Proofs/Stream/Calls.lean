import HeadUnitLink.Proofs.Stream.Handover
import HeadUnitLink.Proofs.Stream.Writing
import HeadUnitLink.Proofs.Wire.Codec

/-!
# Calls of a writer on any stream

A call may hold a frame that cannot be written, and the stream may break at any time.  A
call that is refused does not touch the stream.  Any other call writes all its bytes and
flushes, or the stream breaks and has taken the beginning of them.  What an earlier call
has left in the buffer never gets to the stream.

* `Frame.fault?` says why a frame is refused.
* `WriterCall` has the five kinds of calls, and `FrameWriter.handles_perform` reduces them
  to `Sink.deliver`.
* `FrameWriter.allOrBeginning` is what one call does, and
  `FrameWriter.outcomes_of_performAll` follows by induction on the calls.
  `FrameWriter.all_or_beginning` is the result.
-/

namespace HeadUnitLink

/-! ## Frames that are refused -/

namespace Frame

/-- Why a frame is refused by a writer with this limit. -/
def fault? (limit : Nat) (f : Frame) : Option FrameError :=
  if limit < f.payload.length then some (.payloadTooLarge f.payload.length limit)
  else if f.header.dataSize.toNat ≠ f.payload.length then
    some (.dataSizeMismatch f.header.dataSize.toNat f.payload.length)
  else if minVersion ≤ f.header.version ∧ f.header.version ≤ maxVersion then none
  else some (.unsupportedVersion f.header.version)

variable {limit : Nat} {f : Frame} {frames : List Frame} {e : FrameError}

theorem fault?_eq_none_iff :
    f.fault? limit = none ↔ f.payload.length ≤ limit ∧ ∃ bytes, f.encode = .ok bytes := by
  rw [exists_encode_iff]
  unfold fault?
  split
  · rename_i hlong
    exact iff_of_false (by simp) fun h => absurd h.1 (Nat.not_le_of_lt hlong)
  · rename_i hshort
    have hle := Nat.le_of_not_lt hshort
    split
    · rename_i hsize
      exact iff_of_false (by simp) fun h => hsize h.2.2
    · rename_i hsize
      split
      · rename_i hversion
        exact iff_of_true rfl ⟨hle, hversion, Decidable.not_not.1 hsize⟩
      · rename_i hversion
        exact iff_of_false (by simp) fun h => hversion h.2.1

theorem appendWithin_of_fault (h : f.fault? limit = some e) (buffer : Bytes) :
    f.appendWithin limit buffer = (.error e, buffer) := by
  unfold fault? at h
  unfold appendWithin
  split at h
  · rename_i hlong
    rw [if_pos hlong, Option.some.inj h]
  · rename_i hshort
    rw [if_neg hshort]
    unfold appendTo
    split at h
    · rename_i hsize
      rw [if_pos hsize, Option.some.inj h]
    · rename_i hsize
      rw [if_neg hsize]
      split at h
      · cases h
      · rename_i hversion
        obtain rfl := Option.some.inj h
        cases hfound : headerSize? f.header.version with
        | some size => exact absurd (exists_headerSize?_iff.1 ⟨size, hfound⟩) hversion
        | none => simp only [Header.appendTo, headerSize, hfound]

theorem appendWithin_of_none (h : f.fault? limit = none) (buffer : Bytes) :
    ∃ bytes, f.appendWithin limit buffer = (.ok (), buffer ++ bytes) := by
  obtain ⟨hlimit, bytes, hencode⟩ := fault?_eq_none_iff.1 h
  refine ⟨bytes, ?_⟩
  unfold appendWithin
  rw [if_neg (Nat.not_lt_of_le hlimit), appendTo_eq, hencode]

/-- Frames are refused for what is wrong with the first one that is refused. -/
theorem appendUntil_of_fault (h : frames.findSome? (fault? limit) = some e) (buffer : Bytes) :
    (appendUntil limit frames buffer).1 = .error e := by
  induction frames generalizing buffer with
  | nil => cases h
  | cons f rest ih =>
    unfold appendUntil
    cases hfault : f.fault? limit with
    | some cause =>
      rw [List.findSome?_cons, hfault] at h
      simp only [appendWithin_of_fault hfault buffer]
      exact congrArg Except.error (Option.some.inj h)
    | none =>
      rw [List.findSome?_cons, hfault] at h
      obtain ⟨bytes, hbytes⟩ := appendWithin_of_none hfault buffer
      simp only [hbytes]
      exact ih h _

/-- Frames of which none is refused are written together. -/
theorem exists_appendUntil (h : frames.findSome? (fault? limit) = none) (buffer : Bytes) :
    ∃ encoded : List Bytes, frames.map encode = encoded.map .ok ∧
      appendUntil limit frames buffer = (.ok (), buffer ++ encoded.flatten) := by
  rw [List.findSome?_eq_none_iff] at h
  obtain ⟨encoded, hencoded⟩ :=
    exists_encoded fun f hf => (fault?_eq_none_iff.1 (h f hf)).2
  exact ⟨encoded, hencoded,
    appendUntil_of_encoded hencoded (fun f hf => (fault?_eq_none_iff.1 (h f hf)).1) buffer⟩

end Frame

/-! ## Calls -/

/-- What a writer can be asked. -/
inductive WriterCall where
  /-- Write a frame. -/
  | frame (frame : Frame)
  /-- Write a header and a payload as a frame. -/
  | send (header : Header) (payload : Bytes)
  /-- Write frames with one flush at the end. -/
  | frames (frames : List Frame)
  /-- Write bytes that are frames already. -/
  | raw (content : Bytes)
  /-- Write nothing, and flush. -/
  | flush

namespace WriterCall

/-- What a call answers: an error, or the number of bytes if it is told. -/
abbrev Answer := Except FrameError (Option Nat)

/-- The frames that a call is to write. -/
def framesOf : WriterCall → List Frame
  | frame f => [f]
  | send header payload => [{ header, payload }]
  | frames all => all
  | raw _ => []
  | flush => []

/-- Why a writer with this limit refuses a call: what is wrong with the first frame that
it refuses. -/
def fault? (limit : Nat) (call : WriterCall) : Option FrameError :=
  call.framesOf.findSome? (Frame.fault? limit)

/-- The bytes that a call is to write: those that it was given, or those of all its
frames in order. -/
def Writes (call : WriterCall) (content : Bytes) : Prop :=
  match call with
  | raw given => content = given
  | call => ∃ encoded : List Bytes,
      call.framesOf.map Frame.encode = encoded.map .ok ∧ content = encoded.flatten

/-- What a call answers when it has written these bytes: the number of them, if it is
asked to write several frames. -/
def answer? (call : WriterCall) (content : Bytes) : Option Nat :=
  match call with
  | frames _ => some content.length
  | _ => none

/-- What a call answers, and which bytes the stream has taken. -/
inductive Outcome (limit : Nat) (call : WriterCall) : Answer → Bytes → Prop where
  /-- A frame is refused, and no byte is written. -/
  | refused {e : FrameError} (hfault : call.fault? limit = some e) :
      Outcome limit call (.error e) []
  /-- All is written. -/
  | whole {content : Bytes} (hfault : call.fault? limit = none) (hcontent : call.Writes content) :
      Outcome limit call (.ok (call.answer? content)) content
  /-- The stream broke. -/
  | cut {content taken : Bytes} {e : FrameError} (hfault : call.fault? limit = none)
      (hcontent : call.Writes content) (hcause : e.Breaks) (hpart : taken <+: content) :
      Outcome limit call (.error e) taken

/-- What calls answer, one after the other, and which bytes the stream has taken in all. -/
inductive Outcomes (limit : Nat) : List WriterCall → List Answer → Bytes → Prop where
  | nil : Outcomes limit [] [] []
  | cons {call : WriterCall} {answer : Answer} {taken : Bytes} {calls : List WriterCall}
      {answers : List Answer} {more : Bytes}
      (head : call.Outcome limit answer taken) (tail : Outcomes limit calls answers more) :
      Outcomes limit (call :: calls) (answer :: answers) (taken ++ more)

/-- What a stream has taken of the bytes of a call, the call has written. -/
theorem Outcome.of_handover {limit : Nat} {call : WriterCall} {content taken : Bytes}
    {result : Except FrameError Unit} (h : Handover content result taken)
    (hfault : call.fault? limit = none) (hcontent : call.Writes content) :
    Outcome limit call (result.map fun _ => call.answer? content) taken := by
  cases h with
  | whole => exact .whole hfault hcontent
  | cut hcause hpart => exact .cut hfault hcontent hcause hpart

/-- The bytes that a call puts into an empty buffer. -/
def staged (limit : Nat) (call : WriterCall) : Bytes :=
  match call with
  | raw given => given
  | call => (Frame.appendUntil limit call.framesOf []).2

theorem writes_staged {limit : Nat} {call : WriterCall} (h : call.fault? limit = none) :
    call.Writes (call.staged limit) := by
  obtain ⟨encoded, hencoded, hstaged⟩ := Frame.exists_appendUntil h []
  cases call with
  | raw given => rfl
  | _ => exact ⟨encoded, hencoded, congrArg Prod.snd hstaged⟩

end WriterCall

namespace FrameWriter

/-- Does what is asked. -/
def perform (w : FrameWriter) (call : WriterCall) : WriterCall.Answer × FrameWriter :=
  let unit (answer : Except FrameError Unit × FrameWriter) : WriterCall.Answer × FrameWriter :=
    (answer.1.map fun _ => none, answer.2)
  match call with
  | .frame f => unit (w.writeFrame f)
  | .send header payload => unit (w.send header payload)
  | .frames frames =>
    let (result, w) := w.writeFrames frames
    (result.map some, w)
  | .raw content => unit (w.writeRaw content)
  | .flush => unit w.flush

/-- Does one thing after the other, and keeps the answers. -/
def performAll (w : FrameWriter) : List WriterCall → List WriterCall.Answer × FrameWriter
  | [] => ([], w)
  | call :: rest =>
    let (answer, w) := w.perform call
    let (answers, w) := w.performAll rest
    (answer :: answers, w)

variable {w : FrameWriter}

/-- Frames are put into an empty buffer, unless one of them is refused; the sink is left
alone. -/
theorem stage_clear_cases (w : FrameWriter) (frames : List Frame) :
    (∃ e buffer, frames.findSome? (Frame.fault? w.limit) = some e ∧
        w.clear.stage frames = (.error e, { w with buffer })) ∨
      frames.findSome? (Frame.fault? w.limit) = none ∧
        w.clear.stage frames =
          (.ok (), { w with buffer := (Frame.appendUntil w.limit frames []).2 }) := by
  rw [stage_clear]
  cases hfault : frames.findSome? (Frame.fault? w.limit) with
  | some e => exact Or.inl ⟨e, _, rfl, by rw [Frame.appendUntil_of_fault hfault]⟩
  | none =>
    obtain ⟨encoded, -, hencoded⟩ := Frame.exists_appendUntil hfault []
    exact Or.inr ⟨rfl, by rw [hencoded]⟩

/-- What becomes of a call: it is refused for a frame and the sink is left alone, or its
bytes, and no others, are handed over to the sink. -/
def Handles (w : FrameWriter) (call : WriterCall)
    (answered : WriterCall.Answer × FrameWriter) : Prop :=
  answered.2.limit = w.limit ∧
    ((∃ e, call.fault? w.limit = some e ∧ answered.1 = .error e ∧ answered.2.sink = w.sink) ∨
      call.fault? w.limit = none ∧
        answered.1 = (w.sink.deliver (call.staged w.limit)).1.map
          (fun _ => call.answer? (call.staged w.limit)) ∧
        answered.2.sink = (w.sink.deliver (call.staged w.limit)).2)

/-- Frames are handled like this, whatever is told of the number of their bytes. -/
theorem handles_writeFrames (w : FrameWriter) (told : Nat → Option Nat) {call : WriterCall}
    {frames : List Frame} (hframes : call.framesOf = frames)
    (hstaged : call.staged w.limit = (Frame.appendUntil w.limit frames []).2)
    (hanswer : ∀ content, call.answer? content = told content.length) :
    w.Handles call ((w.writeFrames frames).1.map told, (w.writeFrames frames).2) := by
  unfold Handles WriterCall.fault? writeFrames
  rw [hframes, hstaged, hanswer]
  rcases w.stage_clear_cases frames with ⟨e, buffer, hfault, hstage⟩ | ⟨hnone, hstage⟩
  · simp only [hstage]
    exact ⟨trivial, Or.inl ⟨e, hfault, rfl, trivial⟩⟩
  · simp only [hstage]
    refine ⟨rfl, Or.inr ⟨hnone, ?_, rfl⟩⟩
    unfold deliver
    simp only
    cases (w.sink.deliver (Frame.appendUntil w.limit frames []).2).1 <;> rfl

/-- A header and a payload are written as a list of one frame. -/
theorem send_eq (w : FrameWriter) (header : Header) (payload : Bytes) :
    w.send header payload =
      ((w.writeFrames [{ header, payload }]).1.map fun _ => (),
        (w.writeFrames [{ header, payload }]).2) := by
  unfold send writeFrames
  cases hstage : w.clear.stage [{ header, payload }] with
  | mk result staged =>
    cases result with
    | error e => rfl
    | ok _ =>
      refine Prod.ext ?_ rfl
      simp only
      cases staged.deliver.1 <;> rfl

theorem handles_send (w : FrameWriter) {call : WriterCall} {header : Header} {payload : Bytes}
    (hframes : call.framesOf = [{ header, payload }])
    (hstaged : call.staged w.limit = (Frame.appendUntil w.limit [{ header, payload }] []).2)
    (hanswer : ∀ content, call.answer? content = none) :
    w.Handles call ((w.send header payload).1.map fun _ => none, (w.send header payload).2) := by
  have h := w.handles_writeFrames (fun _ => none) hframes hstaged hanswer
  rw [send_eq]
  cases hresult : (w.writeFrames [{ header, payload }]).1 <;>
    · rw [hresult] at h
      exact h

theorem handles_perform (w : FrameWriter) (call : WriterCall) :
    w.Handles call (w.perform call) := by
  cases call with
  | frame f => exact w.handles_send rfl rfl fun _ => rfl
  | send header payload => exact w.handles_send rfl rfl fun _ => rfl
  | frames frames => exact w.handles_writeFrames some rfl rfl fun _ => rfl
  | raw content => exact ⟨rfl, Or.inr ⟨rfl, rfl, rfl⟩⟩
  | flush =>
    have hnothing : w.sink.deliver [] = w.sink.flush := Sink.deliver_of_ok (by rw [Sink.writeAll])
    refine ⟨rfl, Or.inr ⟨rfl, ?_, congrArg Prod.snd hnothing.symm⟩⟩
    show w.sink.flush.1.map (fun _ => none) = (w.sink.deliver []).1.map fun _ => none
    rw [hnothing]

theorem perform_of_fault {call : WriterCall} {e : FrameError}
    (h : call.fault? w.limit = some e) :
    (w.perform call).1 = .error e ∧ (w.perform call).2.sink = w.sink := by
  rcases (w.handles_perform call).2 with ⟨cause, hfault, hresult, hsink⟩ | ⟨hnone, -, -⟩
  · obtain rfl := Option.some.inj (h.symm.trans hfault)
    exact ⟨hresult, hsink⟩
  · cases h.symm.trans hnone

theorem perform_of_none {call : WriterCall} (h : call.fault? w.limit = none) :
    (w.perform call).1 = (w.sink.deliver (call.staged w.limit)).1.map
        (fun _ => call.answer? (call.staged w.limit)) ∧
      (w.perform call).2.sink = (w.sink.deliver (call.staged w.limit)).2 := by
  rcases (w.handles_perform call).2 with ⟨cause, hfault, -, -⟩ | ⟨-, hresult, hsink⟩
  · cases h.symm.trans hfault
  · exact ⟨hresult, hsink⟩

/-! ## The result -/

/-- What one call does, whatever the sink does and whatever an earlier call has left in the
buffer. -/
structure AllOrBeginning (w : FrameWriter) (call : WriterCall) : Prop where
  /-- All its bytes are written or the beginning of them, and no other bytes. -/
  outcome : ∃ taken, (w.perform call).2.sink.accepted = w.sink.accepted ++ taken ∧
    call.Outcome w.limit (w.perform call).1 taken
  /-- A call that is refused does not touch the sink. -/
  refused : ∀ e, call.fault? w.limit = some e →
    (w.perform call).1 = .error e ∧ (w.perform call).2.sink = w.sink
  /-- A call that succeeds ends with a flush that does, after the last byte. -/
  flushed : ∀ answer, (w.perform call).1 = .ok answer →
    ∃ (content : Bytes) (full : Sink), call.Writes content ∧
      full.accepted = w.sink.accepted ++ content ∧ full.flushCount = w.sink.flushCount ∧
      full.flush = (.ok (), (w.perform call).2.sink) ∧
      (w.perform call).2.sink.flushCount = w.sink.flushCount + 1
  /-- Neither failures that pass nor what is in the buffer make a difference. -/
  steady : ∀ other : FrameWriter, other.limit = w.limit → other.sink.steady = w.sink.steady →
    (other.perform call).1 = (w.perform call).1 ∧
      (other.perform call).2.sink.steady = (w.perform call).2.sink.steady

theorem allOrBeginning (w : FrameWriter) (call : WriterCall) : w.AllOrBeginning call := by
  cases hfault : call.fault? w.limit with
  | some e =>
    obtain ⟨hresult, hsink⟩ := perform_of_fault hfault
    constructor
    case outcome =>
      rw [hresult, hsink]
      exact ⟨[], (List.append_nil _).symm, .refused hfault⟩
    case refused =>
      intro cause hcause
      obtain rfl := Option.some.inj (hfault.symm.trans hcause)
      exact ⟨hresult, hsink⟩
    case flushed =>
      intro answer hok
      cases hresult.symm.trans hok
    case steady =>
      intro other hlimit hsteady
      rw [← hlimit] at hfault
      obtain ⟨hresult', hsink'⟩ := perform_of_fault hfault
      rw [hresult', hresult, hsink', hsink]
      exact ⟨rfl, hsteady⟩
  | none =>
    obtain ⟨hresult, hsink⟩ := perform_of_none hfault
    have hcontent := WriterCall.writes_staged hfault
    obtain ⟨taken, htaken, haccepted, hflushed⟩ :=
      Sink.deliver_handover w.sink (call.staged w.limit)
    constructor
    case outcome =>
      rw [hresult, hsink]
      exact ⟨taken, haccepted, .of_handover htaken hfault hcontent⟩
    case refused =>
      intro cause hcause
      cases hfault.symm.trans hcause
    case flushed =>
      intro answer hok
      have hdelivered : (w.sink.deliver (call.staged w.limit)).1 = .ok () := by
        rw [hresult] at hok
        cases hdeliver : (w.sink.deliver (call.staged w.limit)).1 with
        | ok _ => rfl
        | error e =>
          rw [hdeliver] at hok
          cases hok
      obtain ⟨full, hfull⟩ := hflushed hdelivered
      rw [hsink]
      exact ⟨call.staged w.limit, full, hcontent, hfull⟩
    case steady =>
      intro other hlimit hsteady
      rw [← hlimit] at hfault
      obtain ⟨hresult', hsink'⟩ := perform_of_none hfault
      obtain ⟨hsame, hafter⟩ := Sink.deliver_of_steady hsteady (call.staged w.limit)
      rw [hresult', hresult, hsink', hsink, hlimit, hsame]
      exact ⟨rfl, hafter⟩

theorem outcomes_of_performAll (w : FrameWriter) (calls : List WriterCall) :
    ∃ taken, (w.performAll calls).2.sink.accepted = w.sink.accepted ++ taken ∧
      WriterCall.Outcomes w.limit calls (w.performAll calls).1 taken := by
  induction calls generalizing w with
  | nil => exact ⟨[], (List.append_nil _).symm, .nil⟩
  | cons call rest ih =>
    obtain ⟨taken, haccepted, houtcome⟩ := (w.allOrBeginning call).outcome
    obtain ⟨more, hmore, houtcomes⟩ := ih (w.perform call).2
    rw [(w.handles_perform call).1] at houtcomes
    refine ⟨taken ++ more, ?_, .cons houtcome houtcomes⟩
    rw [← List.append_assoc, ← haccepted]
    exact hmore

theorem performAll_of_steady {other : FrameWriter} (hlimit : other.limit = w.limit)
    (hsteady : other.sink.steady = w.sink.steady) (calls : List WriterCall) :
    (other.performAll calls).1 = (w.performAll calls).1 ∧
      (other.performAll calls).2.sink.steady = (w.performAll calls).2.sink.steady := by
  induction calls generalizing w other with
  | nil => exact ⟨rfl, hsteady⟩
  | cons call rest ih =>
    obtain ⟨hanswer, hafter⟩ := (w.allOrBeginning call).steady other hlimit hsteady
    have hlimit' : (other.perform call).2.limit = (w.perform call).2.limit := by
      rw [(other.handles_perform call).1, (w.handles_perform call).1, hlimit]
    obtain ⟨hanswers, hlast⟩ := ih hlimit' hafter
    refine ⟨?_, hlast⟩
    unfold performAll
    simp only [hanswer, hanswers]

/-- Whatever a writer has done before and whatever the sink does, every call is refused
and does not touch the sink, or writes all its bytes and flushes, or breaks off after the
beginning of them.  So the sink takes what the calls write, call after call, and nothing
else, and failures that pass leave no trace in it. -/
theorem all_or_beginning (w : FrameWriter) :
    (∀ call, w.AllOrBeginning call) ∧
      ∀ calls, (∃ taken, (w.performAll calls).2.sink.accepted = w.sink.accepted ++ taken ∧
          WriterCall.Outcomes w.limit calls (w.performAll calls).1 taken) ∧
        ∀ other : FrameWriter, other.limit = w.limit → other.sink.steady = w.sink.steady →
          (other.performAll calls).1 = (w.performAll calls).1 ∧
            (other.performAll calls).2.sink.steady = (w.performAll calls).2.sink.steady :=
  ⟨w.allOrBeginning, fun calls => ⟨w.outcomes_of_performAll calls,
    fun _ hlimit hsteady => performAll_of_steady hlimit hsteady calls⟩⟩

/-- A batch of two frames breaks off after two bytes, the next one is refused for its
second frame, and the last one is written whole, on a stream that interrupts the writer
three times as on one that does not. -/
theorem all_or_beginning_interrupted :
    let calm := { Sink.accepting with writes := [.upTo 2, .fault .brokenPipe] }
    let troubled := { Sink.accepting with
      writes := [.fault .interrupted, .upTo 2, .fault .wouldBlock, .fault .brokenPipe]
      flushes := [some .interrupted] }
    let w : FrameWriter := { limit := 8, sink := calm }
    let other : FrameWriter := { limit := 8, sink := troubled, buffer := [9] }
    let short := Frame.stamped (Header.single .nav 1 0 0 1) [0x5A]
    let long := Frame.stamped (Header.single .nav 1 0 7 3) [0x31, 0x32]
    let unknown := Frame.stamped (Header.single .nav 1 0 0 9) [0x5B]
    let calls : List WriterCall := [.frames [long, short], .frames [long, unknown], .frames [short]]
    other.limit = w.limit ∧ troubled.steady = calm.steady ∧
      calls.map (WriterCall.fault? 8) = [none, some (.unsupportedVersion 9), none] ∧
      (other.performAll calls).1.map Except.toOption = [none, none, some (some 9)] ∧
      (other.performAll calls).2.sink.accepted =
        [0x31, 0x0B, 0x11, 0x0B, 0, 1, 0, 0, 0, 1, 0x5A] := by
  intro calm troubled w other short long unknown calls
  have hlimit : other.limit = w.limit := rfl
  have hsteady : troubled.steady = calm.steady := rfl
  obtain ⟨hanswers, hsink⟩ := ((all_or_beginning w).2 calls).2 other hlimit hsteady
  refine ⟨hlimit, hsteady, by decide, ?_, (congrArg Sink.accepted hsink).trans ?_⟩
  · rw [hanswers]
    decide +kernel
  · decide +kernel

end FrameWriter

end HeadUnitLink
