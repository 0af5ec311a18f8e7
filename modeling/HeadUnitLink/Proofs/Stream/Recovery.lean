import HeadUnitLink.Proofs.Receiver.Reading
import HeadUnitLink.Proofs.Wire.Codec

/-!
# Two recoveries

A reader and a receiver step over damage by rules of their own.  The reader
trusts the declared length whenever it is no longer than the longest frame
within the limit.  The receiver trusts it only if the header is malformed.

Both rules give the same reach but in one case, `Frame.Straddles`: a header
without a message id leaves four bytes of the longest frame free, and a payload
that is over the limit by no more than these makes a frame that the reader
steps over as a whole and the receiver byte by byte.

`FrameReader.met_eq_met_iff` says that this case makes all the difference.
-/

namespace HeadUnitLink

namespace Frame

/-- The length of the payload, if it is over the limit. -/
def overLimit? (limit : Nat) (bytes : Bytes) : Option Nat :=
  match decode limit bytes with
  | .error (.payloadTooLarge payload _) => some payload
  | _ => none

/-- The payload is over the limit, but the header has no message id and leaves
room for what the payload is over by. -/
def Straddles (limit : Nat) (bytes : Bytes) : Prop :=
  ∃ payload ∈ overLimit? limit bytes,
    declaredLength? bytes = some (shortHeaderSize + payload) ∧
      payload ≤ limit + (longHeaderSize - shortHeaderSize)

instance (limit : Nat) (bytes : Bytes) : Decidable (Straddles limit bytes) :=
  inferInstanceAs (Decidable (∃ payload ∈ overLimit? limit bytes, _ ∧ _))

theorem overLimit?_of_error {limit : Nat} {bytes : Bytes} {e : FrameError}
    (h : decode limit bytes = .error e) {payload : Nat} (hover : payload ∈ overLimit? limit bytes) :
    ∃ max, e = .payloadTooLarge payload max := by
  unfold overLimit? at hover
  rw [h] at hover
  cases e with
  | payloadTooLarge found max => exact ⟨max, by rw [Option.some.inj hover]⟩
  | _ => exact absurd hover (by simp)

theorem Straddles.exists_error {limit : Nat} {bytes : Bytes} (h : Straddles limit bytes) :
    ∃ e, decode limit bytes = .error e := by
  obtain ⟨payload, hover, -⟩ := h
  unfold overLimit? at hover
  split at hover
  · exact ⟨_, ‹_›⟩
  · exact absurd hover (by simp)

end Frame

/-- The byte string from the start of each event on. -/
def StreamEvent.starts (bytes : Bytes) : List StreamEvent → List Bytes
  | [] => []
  | event :: rest => bytes :: starts (bytes.drop event.size) rest

theorem Frame.skipLimit_eq {limit : Nat} (h : maxHeaderSize + limit < sizeModulus) :
    skipLimit limit = maxHeaderSize + limit := Nat.mod_eq_of_lt h

/-- A payload over the limit: the receiver steps over one byte, and the reader
over the whole frame if there is room for it in the longest one. -/
theorem reach_of_tooLarge {config : Config}
    (hbound : maxHeaderSize + config.maxMessageSize < sizeModulus) {bytes : Bytes}
    {size payload : Nat} (hlength : Frame.declaredLength? bytes = some (size + payload)) :
    Receiver.reach config bytes (.payloadTooLarge payload config.maxMessageSize) = 1 ∧
      FrameReader.reach config.maxMessageSize bytes
          (.payloadTooLarge payload config.maxMessageSize) =
        if size + payload ≤ maxHeaderSize + config.maxMessageSize then size + payload else 1 := by
  refine ⟨rfl, ?_⟩
  simp only [FrameReader.reach, FrameReader.skipLength, hlength, Frame.skipLimit_eq hbound]

/-- The two rules differ in front of a frame that straddles the limit, and
nowhere else. -/
theorem reach_eq_iff {config : Config}
    (hbound : maxHeaderSize + config.maxMessageSize < sizeModulus) {bytes : Bytes} {e : FrameError}
    (hdecode : Frame.decode config.maxMessageSize bytes = .error e) :
    FrameReader.reach config.maxMessageSize bytes e = Receiver.reach config bytes e ↔
      ¬ Frame.Straddles config.maxMessageSize bytes := by
  rcases Frame.decode_error_cases hdecode with
    ⟨version, rfl, hnone⟩ | ⟨fault, length, rfl, hlength⟩ |
      ⟨first, tail, size, payload, rfl, hsize, rfl, hover, hlength⟩
  · refine iff_of_true ?_ ?_
    · simp only [FrameReader.reach, FrameReader.skipLength, hnone, Receiver.reach,
        Receiver.skipLength?, Option.getD_none]
    · rintro ⟨payload, hover, -⟩
      obtain ⟨_, hcause⟩ := Frame.overLimit?_of_error hdecode hover
      exact absurd hcause (by simp)
  · refine iff_of_true ?_ ?_
    · simp only [FrameReader.reach, FrameReader.skipLength, hlength, Receiver.reach,
        Receiver.skipLength?]
      split <;> rfl
    · rintro ⟨payload, hover, -⟩
      obtain ⟨_, hcause⟩ := Frame.overLimit?_of_error hdecode hover
      exact absurd hcause (by simp)
  · obtain ⟨hreceiver, hreader⟩ := reach_of_tooLarge hbound hlength
    have hshort : shortHeaderSize = 8 := rfl
    have hlong : longHeaderSize = 12 := rfl
    have hmax : maxHeaderSize = 12 := rfl
    rw [hreceiver, hreader]
    constructor
    · rintro heq ⟨payload', hover', hlength', hnear⟩
      obtain ⟨_, hcause⟩ := Frame.overLimit?_of_error hdecode hover'
      obtain ⟨rfl, -⟩ := FrameError.payloadTooLarge.inj hcause
      have htotal := Option.some.inj (hlength.symm.trans hlength')
      rw [if_pos (by omega)] at heq
      omega
    · intro hfar
      have hpayload : payload ∈ Frame.overLimit? config.maxMessageSize (first :: tail) := by
        unfold Frame.overLimit?
        rw [hdecode]
        rfl
      refine if_neg fun hnear => hfar ⟨payload, hpayload, ?_, ?_⟩
      · rcases version_cases hsize with ⟨_, rfl⟩ | ⟨_, rfl⟩
        · exact hlength
        · omega
      · have hleast := (headerSize_bounds hsize).1
        omega

/-- Two readings of a byte string, by rules that differ only in front of some
byte strings, are the same when none of these comes up, and only then. -/
theorem Reading.eq_iff {limit : Nat} {reach reach' : Bytes → FrameError → Nat}
    {Differs : Bytes → Prop}
    (hreach : ∀ bytes e, Frame.decode limit bytes = .error e →
      (reach bytes e = reach' bytes e ↔ ¬ Differs bytes))
    (hdamage : ∀ bytes, Differs bytes → ∃ e, Frame.decode limit bytes = .error e)
    {bytes last last' : Bytes} {events events' : List StreamEvent}
    (h : Reading limit reach bytes events last) (h' : Reading limit reach' bytes events' last') :
    events = events' ↔ ∀ start ∈ StreamEvent.starts bytes events', ¬ Differs start := by
  induction h' generalizing events last with
  | stop hdecode' =>
    cases h with
    | stop _ => exact iff_of_true rfl fun _ hstart => absurd hstart List.not_mem_nil
    | frame hdecode _ => exact absurd (hdecode.symm.trans hdecode') (by simp)
    | damage hdecode _ => exact absurd (hdecode.symm.trans hdecode') (by simp)
  | @frame bytes rest' last' frame events' hdecode' tail' ih =>
    cases h with
    | stop hdecode => exact absurd (hdecode.symm.trans hdecode') (by simp)
    | frame hdecode tail =>
      have heq := Option.some.inj (Except.ok.inj (hdecode.symm.trans hdecode'))
      obtain ⟨rfl, rfl⟩ := Prod.mk.inj heq
      have hsame : ¬ Differs bytes := by
        intro hdiffers
        obtain ⟨e, he⟩ := hdamage bytes hdiffers
        exact absurd (he.symm.trans hdecode) (by simp)
      have hrest := Frame.drop_wireSize_of_decode hdecode
      simp only [List.cons.injEq, true_and, StreamEvent.starts, List.mem_cons, forall_eq_or_imp,
        StreamEvent.size, hrest, hsame, not_false_eq_true]
      exact ih tail
    | damage hdecode _ => exact absurd (hdecode.symm.trans hdecode') (by simp)
  | @damage bytes last' e events' hdecode' tail' ih =>
    cases h with
    | stop hdecode => exact absurd (hdecode.symm.trans hdecode') (by simp)
    | frame hdecode _ => exact absurd (hdecode.symm.trans hdecode') (by simp)
    | damage hdecode tail =>
      obtain rfl := Except.error.inj (hdecode.symm.trans hdecode')
      have hiff := hreach bytes _ hdecode
      simp only [List.cons.injEq, StreamEvent.damage.injEq, true_and, StreamEvent.starts,
        List.mem_cons, forall_eq_or_imp, StreamEvent.size, hiff]
      refine and_congr_right fun hsame => ?_
      rw [hiff.2 hsame] at tail
      exact ih tail

namespace FrameReader

/-- A reader and an engine with the same limit meet the same frames in a stream
and step over the same bytes of it, if and only if no frame that straddles the
limit comes up. -/
theorem met_eq_met_iff {config : Config} {e : Engine} (he : Engine.ofConfig config = .ok e)
    (hbound : maxHeaderSize + config.maxMessageSize < sizeModulus) {source : Source}
    (hopen : source.Open) :
    (ofSource config.maxMessageSize source).met = e.met source.content ↔
      ∀ start ∈ StreamEvent.starts source.content (e.met source.content),
        ¬ Frame.Straddles config.maxMessageSize start := by
  obtain ⟨_, rfl⟩ := Engine.ofConfig_eq_ok he
  have hreader := reading_met (ofSource config.maxMessageSize source) hopen
  have hreceiver := Receiver.reading_met config _
    ((Receiver.aligned_ofConfig config).feed source.content)
  exact Reading.eq_iff (fun _ _ => reach_eq_iff hbound) (fun _ => Frame.Straddles.exists_error)
    hreader hreceiver

/-- Noise, a payload over the limit behind a header with a message id, a frame
with a damaged service type, and a frame, with an interrupted read in the
middle. -/
theorem met_eq_met_iff_in_noise :
    let config := { Config.default with maxMessageSize := 4 }
    let source : Source :=
      [.bytes [0x00, 0x31, 0x07, 0, 1, 0, 0, 0, 5, 0, 0, 0, 7, 0x11, 0x55, 0], .fault .interrupted,
        .bytes [1, 0, 0, 0, 1, 0xEE, 0x11, 0x07, 0, 1, 0, 0, 0, 1, 0x5A]]
    maxHeaderSize + config.maxMessageSize < sizeModulus ∧ source.Open ∧
      ∃ e, Engine.ofConfig config = .ok e ∧
        (ofSource config.maxMessageSize source).met = e.met source.content := by
  intro config source
  have hbound : maxHeaderSize + config.maxMessageSize < sizeModulus := by decide
  have hopen : source.Open := by decide
  exact ⟨hbound, hopen, _, rfl, (met_eq_met_iff rfl hbound hopen).2 (by decide +kernel)⟩

/-- A payload one byte over the limit, with a frame without payload at its
start.  The reader steps over all of it, and the engine meets the frame. -/
theorem met_ne_met_straddling :
    let config := { Config.default with maxMessageSize := 8 }
    let bytes : Bytes :=
      [0x11, 0x07, 0, 1, 0, 0, 0, 9, 0x11, 0x07, 0, 1, 0, 0, 0, 0, 0xEE]
    ∃ e, Engine.ofConfig config = .ok e ∧
      maxHeaderSize + config.maxMessageSize < sizeModulus ∧
      (ofSource config.maxMessageSize [.bytes bytes]).met = [.damage (.payloadTooLarge 9 8) 17] ∧
      .frame (Frame.stamped (Header.single .rpc 1 0 0 1) []) ∈ e.met bytes ∧
      (ofSource config.maxMessageSize [.bytes bytes]).met ≠ e.met bytes :=
  ⟨_, rfl, by decide, by decide +kernel, by decide +kernel, by decide +kernel⟩

end FrameReader

end HeadUnitLink
