import HeadUnitLink.Proofs.Receiver.Chunks
import HeadUnitLink.Proofs.Wire.Damage
import Mathlib.Data.List.Chain

/-!
# Frames among damage

A damaged stream is a list of passages: frames as they were written, frames
whose codes were overwritten on the way, and noise.  A receiver works it off
passage by passage, and damage costs nothing but the damaged passages: the
frames between them are taken in as if nothing else had come.

* `IntactFrame`, `DamagedFrame` and `Noise` carry the proof of what they are, so
  a `Passage` says by itself what a receiver can be given.
* `Receiver.step_intact`, `Receiver.step_damaged` and `Receiver.drain_noise` are
  what one passage does.
* `Receiver.drain_passages` is the induction over the passages.  The flag of the
  search for a header carries it: noise comes only where the flag is down, for
  then the search is told of once.
* `Engine.receiveAll_passages` is the result.
-/

namespace HeadUnitLink

/-! ## Passages -/

/-- The bytes of a frame that a receiver with this limit can read. -/
structure IntactFrame (limit : Nat) where
  frame : Frame
  bytes : Bytes
  encode_eq : frame.encode = .ok bytes
  readable : frame.header.Readable
  length_le : frame.payload.length ≤ limit

/-- A frame whose first three bytes were overwritten.  The version has survived
it, and the codes of the header have not. -/
structure DamagedFrame (limit : Nat) where
  frame : Frame
  written : Bytes
  encode_eq : frame.encode = .ok written
  length_le : frame.payload.length ≤ limit
  first : UInt8
  service : UInt8
  frameData : UInt8
  version_eq : Header.versionOf first = frame.header.version
  fault : HeaderFault
  decode_eq : Header.decode (first :: service :: frameData :: written.drop 3) =
    .error (.malformedHeader fault)

/-- Bytes none of which can be the first of a header. -/
structure Noise where
  first : UInt8
  more : Bytes
  unreadable : ∀ b ∈ first :: more,
    ¬ (minVersion ≤ Header.versionOf b ∧ Header.versionOf b ≤ maxVersion)

/-- One part of a damaged stream. -/
inductive Passage (limit : Nat) where
  | intact (f : IntactFrame limit)
  | damaged (f : DamagedFrame limit)
  | noise (n : Noise)

/-- The frame as it arrives. -/
def DamagedFrame.bytes {limit : Nat} (f : DamagedFrame limit) : Bytes :=
  f.first :: f.service :: f.frameData :: f.written.drop 3

/-- What is told of a damaged frame. -/
def DamagedFrame.notice {limit : Nat} (f : DamagedFrame limit) : Notice :=
  .error .malformedHeader (.frame (.malformedHeader f.fault))

def Noise.bytes (n : Noise) : Bytes := n.first :: n.more

/-- What is told of noise: its first byte names no version. -/
def Noise.notice (n : Noise) : Notice :=
  .error .unreadableHeader (.frame (.unsupportedVersion (Header.versionOf n.first)))

namespace Passage

variable {limit : Nat}

def bytes : Passage limit → Bytes
  | intact f => f.bytes
  | damaged f => f.bytes
  | noise n => n.bytes

/-- The bytes of an intact frame. -/
def intact? : Passage limit → Option Bytes
  | intact f => some f.bytes
  | _ => none

/-- Two runs of noise side by side would be one. -/
def Apart : Passage limit → Passage limit → Prop
  | noise _, noise _ => False
  | _, _ => True

/-- What is told of the passages, when `told` lists what is told of each intact
frame: every damaged passage is told of once, in its place. -/
def weave : List (Passage limit) → List (List Notice) → List Notice
  | [], _ => []
  | intact _ :: rest, told => told.headD [] ++ weave rest told.tail
  | damaged f :: rest, told => f.notice :: weave rest told
  | noise n :: rest, told => n.notice :: weave rest told

end Passage

theorem Noise.noVersion (n : Noise) {b : UInt8} (hb : b ∈ n.bytes) :
    headerSize? (Header.versionOf b) = none := by
  cases hsize : headerSize? (Header.versionOf b) with
  | none => rfl
  | some size => exact absurd (exists_headerSize?_iff.1 ⟨size, hsize⟩) (n.unreadable b hb)

/-- A damaged frame still declares the length that it has. -/
theorem DamagedFrame.declaredLength?_bytes {limit : Nat} (f : DamagedFrame limit) :
    ∃ size, headerSize? (Header.versionOf f.first) = some size ∧ size ≤ f.bytes.length ∧
      f.bytes.length ≤ maxHeaderSize + limit ∧
      Frame.declaredLength? f.bytes = some f.bytes.length := by
  obtain ⟨headerBytes, hheader, hwritten, hdata⟩ := Frame.encode_eq_ok f.encode_eq
  obtain ⟨size, hsize, hbytes⟩ := Header.encode_eq_ok hheader
  have hlength := Header.length_of_encode hheader
  have hsizeEq : size = headerBytes.length := Option.some.inj (hsize.symm.trans hlength)
  obtain ⟨hshort, hmax⟩ := headerSize_bounds hsize
  have hshortEq : shortHeaderSize = 8 := rfl
  have htotal : f.bytes.length = size + f.frame.payload.length := by
    unfold bytes
    rw [hwritten]
    simp only [List.length_cons, List.length_drop, List.length_append]
    omega
  have hpayload := f.length_le
  refine ⟨size, by rw [f.version_eq]; exact hsize, by omega, by omega, ?_⟩
  obtain ⟨s₃, s₂, s₁, s₀, hsplit, hword⟩ := Word.exists_bytes f.frame.header.dataSize
  have hfields : f.bytes = f.first :: f.service :: f.frameData :: f.frame.header.session ::
      s₃ :: s₂ :: s₁ :: s₀ ::
        ((if size = longHeaderSize then Word.toBytes f.frame.header.messageId else []) ++
          f.frame.payload) := by
    unfold bytes
    rw [hwritten, hbytes]
    unfold Header.fixedBytes
    rw [hsplit]
    rfl
  rw [htotal, hfields]
  simp only [Frame.declaredLength?, f.version_eq, hsize, Option.map_some, hword, hdata]

namespace Receiver

/-! ## One passage -/

/-- The receiver with these bytes in front of it. -/
def facing (r : Receiver) (buffer : Bytes) (resyncing : Bool) : Receiver :=
  { r with buffer, discard := 0, resyncing }

theorem feed_facing (r : Receiver) (buffer chunk : Bytes) (resyncing : Bool) :
    (r.facing buffer resyncing).feed chunk = r.facing (buffer ++ chunk) resyncing := by
  rw [feed_of_discard rfl]
  rfl

variable {config : Config}

/-- A frame at the front is taken in, whatever came before it. -/
theorem step_facing_of_frame {bytes rest : Bytes} {frame : Frame}
    (hdecode : Frame.decode config.maxMessageSize bytes = .ok (some (frame, rest)))
    (r : Receiver) (resyncing : Bool) :
    (r.facing bytes resyncing).step? config =
      some ((route config r frame).1.facing rest false, (route config r frame).2) := by
  have hstep : (r.facing bytes resyncing).step? config =
      some (route config (r.facing rest false) frame) := step_of_frame hdecode
  rw [hstep]
  unfold facing
  rw [route_stream]

/-- Damage of a known length is stepped over as a whole, and told of. -/
theorem step_facing_of_skip {bytes : Bytes} {e : FrameError} {length : Nat}
    (hdecode : Frame.decode config.maxMessageSize bytes = .error e)
    (hskip : skipLength? config bytes e = some length) (r : Receiver) (resyncing : Bool) :
    (r.facing bytes resyncing).step? config =
      some ((r.facing bytes resyncing).skipFrame length, [.error .malformedHeader (.frame e)]) := by
  have hstep : (r.facing bytes resyncing).step? config =
      some (resync config (r.facing bytes resyncing) e) := step_of_error hdecode
  rw [hstep]
  unfold resync facing
  simp only [hskip]

/-- Any other damage costs one byte, and is told of unless a header is searched
for already. -/
theorem step_facing_of_lost {bytes : Bytes} {e : FrameError}
    (hdecode : Frame.decode config.maxMessageSize bytes = .error e)
    (hskip : skipLength? config bytes e = none) (r : Receiver) (resyncing : Bool) :
    (r.facing bytes resyncing).step? config =
      some (r.facing (bytes.drop 1) true,
        if resyncing then [] else [.error .unreadableHeader (.frame e)]) := by
  have hstep : (r.facing bytes resyncing).step? config =
      some (resync config (r.facing bytes resyncing) e) := step_of_error hdecode
  rw [hstep]
  unfold resync facing
  simp only [hskip]

/-- An intact frame is taken in, whatever came before it. -/
theorem step_intact (r : Receiver) (f : IntactFrame config.maxMessageSize) (rest : Bytes)
    (resyncing : Bool) :
    (r.facing (f.bytes ++ rest) resyncing).step? config =
      some ((route config r f.frame.received).1.facing rest false,
        (route config r f.frame.received).2) := by
  exact step_facing_of_frame
    (Frame.decode_encode_append f.encode_eq f.readable f.length_le rest) r resyncing

/-- A damaged frame is stepped over as a whole. -/
theorem step_damaged (hbound : maxHeaderSize + config.maxMessageSize < sizeModulus)
    (r : Receiver) (f : DamagedFrame config.maxMessageSize) (rest : Bytes) (resyncing : Bool) :
    (r.facing (f.bytes ++ rest) resyncing).step? config =
      some (r.facing rest false, [f.notice]) := by
  obtain ⟨size, hsize, hheader, hlength, hdeclared⟩ := f.declaredLength?_bytes
  have hdecode : Frame.decode config.maxMessageSize f.bytes = .error (.malformedHeader f.fault) :=
    Frame.decode_of_malformed hsize hheader f.decode_eq
  have hskip : skipLength? config (f.bytes ++ rest) (.malformedHeader f.fault) =
      some f.bytes.length := by
    have hfits : f.bytes.length ≤ Frame.skipLimit config.maxMessageSize := by
      unfold Frame.skipLimit
      rw [Nat.mod_eq_of_lt hbound]
      exact hlength
    exact skipLength?_eq_some_iff.2
      ⟨f.fault, rfl, Frame.declaredLength?_append hdeclared rest, hfits⟩
  rw [step_facing_of_skip (Frame.decode_append_of_error hdecode rest) hskip]
  unfold skipFrame facing
  simp only [List.drop_left, List.length_append, Nat.le_add_right, if_true]
  rfl

/-- A byte of noise is stepped over, and told of unless a header is searched for
already. -/
theorem step_noise {b : UInt8} (hb : headerSize? (Header.versionOf b) = none) (r : Receiver)
    (rest : Bytes) (resyncing : Bool) :
    (r.facing (b :: rest) resyncing).step? config =
      some (r.facing rest true,
        if resyncing then []
        else [.error .unreadableHeader (.frame (.unsupportedVersion (Header.versionOf b)))]) := by
  exact step_facing_of_lost (Frame.decode_of_noVersion hb rest) rfl r resyncing

/-- Once a header is searched for, noise is passed over in silence. -/
theorem drain_silently {bytes : Bytes}
    (hbytes : ∀ b ∈ bytes, headerSize? (Header.versionOf b) = none) (r : Receiver)
    (rest : Bytes) :
    (r.facing (bytes ++ rest) true).drain config = (r.facing rest true).drain config := by
  induction bytes with
  | nil => rfl
  | cons b more ih =>
    have hfirst := hbytes b List.mem_cons_self
    rw [List.cons_append, drain_of_some (step_noise hfirst r _ true),
      ih fun other hother => hbytes other (List.mem_cons_of_mem _ hother)]
    rfl

/-- A run of noise is told of once. -/
theorem drain_noise (r : Receiver) (n : Noise) (rest : Bytes) :
    ((r.facing (n.bytes ++ rest) false).drain config).2 =
      n.notice :: ((r.facing rest true).drain config).2 := by
  have hfirst := n.noVersion List.mem_cons_self
  have hmore : ∀ b ∈ n.more, headerSize? (Header.versionOf b) = none :=
    fun b hb => n.noVersion (List.mem_cons_of_mem _ hb)
  unfold Noise.bytes
  rw [List.cons_append, drain_of_some (step_noise hfirst r _ false), drain_silently hmore]
  rfl

/-! ## Passage after passage -/

/-- What is told of each chunk. -/
def told (config : Config) (r : Receiver) : List Bytes → List (List Notice)
  | [] => []
  | chunk :: rest => (r.receive config chunk).2 :: told config (r.receive config chunk).1 rest

/-- An intact frame that comes alone is taken in at once. -/
theorem receive_intact (r : Receiver) (f : IntactFrame config.maxMessageSize) (resyncing : Bool) :
    (r.facing [] resyncing).receive config f.bytes =
      ((route config r f.frame.received).1.facing [] false,
        (route config r f.frame.received).2) := by
  have hstop : ((route config r f.frame.received).1.facing [] false).step? config = none := rfl
  unfold receive
  rw [feed_facing, List.nil_append, ← List.append_nil f.bytes,
    drain_of_some (step_intact r f [] resyncing), drain_of_none hstop, List.append_nil]

/-- The passages of a stream are worked off one by one.  Of an intact frame is
told what is told of it when the frames come alone. -/
theorem drain_passages (hbound : maxHeaderSize + config.maxMessageSize < sizeModulus)
    {passages : List (Passage config.maxMessageSize)}
    (hapart : passages.IsChain Passage.Apart) (r : Receiver) {resyncing : Bool}
    (hsearch : resyncing = true → ∀ n rest, passages ≠ .noise n :: rest) (alone : Bool) :
    ((r.facing (passages.flatMap Passage.bytes) resyncing).drain config).2 =
      Passage.weave passages
        (told config (r.facing [] alone) (passages.filterMap Passage.intact?)) := by
  induction passages generalizing r resyncing alone with
  | nil =>
    have hstop : (r.facing [] resyncing).step? config = none := rfl
    rw [List.flatMap_nil, drain_of_none hstop]
    rfl
  | cons passage rest ih =>
    have hrest := hapart.tail
    have hdown : ∀ n more, false = true → rest ≠ .noise n :: more :=
      fun _ _ hfalse => absurd hfalse Bool.false_ne_true
    rw [List.flatMap_cons]
    cases passage with
    | intact f =>
      rw [Passage.bytes, drain_of_some (step_intact r f _ resyncing),
        ih hrest _ (fun h n more => hdown n more h) false]
      rw [List.filterMap_cons_some (show Passage.intact? (.intact f) = some f.bytes from rfl),
        told, receive_intact, Passage.weave]
      rfl
    | damaged f =>
      rw [Passage.bytes, drain_of_some (step_damaged hbound r f _ resyncing),
        ih hrest r (fun h n more => hdown n more h) alone,
        List.filterMap_cons_none rfl, Passage.weave]
      rfl
    | noise n =>
      have hquiet : resyncing = false := by
        cases resyncing with
        | false => rfl
        | true => exact absurd rfl (hsearch rfl n rest)
      have hnext : ∀ other more, rest ≠ .noise other :: more := by
        rintro other more rfl
        exact (List.isChain_cons_cons.1 hapart).1
      rw [Passage.bytes, hquiet, drain_noise, ih hrest r (fun _ => hnext) alone,
        List.filterMap_cons_none rfl, Passage.weave]

end Receiver

namespace Engine

/-- What an engine tells of each chunk that it takes in. -/
def told (e : Engine) (chunks : List Bytes) : List (List Notice) :=
  e.receiver.told e.config chunks

theorem receiveAll_told (e : Engine) (chunks : List Bytes) :
    (e.receiveAll chunks).2 = (e.told chunks).flatten := by
  induction chunks generalizing e with
  | nil => rfl
  | cons chunk rest ih =>
    rw [receiveAll_cons, ih]
    rfl

/-- A fresh engine that is fed a damaged stream, in any chunks, tells what it
tells of the intact frames when it is fed these alone, and one error more in
the place of every damaged frame and of every run of noise. -/
theorem receiveAll_passages {config : Config} {e : Engine} (he : ofConfig config = .ok e)
    (hbound : maxHeaderSize + config.maxMessageSize < sizeModulus)
    {passages : List (Passage config.maxMessageSize)} (hapart : passages.IsChain Passage.Apart)
    {chunks : List Bytes} (hchunks : chunks.flatten = passages.flatMap Passage.bytes) :
    (e.receiveAll chunks).2 =
        Passage.weave passages (e.told (passages.filterMap Passage.intact?)) ∧
      ∀ alone : List Bytes, alone.flatten = (passages.filterMap Passage.intact?).flatten →
        (e.receiveAll alone).2 = (e.told (passages.filterMap Passage.intact?)).flatten := by
  have hsettled := settled_ofConfig he
  obtain ⟨_, rfl⟩ := ofConfig_eq_ok he
  constructor
  · rw [hsettled.receiveAll, hchunks]
    have hstart : Receiver.ofConfig config = (Receiver.ofConfig config).facing [] false := rfl
    show (((Receiver.ofConfig config).feed _).drain config).2 = _
    rw [hstart, Receiver.feed_facing, List.nil_append,
      Receiver.drain_passages hbound hapart _ (fun h => absurd h Bool.false_ne_true) false]
    rfl
  · intro alone halone
    rw [hsettled.receiveAll, halone, ← hsettled.receiveAll, receiveAll_told]

/-- Noise, an intact frame, a frame with a damaged type, another intact frame
and noise again, byte by byte. -/
theorem receiveAll_passages_byte_by_byte :
    let first : IntactFrame Config.default.maxMessageSize :=
      { frame := Frame.stamped (Header.single .rpc 1 0 7 3) [0x31, 0x32]
        bytes := [0x31, 0x07, 0, 1, 0, 0, 0, 2, 0, 0, 0, 7, 0x31, 0x32]
        encode_eq := rfl, readable := fun h => absurd h (by decide), length_le := by decide }
    let second : IntactFrame Config.default.maxMessageSize :=
      { frame := Frame.stamped (Header.single .nav 2 0 0 1) [0x11]
        bytes := [0x11, 0x0B, 0, 2, 0, 0, 0, 1, 0x11]
        encode_eq := rfl, readable := fun h => absurd h (by decide), length_le := by decide }
    let damaged : DamagedFrame Config.default.maxMessageSize :=
      { frame := first.frame, written := first.bytes, encode_eq := first.encode_eq
        length_le := first.length_le
        first := 0x37, service := 0x07, frameData := 0, version_eq := rfl
        fault := .unknownFrameType 7, decode_eq := rfl }
    let noise : Noise := { first := 0x00, more := [0xFF, 0x5A], unreadable := by decide +kernel }
    let passages : List (Passage Config.default.maxMessageSize) :=
      [.noise noise, .intact first, .damaged damaged, .intact second, .noise noise]
    let chunks := (passages.flatMap Passage.bytes).map fun b => [b]
    maxHeaderSize + Config.default.maxMessageSize < sizeModulus ∧
      passages.IsChain Passage.Apart ∧
      chunks.flatten = passages.flatMap Passage.bytes ∧
      ∃ e, ofConfig Config.default = .ok e ∧
        (e.receiveAll chunks).2 =
            Passage.weave passages (e.told (passages.filterMap Passage.intact?)) ∧
          ∀ alone : List Bytes, alone.flatten = (passages.filterMap Passage.intact?).flatten →
            (e.receiveAll alone).2 = (e.told (passages.filterMap Passage.intact?)).flatten := by
  intro first second damaged noise passages chunks
  have hbound : maxHeaderSize + Config.default.maxMessageSize < sizeModulus := by decide
  have hapart : passages.IsChain Passage.Apart := by simp [passages, Passage.Apart]
  have hchunks : chunks.flatten = passages.flatMap Passage.bytes := by decide
  exact ⟨hbound, hapart, hchunks, _, rfl, receiveAll_passages rfl hbound hapart hchunks⟩

end Engine

end HeadUnitLink
