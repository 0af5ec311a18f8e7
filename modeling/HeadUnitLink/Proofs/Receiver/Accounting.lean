import HeadUnitLink.Proofs.Receiver.Damage
import HeadUnitLink.Proofs.Receiver.Frames
import HeadUnitLink.Proofs.Receiver.Segments

/-!
# Every received byte is accounted for

A receiver works off its bytes segment by segment, and each segment leaves
exactly one trace: a frame is taken in, a malformed frame is told of, a search
is told of once.

* `Splits.drain` is the induction over the segments.  The flag of the search
  carries it: while a header is searched for, the lost bytes that come first
  belong to a search that has been told of.
* `Receiver.met_feed` says that the rounds of the loop do not depend on where a
  chunk is cut.
* `Engine.accounts_of_receiveAll` is the result for a fresh engine.
-/

namespace HeadUnitLink

/-- The stage of an error. -/
def Notice.stage? : Notice → Option Stage
  | .error stage _ => some stage
  | _ => none

/-- The errors of one stage. -/
def Notice.ofStage (stage : Stage) (notices : List Notice) : List Notice :=
  notices.filter fun notice => notice.stage? = some stage

theorem Notice.ofStage_append (stage : Stage) (notices more : List Notice) :
    ofStage stage (notices ++ more) = ofStage stage notices ++ ofStage stage more :=
  List.filter_append ..

namespace Receiver

/-! ## What is told of frames -/

/-- A frame that is taken in is no damage. -/
theorem ofStage_route (config : Config) (r : Receiver) (frame : Frame) :
    Notice.ofStage .malformedHeader (route config r frame).2 = [] ∧
      Notice.ofStage .unreadableHeader (route config r frame).2 = [] := by
  unfold route
  split
  · exact ⟨rfl, rfl⟩
  · exact ⟨rfl, rfl⟩
  · exact ⟨rfl, rfl⟩
  · unfold routeControl
    split
    · exact ⟨rfl, rfl⟩
    · exact ⟨rfl, rfl⟩
    · exact ⟨rfl, rfl⟩
  · exact ⟨rfl, rfl⟩

/-- What is told of stretches, one after the other. -/
def tellAll (config : Config) (r : Receiver) :
    List (Stretch config.maxMessageSize) → List Notice
  | [] => []
  | .routed f :: rest => (route config r f.frame).2 ++ tellAll config (route config r f.frame).1 rest
  | .skipped f :: rest => f.notice :: tellAll config r rest
  | .lost first _ :: rest => first.notice :: tellAll config r rest

variable {config : Config}

/-- Each skipped frame is told of once, and so is each search. -/
theorem ofStage_tellAll (r : Receiver) (stretches : List (Stretch config.maxMessageSize)) :
    Notice.ofStage .malformedHeader (tellAll config r stretches) =
        (stretches.filterMap Stretch.skipped?).map SkippedFrame.notice ∧
      Notice.ofStage .unreadableHeader (tellAll config r stretches) =
        (stretches.filterMap Stretch.search?).map LostByte.notice := by
  induction stretches generalizing r with
  | nil => exact ⟨rfl, rfl⟩
  | cons stretch rest ih =>
    cases stretch with
    | routed f =>
      obtain ⟨hmalformed, hunreadable⟩ := ofStage_route config r f.frame
      obtain ⟨hmore, hmore'⟩ := ih (route config r f.frame).1
      constructor
      · rw [tellAll, Notice.ofStage_append, hmalformed, hmore]
        rfl
      · rw [tellAll, Notice.ofStage_append, hunreadable, hmore']
        rfl
    | skipped f =>
      obtain ⟨hmore, hmore'⟩ := ih r
      constructor
      · show f.notice :: Notice.ofStage .malformedHeader (tellAll config r rest) = _
        rw [hmore]
        rfl
      · show Notice.ofStage .unreadableHeader (tellAll config r rest) = _
        rw [hmore']
        rfl
    | lost first more =>
      obtain ⟨hmore, hmore'⟩ := ih r
      constructor
      · show Notice.ofStage .malformedHeader (tellAll config r rest) = _
        rw [hmore]
        rfl
      · show first.notice :: Notice.ofStage .unreadableHeader (tellAll config r rest) = _
        rw [hmore']
        rfl

/-- The ending is told of if it is a malformed frame. -/
theorem ofStage_ending {limit : Nat} (ending : Ending limit) :
    Notice.ofStage .malformedHeader ending.notices = ending.notices ∧
      Notice.ofStage .unreadableHeader ending.notices = [] := by
  cases ending with
  | kept _ _ => exact ⟨rfl, rfl⟩
  | cut _ _ f => exact ⟨rfl, rfl⟩

/-! ## One segment -/

/-- A malformed frame is stepped over as a whole.  Only the last bytes can lack
some of it. -/
theorem step_skipped (hbound : maxHeaderSize + config.maxMessageSize < sizeModulus)
    {missing : Nat} (f : SkippedFrame config.maxMessageSize missing) {rest : Bytes}
    (hrest : missing = 0 ∨ rest = []) (r : Receiver) (resyncing : Bool) :
    (r.facing (f.bytes ++ rest) resyncing).step? config =
      some ({ r with buffer := rest, discard := missing, resyncing := false }, [f.notice]) := by
  have hbuffer : (f.bytes ++ rest).drop (f.bytes.length + missing) = rest := by
    rw [List.drop_append]
    rcases hrest with rfl | rfl
    · simp
    · simp
  have hdiscard : (if f.bytes.length + missing ≤ (f.bytes ++ rest).length then 0
      else f.bytes.length + missing - (f.bytes ++ rest).length) = missing := by
    rw [List.length_append]
    rcases hrest with rfl | rfl
    · exact if_pos (by omega)
    · rw [List.length_nil]
      split <;> omega
  rw [step_facing_of_skip (Frame.decode_append_of_error f.decode_eq rest)
    (f.skipLength?_append hbound rest)]
  unfold skipFrame facing
  simp only [hbuffer, hdiscard]
  rfl

/-! ## The rounds of the loop -/

/-- A round of the loop is the same when more bytes have arrived. -/
theorem metBy_feed {r r' : Receiver} {notices : List Notice} (h : r.Aligned)
    (hstep : r.step? config = some (r', notices)) (more : Bytes) :
    metBy config (r.feed more) (r'.feed more) = metBy config r r' := by
  have hdiscard := h.discard_of_step hstep
  have hbuffer : (r.feed more).buffer = r.buffer ++ more := by rw [feed_of_discard hdiscard]
  have hfed := feed_of_discard hdiscard more
  unfold metBy
  rcases step_cases hstep with ⟨frame, rest, hdecode, _⟩ | ⟨e, hdecode, hresync⟩
  · rw [hbuffer, Frame.decode_append_of_frame hdecode more, hdecode]
  · have hmore := Frame.decode_append_of_error hdecode more
    have htaken := (taken_resync hdiscard hdecode).1
    have htaken' : (r.feed more).taken (resync config (r.feed more) e).1 =
        reach config (r.buffer ++ more) e := by
      rw [← hbuffer] at hmore ⊢
      exact (taken_resync (by rw [hfed]; exact hdiscard) hmore).1
    have hreach : reach config (r.buffer ++ more) e = reach config r.buffer e := by
      unfold reach
      rw [skipLength?_append hdecode]
    rw [resync_feed hdiscard hdecode, hresync] at htaken'
    rw [hresync] at htaken
    rw [hbuffer, hmore, hdecode]
    simp only at htaken htaken' ⊢
    rw [htaken, htaken', hreach]

/-- Where a chunk is cut makes no difference to the rounds. -/
theorem met_feed (r : Receiver) (h : r.Aligned) (more : Bytes) :
    (r.feed more).met config = r.met config ++ ((r.drain config).1.feed more).met config := by
  induction r using step_induction config with
  | hstop r hstop => rw [met_of_none hstop, drain_of_none hstop, List.nil_append]
  | hwork r r' notices hstep ih =>
    rw [met_of_some (step_feed h hstep more), metBy_feed h hstep, ih (h.step hstep),
      met_of_some hstep, drain_of_some hstep, List.append_assoc]

end Receiver

/-! ## Segment after segment -/

namespace Splits

variable {config : Config} {bytes : Bytes} {stretches : List (Stretch config.maxMessageSize)}
  {ending : Ending config.maxMessageSize}

/-- A receiver works off its bytes segment by segment: it takes in each frame
once and keeps the ending. -/
theorem drain (hbound : maxHeaderSize + config.maxMessageSize < sizeModulus)
    (h : Splits config bytes stretches ending) (r : Receiver) (resyncing : Bool) :
    ∃ searching, (r.facing bytes resyncing).drain config =
      ({ (Receiver.routeAll config r (stretches.filterMap Stretch.frame?)).1 with
          buffer := ending.buffer, discard := ending.missing, resyncing := searching },
        Receiver.tellAll config r (Stretch.heard resyncing stretches) ++ ending.notices) := by
  induction h generalizing r resyncing with
  | @kept bytes hdecode =>
    have hstop : (r.facing bytes resyncing).step? config = none :=
      Receiver.step?_eq_none_iff.2 hdecode
    refine ⟨resyncing, ?_⟩
    rw [Receiver.drain_of_none hstop]
    cases resyncing <;> rfl
  | @cut missing hmissing f =>
    have hstep := Receiver.step_skipped hbound f (Or.inr rfl) r resyncing
    have hstop : Receiver.step? config
        { r with buffer := [], discard := missing, resyncing := false } = none := rfl
    rw [List.append_nil] at hstep
    refine ⟨false, ?_⟩
    rw [Receiver.drain_of_some hstep, Receiver.drain_of_none hstop]
    cases resyncing <;> rfl
  | routed f hdecode _ ih =>
    obtain ⟨searching, hrest⟩ := ih (Receiver.route config r f.frame).1 false
    refine ⟨searching, ?_⟩
    rw [Receiver.drain_of_some (Receiver.step_facing_of_frame hdecode r resyncing), hrest,
      Stretch.heard_false]
    cases resyncing <;> exact congrArg _ (List.append_assoc ..).symm
  | skipped f _ ih =>
    obtain ⟨searching, hrest⟩ := ih r false
    refine ⟨searching, ?_⟩
    rw [Receiver.drain_of_some (Receiver.step_skipped hbound f (Or.inl rfl) r resyncing)]
    show (((r.facing _ false).drain config).1, _ ++ ((r.facing _ false).drain config).2) = _
    rw [hrest, Stretch.heard_false]
    cases resyncing <;> rfl
  | lost l hdecode hskip _ ih =>
    obtain ⟨searching, hrest⟩ := ih r true
    refine ⟨searching, ?_⟩
    rw [Receiver.drain_of_some (Receiver.step_facing_of_lost hdecode hskip r resyncing),
      List.drop_one, List.tail_cons, hrest, Stretch.filterMap_frame?_lose]
    cases resyncing <;> rfl

/-- The rounds of the loop are those of the segments. -/
theorem met (hbound : maxHeaderSize + config.maxMessageSize < sizeModulus)
    (h : Splits config bytes stretches ending) (r : Receiver) (resyncing : Bool) :
    (r.facing bytes resyncing).met config =
      stretches.flatMap Stretch.rounds ++ ending.rounds := by
  have hmet := Receiver.reading_met config (r.facing bytes resyncing) (Or.inl rfl)
  exact (Reading.unique hmet (h.reading hbound)).1

end Splits

namespace Engine

/-- What an engine meets when it takes in chunks one after the other: the
rounds of its loop, over all chunks. -/
def metAll (e : Engine) : List Bytes → List StreamEvent
  | [] => []
  | chunk :: rest => e.met chunk ++ (e.receive chunk).1.metAll rest

/-- The rounds over all chunks are those over the bytes in one piece. -/
theorem Settled.metAll {e : Engine} (h : e.Settled) (chunks : List Bytes) :
    e.metAll chunks = e.met chunks.flatten := by
  induction chunks generalizing e with
  | nil =>
    rw [Engine.metAll, Engine.met, List.flatten_nil, Receiver.feed_nil,
      Receiver.met_of_none h.stopped]
  | cons chunk rest ih =>
    rw [Engine.metAll, ih (h.receive chunk), List.flatten_cons]
    unfold Engine.met
    rw [← Receiver.feed_feed, Receiver.met_feed _ (h.aligned.feed chunk)]
    rfl

/-- An engine accounts for all bytes of these chunks by stretches and an
ending. -/
structure Accounts (config : Config) (e : Engine) (chunks : List Bytes)
    (stretches : List (Stretch config.maxMessageSize))
    (ending : Ending config.maxMessageSize) : Prop where
  /-- What stands at the front of the bytes decides the segment there. -/
  splits : Splits config chunks.flatten stretches ending
  /-- The segments and the ending make up the bytes. -/
  bytes_eq : chunks.flatten = stretches.flatMap Stretch.bytes ++ ending.bytes
  /-- No search stands next to another one. -/
  apart : stretches.IsChain Stretch.Apart
  /-- The loop takes one round for each segment. -/
  rounds_eq : e.metAll chunks = stretches.flatMap Stretch.rounds ++ ending.rounds
  /-- It comes to an end, for each round takes a byte or more. -/
  rounds_le : (e.metAll chunks).length ≤ chunks.flatten.length
  /-- Each frame is taken in once, in the order of the stream.  What is kept, and
  what has still to be dropped, is the ending. -/
  receiver_eq : (e.receiveAll chunks).1.receiver =
    { (Receiver.routeAll config (Receiver.ofConfig config)
        (stretches.filterMap Stretch.frame?)).1 with
      buffer := ending.buffer, discard := ending.missing
      resyncing := (e.receiveAll chunks).1.receiver.resyncing }
  /-- All that is told, in order. -/
  notices_eq : (e.receiveAll chunks).2 =
    Receiver.tellAll config (Receiver.ofConfig config) stretches ++ ending.notices
  /-- Each malformed frame is told of once. -/
  malformed_eq : Notice.ofStage .malformedHeader (e.receiveAll chunks).2 =
    (stretches.filterMap Stretch.skipped?).map SkippedFrame.notice ++ ending.notices
  /-- Each search is told of once. -/
  unreadable_eq : Notice.ofStage .unreadableHeader (e.receiveAll chunks).2 =
    (stretches.filterMap Stretch.search?).map LostByte.notice

/-- A fresh engine accounts for whatever bytes it is given, in chunks of any
size. -/
theorem accounts_of_receiveAll {config : Config} {e : Engine} (he : ofConfig config = .ok e)
    (hbound : maxHeaderSize + config.maxMessageSize < sizeModulus) (chunks : List Bytes) :
    ∃ stretches ending, Accounts config e chunks stretches ending := by
  obtain ⟨stretches, ending, hsplits⟩ := exists_splits hbound chunks.flatten
  obtain ⟨searching, hdrain⟩ := hsplits.drain hbound (Receiver.ofConfig config) false
  have hmet := hsplits.met hbound (Receiver.ofConfig config) false
  have hfeed : (Receiver.ofConfig config).feed chunks.flatten =
      (Receiver.ofConfig config).facing chunks.flatten false :=
    Receiver.feed_facing (Receiver.ofConfig config) [] chunks.flatten false
  rw [← hfeed, Stretch.heard_false] at hdrain
  rw [← hfeed] at hmet
  obtain ⟨hreceiver, hnotices⟩ := receiveAll_of_ofConfig he chunks
  unfold Receiver.receive at hreceiver hnotices
  rw [hdrain] at hreceiver hnotices
  have hrounds : e.metAll chunks = stretches.flatMap Stretch.rounds ++ ending.rounds := by
    rw [(settled_ofConfig he).metAll]
    obtain ⟨_, rfl⟩ := ofConfig_eq_ok he
    exact hmet
  obtain ⟨hmalformed, hunreadable⟩ :=
    Receiver.ofStage_tellAll (Receiver.ofConfig config) stretches
  obtain ⟨hcut, hkept⟩ := Receiver.ofStage_ending ending
  refine ⟨stretches, ending, ⟨hsplits, hsplits.bytes_eq, hsplits.apart, hrounds, ?_, ?_,
    hnotices, ?_, ?_⟩⟩
  · rw [hrounds]
    exact hsplits.length_rounds_le
  · rw [hreceiver]
  · rw [hnotices, Notice.ofStage_append, hmalformed, hcut]
  · rw [hnotices, Notice.ofStage_append, hunreadable, hkept, List.append_nil]

/-- Noise, a frame, a malformed frame, noise and a malformed frame that lacks
three bytes, cut inside the frame and inside both malformed frames. -/
theorem accounts_of_receiveAll_cut_short :
    let chunks : List Bytes :=
      [[0xff, 0, 0x11, 0x0B, 0, 2], [0, 0, 0, 1, 0x11, 0x3f, 0x07, 0, 1, 0, 0, 0, 2, 0, 0, 0, 9, 5],
        [6, 0], [0x3f, 0x07, 0, 1, 0, 0, 0, 5, 0, 0, 0, 9, 1], [2]]
    ∃ e stretches ending, ofConfig Config.default = .ok e ∧
      maxHeaderSize + Config.default.maxMessageSize < sizeModulus ∧
      Accounts Config.default e chunks stretches ending ∧ ending.missing = 3 ∧
      (stretches.filterMap Stretch.skipped?).length = 1 ∧
      (stretches.filterMap Stretch.search?).length = 2 := by
  intro chunks
  obtain ⟨e, he⟩ : ∃ e, ofConfig Config.default = .ok e := ⟨_, rfl⟩
  have hbound : maxHeaderSize + Config.default.maxMessageSize < sizeModulus := by decide
  obtain ⟨stretches, ending, haccounts⟩ := accounts_of_receiveAll he hbound chunks
  obtain ⟨hreceiver, hnotices⟩ := receiveAll_of_ofConfig he chunks
  have hdiscard : (e.receiveAll chunks).1.receiver.discard = 3 := by
    rw [hreceiver]
    decide +kernel
  have hmalformed : (Notice.ofStage .malformedHeader (e.receiveAll chunks).2).length = 2 := by
    rw [hnotices]
    decide +kernel
  have hunreadable : (Notice.ofStage .unreadableHeader (e.receiveAll chunks).2).length = 2 := by
    rw [hnotices]
    decide +kernel
  have hmissing : ending.missing = 3 := by
    rw [haccounts.receiver_eq] at hdiscard
    exact hdiscard
  have hending : ending.notices.length = 1 := by
    cases ending with
    | kept _ _ => exact absurd hmissing (by simp [Ending.missing])
    | cut _ _ f => rfl
  refine ⟨e, stretches, ending, he, hbound, haccounts, hmissing, ?_, ?_⟩
  · rw [haccounts.malformed_eq, List.length_append, List.length_map, hending] at hmalformed
    omega
  · rw [haccounts.unreadable_eq, List.length_map] at hunreadable
    exact hunreadable

end Engine

end HeadUnitLink
