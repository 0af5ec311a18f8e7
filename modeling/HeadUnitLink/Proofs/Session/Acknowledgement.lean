import HeadUnitLink.Proofs.Session.Registry
import HeadUnitLink.Proofs.Text.Utf8
import HeadUnitLink.Proofs.Wire.Decode

/-!
# The hash id of a session

The head unit hands a hash id out with the acknowledgement of a session, in one
of three layouts.

* `Frame.Opens` says that a frame is such an acknowledgement, and
  `Frame.Opens.ofFrame` that the hash id and the text are taken from it.
* `Registry.hashId_ofFrame` says that no other frame touches the hash id, unless
  it starts the session anew or ends it.
-/

namespace HeadUnitLink

/-! ## The text of an acknowledgement -/

/-- Only the last characters of a text can be NULs that do not count. -/
theorem trimNuls_append_replicate {text : List Char} (h : text.getLast? ≠ some (Char.ofNat 0))
    (count : Nat) : trimNuls (text ++ List.replicate count (Char.ofNat 0)) = text := by
  have hpadding : ∀ c ∈ List.replicate count (Char.ofNat 0),
      (decide (c = Char.ofNat 0)) = true := fun c hc =>
    decide_eq_true (List.eq_of_mem_replicate hc)
  unfold trimNuls
  rw [List.reverse_append, List.reverse_replicate, List.dropWhile_append_of_pos hpadding]
  cases hreverse : text.reverse with
  | nil => rw [List.dropWhile_nil, ← hreverse, List.reverse_reverse]
  | cons last rest =>
    have hlast : text.getLast? = some last := by
      rw [← List.head?_reverse, hreverse]
      rfl
    have hne : last ≠ Char.ofNat 0 := fun heq => h (heq ▸ hlast)
    rw [List.dropWhile_cons_of_neg (by simpa using hne), ← hreverse, List.reverse_reverse]

theorem decodeLossy_replicate_zero (count : Nat) :
    Utf8.decodeLossy (List.replicate count 0) = List.replicate count (Char.ofNat 0) := by
  unfold Utf8.decodeLossy
  rw [Utf8.scan_replicate_zero, List.map_replicate]
  rfl

/-- A text that does not end with a NUL is read back from its UTF-8, with any
NULs behind it. -/
theorem correlationText_toUTF8 {text : String} (h : text.toList.getLast? ≠ some (Char.ofNat 0))
    (count : Nat) : correlationText (text.toUTF8.toList ++ List.replicate count 0) = text := by
  unfold correlationText
  rw [Utf8.toList_toUTF8, Utf8.decodeLossy_encode_append, decodeLossy_replicate_zero,
    trimNuls_append_replicate h, String.ofList_toList]

/-! ## The three layouts -/

/-- The layouts in which a frame carries a hash id and a text: version 2 has the
hash id in front of the text, versions 3 and 4 have it as the message id, or in
front of the text and 0 as the message id.  NULs may follow. -/
inductive Frame.Carries (frame : Frame) (hash : UInt32) (text : String) : Prop where
  | inFront (padding : Nat) (hversion : frame.header.version = 2)
    (hpayload : frame.payload =
      Word.toBytes hash ++ (text.toUTF8.toList ++ List.replicate padding 0))
  | asMessageId (padding : Nat) (hversion : frame.header.version = 3 ∨ frame.header.version = 4)
    (hid : frame.header.messageId = hash)
    (hpayload : frame.payload = text.toUTF8.toList ++ List.replicate padding 0)
  | inFrontOfLater (padding : Nat)
    (hversion : frame.header.version = 3 ∨ frame.header.version = 4)
    (hid : frame.header.messageId = 0)
    (hpayload : frame.payload =
      Word.toBytes hash ++ (text.toUTF8.toList ++ List.replicate padding 0))

/-- The frame acknowledges the start of a session, with a hash id and with a text
that does not end with a NUL. -/
structure Frame.Opens (frame : Frame) (session : UInt8) (hash : UInt32) (text : String) : Prop where
  starts : frame.Starts .rpc session
  carries : frame.Carries hash text
  hash_ne_zero : hash ≠ 0
  text_trimmed : text.toList.getLast? ≠ some (Char.ofNat 0)

namespace Frame

variable {frame : Frame} {session : UInt8} {hash : UInt32} {text : String}

theorem payloadHash_toBytes (hash : UInt32) (rest : Bytes) :
    payloadHash (Word.toBytes hash ++ rest) = (hash, rest) := by
  unfold payloadHash
  rw [Word.split?_toBytes_append]
  rfl

/-- Every layout is told apart from the others. -/
theorem Carries.sessionAckParts (h : frame.Carries hash text) (hhash : hash ≠ 0) :
    ∃ padding, sessionAckParts frame =
      (hash, text.toUTF8.toList ++ List.replicate padding 0) := by
  unfold HeadUnitLink.sessionAckParts
  cases h with
  | inFront padding hversion hpayload =>
    refine ⟨padding, ?_⟩
    simp only [hversion, hpayload, payloadHash_toBytes]
    rfl
  | asMessageId padding hversion hid hpayload =>
    refine ⟨padding, ?_⟩
    rcases hversion with hversion | hversion
    · simp only [hversion, hid, hpayload, if_pos hhash]
      rfl
    · simp only [hversion, hid, hpayload, if_pos hhash]
      rfl
  | inFrontOfLater padding hversion hid hpayload =>
    refine ⟨padding, ?_⟩
    rcases hversion with hversion | hversion
    · simp only [hversion, hid, hpayload, payloadHash_toBytes]
      rfl
    · simp only [hversion, hid, hpayload, payloadHash_toBytes]
      rfl

/-- An acknowledgement starts its session with its hash id and its text. -/
theorem Opens.ofFrame (h : frame.Opens session hash text) (r : Registry) :
    ControlEvent.ofFrame frame r =
      (.ok (.sessionStarted (Session.opened session (some hash)) frame.header.version text),
        r.put (Session.opened session (some hash))) := by
  obtain ⟨⟨hkind, hservice, hsession⟩, hcarries, hhash, htext⟩ := h
  obtain ⟨padding, hparts⟩ := hcarries.sessionAckParts hhash
  unfold ControlEvent.ofFrame ControlEvent.ofStartAck sessionAckFields
  simp only [hkind, hservice, if_true, hsession, hparts, if_neg hhash,
    correlationText_toUTF8 htext, Registry.startSession_eq]

/-- What an acknowledgement carries survives the way through its bytes. -/
theorem Opens.received (h : frame.Opens session hash text) :
    frame.received.Opens session hash text := by
  refine ⟨h.starts, ?_, h.hash_ne_zero, h.text_trimmed⟩
  -- only the message id of a later version is still there when the frame arrives
  have hid : frame.header.version = 3 ∨ frame.header.version = 4 →
      frame.received.header.messageId = frame.header.messageId := by
    rintro (hversion | hversion)
    · exact if_pos (by rw [hversion]; decide)
    · exact if_pos (by rw [hversion]; decide)
  cases h.carries with
  | inFront padding hversion hpayload => exact .inFront padding hversion hpayload
  | asMessageId padding hversion hmessage hpayload =>
    exact .asMessageId padding hversion ((hid hversion).trans hmessage) hpayload
  | inFrontOfLater padding hversion hmessage hpayload =>
    exact .inFrontOfLater padding hversion ((hid hversion).trans hmessage) hpayload

/-- Frames of a known kind can be read where they arrive. -/
theorem Opens.readable (h : frame.Opens session hash text) : frame.header.Readable := by
  intro htype hnone
  have hkind := h.starts.1
  unfold Header.controlKind? at hkind
  rw [if_pos htype, hnone] at hkind
  exact absurd hkind (by simp)

end Frame

/-! ## The hash id in a registry -/

namespace Registry

variable {frame : Frame} {id : UInt8} {hash : UInt32} {text : String}

theorem hashId_addService (s : Session) (service : Service) :
    (s.addService service).hashId = s.hashId := by
  unfold Session.addService
  split <;> rfl

/-- A session keeps its hash id, or goes without one, until it is started anew or
ended. -/
theorem hashId_ofFrame (hstart : ¬ frame.Starts .rpc id) (hend : ¬ frame.Ends .rpc id)
    (r : Registry) : (ControlEvent.ofFrame frame r).2.hashId id = r.hashId id := by
  have heffect := ControlEvent.effect frame r
  generalize (ControlEvent.ofFrame frame r).1 = result,
    (ControlEvent.ofFrame frame r).2 = next at heffect ⊢
  unfold hashId
  cases heffect with
  | @opened session hopened =>
    have hne : id ≠ session := fun heq => hstart (heq ▸ hopened)
    rw [get?_put, Session.opened_id, if_neg hne]
  | @added service session _ _ _ =>
    rw [get?_addService]
    split
    · rename_i heq
      rw [heq, Option.bind_some, hashId_addService]
      cases r.get? session <;> rfl
    · rfl
  | @ended service session hended =>
    rw [get?_removeService]
    split
    · rename_i heq
      have hservice : service ≠ .rpc := fun hrpc => hend (hrpc ▸ heq ▸ hended)
      rw [heq, if_neg hservice]
      cases r.get? session <;> rfl
    · rfl
  | kept _ _ _ => rfl

theorem hashId_replay {frames : List Frame}
    (h : ∀ frame ∈ frames, ¬ frame.Starts .rpc id ∧ ¬ frame.Ends .rpc id) (r : Registry) :
    (r.replay frames).hashId id = r.hashId id := by
  induction frames generalizing r with
  | nil => rfl
  | cons frame rest ih =>
    obtain ⟨hstart, hend⟩ := h frame List.mem_cons_self
    have hrest := ih (fun later hlater => h later (List.mem_cons_of_mem _ hlater))
      (ControlEvent.ofFrame frame r).2
    exact hrest.trans (hashId_ofFrame hstart hend r)

/-- The hash id of the last acknowledgement is known as long as the session is
neither started anew nor ended. -/
theorem hashId_of_opens {before after : List Frame} (hopens : frame.Opens id hash text)
    (hafter : ∀ later ∈ after, ¬ later.Starts .rpc id ∧ ¬ later.Ends .rpc id) (r : Registry) :
    (r.replay (before ++ frame :: after)).hashId id = some hash := by
  rw [replay_append]
  show (replay (ControlEvent.ofFrame frame (r.replay before)).2 after).hashId id = some hash
  rw [hashId_replay hafter, hopens.ofFrame]
  unfold hashId
  rw [get?_put, Session.opened_id, if_pos rfl]
  rfl

end Registry

end HeadUnitLink
