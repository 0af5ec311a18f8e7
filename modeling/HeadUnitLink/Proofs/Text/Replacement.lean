import HeadUnitLink.Proofs.Text.Utf8

/-!
# What is replaced in a text

Bytes that are no UTF-8 are replaced piece by piece.  A piece is as long as a
character can begin with it, and one byte where no character begins so.

* `Utf8.Decides` says what reading one character depends on: on the bytes of
  the character, or of the piece of one, and on the byte that breaks it off.
  `Utf8.exists_decides_of_step` is the reading of one more byte, and with
  `Utf8.exists_decides_next` a byte below `0x80` never goes on with what is before
  it: `Utf8.scan_append_of_lt`.
* `Utf8.encode_of_next` is the other direction of `Utf8.next_utf8EncodeChar`:
  what is read as a character is the bytes of that character.
* `Utf8.Replaced` is the rule itself, without a word on how bytes are read, and
  `Utf8.replaced_iff` says that `Utf8.scan` follows it.
-/

namespace HeadUnitLink.Utf8

/-! ## What one character depends on -/

/-- Reading takes this part off the bytes.  A character is read off its own
bytes, whatever follows.  A piece of a character is broken off by the byte
after it, and by any byte below `0x80`, whatever follows that byte. -/
structure Decides (read : Bytes → Option Char × Bytes) (bytes part : Bytes) : Prop where
  split : bytes = part ++ (read bytes).2
  whole : ∀ c, (read bytes).1 = some c → ∀ more, read (part ++ more) = (some c, more)
  broken : (read bytes).1 = none → ∀ b more, b < 0x80 ∨ (read bytes).2.head? = some b →
    read (part ++ b :: more) = (none, b :: more)

theorem not_tail_of_lt {b : UInt8} (h : b < 0x80) : ¬ (0x80 ≤ b ∧ b ≤ 0xBF) :=
  fun htail => UInt8.not_le.2 h htail.1

/-- A reader that goes on after a good byte and ends at any other.  No byte below
`0x80` is good. -/
theorem exists_decides_of_step {read : Bytes → Option Char × Bytes} {good : UInt8 → Prop}
    {goOn : UInt8 → Bytes → Option Char × Bytes} (hnil : read [] = (none, []))
    (hstop : ∀ b more, ¬ good b → read (b :: more) = (none, b :: more))
    (hgo : ∀ b more, good b → read (b :: more) = goOn b more)
    (hlow : ∀ b, b < 0x80 → ¬ good b)
    (hrest : ∀ b rest, ∃ part, Decides (goOn b) rest part) (bytes : Bytes) :
    ∃ part, Decides read bytes part := by
  have hended : (∀ b, bytes.head? = some b → ¬ good b) → Decides read bytes [] := by
    intro hhead
    have hread : read bytes = (none, bytes) := by
      cases bytes with
      | nil => exact hnil
      | cons b rest => exact hstop b rest (hhead b rfl)
    refine ⟨by rw [hread, List.nil_append], fun c hc => ?_, fun _ b more hb => hstop b more ?_⟩
    · rw [hread] at hc
      cases hc
    · rw [hread] at hb
      exact hb.elim (hlow b) (hhead b)
  cases bytes with
  | nil => exact ⟨[], hended fun b hb => by cases hb⟩
  | cons first rest =>
    by_cases hfirst : good first
    · obtain ⟨part, hpart⟩ := hrest first rest
      have hread := fun more => hgo first more hfirst
      refine ⟨first :: part, ?_, ?_, ?_⟩
      · rw [hread, List.cons_append, ← hpart.split]
      · intro c hc more
        rw [hread] at hc
        rw [List.cons_append, hread, hpart.whole c hc]
      · intro hnone b more hb
        rw [hread] at hnone hb
        rw [List.cons_append, hread, hpart.broken hnone b more hb]
    · refine ⟨[], hended fun b hb => ?_⟩
      rwa [← Option.some.inj hb]

theorem exists_decides_tails (count bits : Nat) (bytes : Bytes) :
    ∃ part, Decides (tails count bits) bytes part := by
  induction count generalizing bits bytes with
  | zero => exact ⟨[], rfl, fun c hc more => Prod.ext hc rfl, fun hnone => by cases hnone⟩
  | succ count ih =>
    have hnil : tails (count + 1) bits [] = (none, []) := rfl
    refine exists_decides_of_step hnil (fun b more hb => ?_) (fun b more hb => ?_)
      (fun b => not_tail_of_lt) (fun b => ih (extend bits b)) bytes
    · rw [tails, if_neg hb]
    · rw [tails, if_pos hb]

/-! ## First bytes -/

/-- The three kinds of first bytes, and what each says of the second. -/
theorem lead?_cases {b : UInt8} {lead : Lead} (h : lead? b = some lead) :
    (∃ k, 2 ≤ k ∧ k < 32 ∧ b = UInt8.ofNat (k + 0xC0) ∧ lead = ⟨0x80, 0xBF, 0, k⟩) ∨
      (∃ k, k < 16 ∧ b = UInt8.ofNat (k + 0xE0) ∧
        lead = ⟨if k = 0 then 0xA0 else 0x80, if k = 13 then 0x9F else 0xBF, 1, k⟩) ∨
      ∃ k, k < 5 ∧ b = UInt8.ofNat (k + 0xF0) ∧
        lead = ⟨if k = 0 then 0x90 else 0x80, if k = 4 then 0x8F else 0xBF, 2, k⟩ := by
  have hlt := b.toNat_lt
  have hb : ∀ k m, b.toNat = k + m → b = UInt8.ofNat (k + m) := fun k m hk => by
    rw [← hk, UInt8.ofNat_toNat]
  by_cases hlow : b.toNat < 0xC2 ∨ 0xF5 ≤ b.toNat
  · have hnone : ∀ n < 256, n < 0xC2 ∨ 0xF5 ≤ n → lead? (UInt8.ofNat n) = none := by
      decide +kernel
    have hlead := hnone b.toNat hlt hlow
    rw [UInt8.ofNat_toNat, h] at hlead
    cases hlead
  by_cases htwo : b.toNat < 0xE0
  · obtain ⟨k, hk⟩ : ∃ k, b.toNat = k + 0xC0 := ⟨b.toNat - 0xC0, by omega⟩
    have hlead := lead?_two k (by omega) (by omega)
    rw [← hb k _ hk, h] at hlead
    exact Or.inl ⟨k, by omega, by omega, hb k _ hk, Option.some.inj hlead⟩
  by_cases hthree : b.toNat < 0xF0
  · obtain ⟨k, hk⟩ : ∃ k, b.toNat = k + 0xE0 := ⟨b.toNat - 0xE0, by omega⟩
    have hlead := lead?_three k (by omega)
    rw [← hb k _ hk, h] at hlead
    exact Or.inr (Or.inl ⟨k, by omega, hb k _ hk, Option.some.inj hlead⟩)
  · obtain ⟨k, hk⟩ : ∃ k, b.toNat = k + 0xF0 := ⟨b.toNat - 0xF0, by omega⟩
    have hlead := lead?_four k (by omega)
    rw [← hb k _ hk, h] at hlead
    exact Or.inr (Or.inr ⟨k, by omega, hb k _ hk, Option.some.inj hlead⟩)

theorem low_of_lead? {b : UInt8} {lead : Lead} (h : lead? b = some lead) : 0x80 ≤ lead.low := by
  rcases lead?_cases h with ⟨k, _, _, _, rfl⟩ | ⟨k, _, _, rfl⟩ | ⟨k, _, _, rfl⟩
  · exact UInt8.le_refl _
  · dsimp only
    split <;> decide
  · dsimp only
    split <;> decide

/-- Reading a character that a first byte begins. -/
theorem next_of_lead? {first : UInt8} {lead : Lead} (hfirst : ¬ first < 0x80)
    (hlead : lead? first = some lead) (rest : Bytes) :
    next first rest =
      match rest with
      | [] => (none, [])
      | second :: more =>
        if lead.low ≤ second ∧ second ≤ lead.high then
          tails lead.tails (extend lead.bits second) more
        else (none, second :: more) := by
  unfold next
  rw [if_neg hfirst, hlead]
  cases rest <;> rfl

theorem next_of_not_lead? {first : UInt8} (hfirst : ¬ first < 0x80)
    (hlead : lead? first = none) (rest : Bytes) : next first rest = (none, rest) := by
  unfold next
  rw [if_neg hfirst, hlead]

theorem exists_decides_next (first : UInt8) (rest : Bytes) :
    ∃ part, Decides (next first) rest part := by
  by_cases hfirst : first < 0x80
  · have hread : ∀ more, next first more = (some (Char.ofNat first.toNat), more) :=
      fun more => by unfold next; rw [if_pos hfirst]
    refine ⟨[], by rw [hread]; rfl, fun c hc more => ?_, fun hnone => ?_⟩
    · rw [hread] at hc ⊢
      exact Prod.ext hc rfl
    · rw [hread] at hnone
      cases hnone
  cases hlead : lead? first with
  | none =>
    have hread := next_of_not_lead? hfirst hlead
    refine ⟨[], by rw [hread, List.nil_append], fun c hc => ?_, fun _ b more _ => hread (b :: more)⟩
    rw [hread] at hc
    cases hc
  | some lead =>
    have hread := next_of_lead? hfirst hlead
    have hlow : ∀ b, b < 0x80 → ¬ (lead.low ≤ b ∧ b ≤ lead.high) := fun b hb hwithin =>
      UInt8.not_le.2 hb (UInt8.le_trans (low_of_lead? hlead) hwithin.1)
    refine exists_decides_of_step (hread []) (fun b more hb => ?_) (fun b more hb => ?_) hlow
      (fun b => exists_decides_tails lead.tails (extend lead.bits b)) rest
    · rw [hread]
      exact if_neg hb
    · rw [hread]
      exact if_pos hb

/-! ## Bytes below 0x80 -/

/-- A byte below `0x80` ends whatever is before it. -/
theorem next_append_of_lt (first : UInt8) (rest : Bytes) {b : UInt8} (hb : b < 0x80)
    (more : Bytes) :
    next first (rest ++ b :: more) = ((next first rest).1, (next first rest).2 ++ b :: more) := by
  obtain ⟨part, hpart⟩ := exists_decides_next first rest
  have hsplit : rest ++ b :: more = part ++ ((next first rest).2 ++ b :: more) := by
    rw [← List.append_assoc, ← hpart.split]
  rw [hsplit]
  cases hread : (next first rest).1 with
  | some c => exact hpart.whole c hread _
  | none =>
    cases hrest : (next first rest).2 with
    | nil => exact hpart.broken hread b more (Or.inl hb)
    | cons stop tail => exact hpart.broken hread stop _ (Or.inr (by rw [hrest]; rfl))

/-- What is before a byte below `0x80` is read without it. -/
theorem scan_append_of_lt (bytes : Bytes) {b : UInt8} (hb : b < 0x80) (more : Bytes) :
    scan (bytes ++ b :: more) = scan bytes ++ scan (b :: more) := by
  -- on the length, because a character takes more than one byte off
  induction hlength : bytes.length using Nat.strongRecOn generalizing bytes with
  | ind n ih =>
    cases bytes with
    | nil => rw [scan_nil, List.nil_append, List.nil_append]
    | cons first rest =>
      have hlt : (next first rest).2.length < n :=
        hlength ▸ Nat.lt_succ_of_le (length_next_le first rest)
      rw [List.cons_append, scan_cons first, next_append_of_lt first rest hb, ih _ hlt _ rfl,
        scan_cons first, List.cons_append]

/-! ## What is read as a character -/

theorem toNat_val_ofNat {n : Nat} (h : n < 0xD800 ∨ 0xDFFF < n ∧ n < 0x110000) :
    (Char.ofNat n).val.toNat = n := by
  unfold Char.ofNat
  rw [dif_pos h]
  rfl

section Bytes

variable {n : Nat}

theorem utf8EncodeChar_one (h : n ≤ 0x7F) :
    String.utf8EncodeChar (Char.ofNat n) = [UInt8.ofNat n] := by
  unfold String.utf8EncodeChar
  simp only [toNat_val_ofNat (Or.inl (by omega : n < 0xD800)), if_pos h]

theorem utf8EncodeChar_two (hlow : 0x7F < n) (hhigh : n ≤ 0x7FF) :
    String.utf8EncodeChar (Char.ofNat n) =
      [UInt8.ofNat (n / 64 % 0x20 + 0xC0), tailByte n] := by
  unfold String.utf8EncodeChar
  simp only [toNat_val_ofNat (Or.inl (by omega : n < 0xD800))]
  rw [if_neg (by omega), if_pos hhigh]
  rfl

theorem utf8EncodeChar_three (hlow : 0x7FF < n) (hhigh : n ≤ 0xFFFF)
    (hvalid : n < 0xD800 ∨ 0xDFFF < n) :
    String.utf8EncodeChar (Char.ofNat n) =
      [UInt8.ofNat (n / 4096 % 0x10 + 0xE0), tailByte (n / 64), tailByte n] := by
  unfold String.utf8EncodeChar
  simp only [toNat_val_ofNat (by omega : n < 0xD800 ∨ 0xDFFF < n ∧ n < 0x110000)]
  rw [if_neg (by omega), if_neg (by omega), if_pos hhigh]
  rfl

theorem utf8EncodeChar_four (hlow : 0xFFFF < n) (hhigh : n < 0x110000) :
    String.utf8EncodeChar (Char.ofNat n) =
      [UInt8.ofNat (n / 262144 % 0x08 + 0xF0), tailByte (n / 4096), tailByte (n / 64),
        tailByte n] := by
  unfold String.utf8EncodeChar
  simp only [toNat_val_ofNat (by omega : n < 0xD800 ∨ 0xDFFF < n ∧ n < 0x110000)]
  rw [if_neg (by omega), if_neg (by omega), if_neg (by omega)]
  rfl

end Bytes

/-- A byte after the first is told by its six bits. -/
theorem eq_tailByte {b : UInt8} (hlow : 0x80 ≤ b) (hhigh : b ≤ 0xBF) {n : Nat}
    (hn : n % 64 = b.toNat % 64) : b = tailByte n := by
  rw [UInt8.le_iff_toNat_le] at hlow hhigh
  have hlow' : 128 ≤ b.toNat := hlow
  have hhigh' : b.toNat ≤ 191 := hhigh
  apply UInt8.toNat.inj
  rw [toNat_tailByte]
  omega

/-- The bounds of a second byte as numbers, with the one byte that tightens each. -/
theorem toNat_bounds {b low high : UInt8} {k least greatest : Nat}
    (hlow : (if k = least then low else 0x80) ≤ b)
    (hhigh : b ≤ if k = greatest then high else 0xBF) (h : 0x80 ≤ low) (h' : high ≤ 0xBF) :
    128 ≤ b.toNat ∧ b.toNat ≤ 191 ∧ (k = least → low.toNat ≤ b.toNat) ∧
      (k = greatest → b.toNat ≤ high.toNat) := by
  have hleast : 0x80 ≤ b := by
    split at hlow
    · exact UInt8.le_trans h hlow
    · exact hlow
  have hgreatest : b ≤ 0xBF := by
    split at hhigh
    · exact UInt8.le_trans hhigh h'
    · exact hhigh
  refine ⟨UInt8.le_iff_toNat_le.1 hleast, UInt8.le_iff_toNat_le.1 hgreatest, fun hk => ?_,
    fun hk => ?_⟩
  · rw [if_pos hk] at hlow
    exact UInt8.le_iff_toNat_le.1 hlow
  · rw [if_pos hk] at hhigh
    exact UInt8.le_iff_toNat_le.1 hhigh

section Numbers

variable {k : Nat} {b₁ b₂ b₃ : UInt8}

theorem encode_extend_two (hk : 2 ≤ k) (hk' : k < 32) (hb : 0x80 ≤ b₁ ∧ b₁ ≤ 0xBF) :
    String.utf8EncodeChar (Char.ofNat (extend k b₁)) = [UInt8.ofNat (k + 0xC0), b₁] := by
  unfold extend
  have hhead : (k * 64 + b₁.toNat % 64) / 64 % 0x20 = k := by omega
  rw [utf8EncodeChar_two (by omega) (by omega), hhead, ← eq_tailByte hb.1 hb.2 (by omega)]

theorem encode_extend_three (hk : k < 16) (hlow : (if k = 0 then 0xA0 else 0x80) ≤ b₁)
    (hhigh : b₁ ≤ if k = 13 then 0x9F else 0xBF) (hb : 0x80 ≤ b₂ ∧ b₂ ≤ 0xBF) :
    String.utf8EncodeChar (Char.ofNat (extend (extend k b₁) b₂)) =
      [UInt8.ofNat (k + 0xE0), b₁, b₂] := by
  obtain ⟨h128, h191, hleast, hgreatest⟩ := toNat_bounds hlow hhigh (by decide) (by decide)
  have hleast' : k = 0 → 160 ≤ b₁.toNat := hleast
  have hgreatest' : k = 13 → b₁.toNat ≤ 159 := hgreatest
  have hb₁ : 0x80 ≤ b₁ ∧ b₁ ≤ 0xBF :=
    ⟨UInt8.le_iff_toNat_le.2 h128, UInt8.le_iff_toNat_le.2 h191⟩
  unfold extend
  have hhead : ((k * 64 + b₁.toNat % 64) * 64 + b₂.toNat % 64) / 4096 % 0x10 = k := by omega
  rw [utf8EncodeChar_three (by omega) (by omega) (by omega), hhead,
    ← eq_tailByte hb₁.1 hb₁.2 (by omega), ← eq_tailByte hb.1 hb.2 (by omega)]

theorem encode_extend_four (hk : k < 5) (hlow : (if k = 0 then 0x90 else 0x80) ≤ b₁)
    (hhigh : b₁ ≤ if k = 4 then 0x8F else 0xBF) (hb₂ : 0x80 ≤ b₂ ∧ b₂ ≤ 0xBF)
    (hb₃ : 0x80 ≤ b₃ ∧ b₃ ≤ 0xBF) :
    String.utf8EncodeChar (Char.ofNat (extend (extend (extend k b₁) b₂) b₃)) =
      [UInt8.ofNat (k + 0xF0), b₁, b₂, b₃] := by
  obtain ⟨h128, h191, hleast, hgreatest⟩ := toNat_bounds hlow hhigh (by decide) (by decide)
  have hleast' : k = 0 → 144 ≤ b₁.toNat := hleast
  have hgreatest' : k = 4 → b₁.toNat ≤ 143 := hgreatest
  have hb₁ : 0x80 ≤ b₁ ∧ b₁ ≤ 0xBF :=
    ⟨UInt8.le_iff_toNat_le.2 h128, UInt8.le_iff_toNat_le.2 h191⟩
  unfold extend
  have hhead : (((k * 64 + b₁.toNat % 64) * 64 + b₂.toNat % 64) * 64 + b₃.toNat % 64) /
      262144 % 0x08 = k := by omega
  rw [utf8EncodeChar_four (by omega) (by omega), hhead, ← eq_tailByte hb₁.1 hb₁.2 (by omega),
    ← eq_tailByte hb₂.1 hb₂.2 (by omega), ← eq_tailByte hb₃.1 hb₃.2 (by omega)]

end Numbers

theorem tails_zero_eq_some {bits : Nat} {part : Bytes} {c : Char}
    (h : tails 0 bits part = (some c, [])) : c = Char.ofNat bits ∧ part = [] := by
  rw [tails] at h
  obtain ⟨hc, rfl⟩ := Prod.mk.inj h
  exact ⟨(Option.some.inj hc).symm, rfl⟩

theorem tails_succ_eq_some {count bits : Nat} {part : Bytes} {c : Char}
    (h : tails (count + 1) bits part = (some c, [])) :
    ∃ b rest, part = b :: rest ∧ (0x80 ≤ b ∧ b ≤ 0xBF) ∧
      tails count (extend bits b) rest = (some c, []) := by
  cases part with
  | nil => cases h
  | cons b rest =>
    rw [tails] at h
    split at h
    · rename_i hb
      exact ⟨b, rest, rfl, hb, h⟩
    · cases h

/-- What is read as a character is the bytes of that character. -/
theorem encode_of_next {first : UInt8} {part : Bytes} {c : Char}
    (h : next first part = (some c, [])) : String.utf8EncodeChar c = first :: part := by
  by_cases hfirst : first < 0x80
  · unfold next at h
    rw [if_pos hfirst] at h
    obtain ⟨hc, rfl⟩ := Prod.mk.inj h
    rw [UInt8.lt_iff_toNat_lt] at hfirst
    have hsmall : first.toNat ≤ 0x7F := Nat.le_of_lt_succ hfirst
    rw [← Option.some.inj hc, utf8EncodeChar_one hsmall, UInt8.ofNat_toNat]
  cases hlead : lead? first with
  | none =>
    rw [next_of_not_lead? hfirst hlead] at h
    cases h
  | some lead =>
    rw [next_of_lead? hfirst hlead] at h
    cases part with
    | nil => cases h
    | cons second rest =>
      simp only at h
      split at h
      case isFalse => cases h
      rename_i hsecond
      obtain ⟨hlow, hhigh⟩ := hsecond
      -- one case for each number of bytes
      rcases lead?_cases hlead with ⟨k, hk, hk', rfl, rfl⟩ | ⟨k, hk, rfl, rfl⟩ | ⟨k, hk, rfl, rfl⟩
      · obtain ⟨rfl, rfl⟩ := tails_zero_eq_some h
        exact encode_extend_two hk hk' ⟨hlow, hhigh⟩
      · obtain ⟨b₂, rest, rfl, hb₂, h⟩ := tails_succ_eq_some h
        obtain ⟨rfl, rfl⟩ := tails_zero_eq_some h
        exact encode_extend_three hk hlow hhigh hb₂
      · obtain ⟨b₂, rest, rfl, hb₂, h⟩ := tails_succ_eq_some h
        obtain ⟨b₃, rest, rfl, hb₃, h⟩ := tails_succ_eq_some h
        obtain ⟨rfl, rfl⟩ := tails_zero_eq_some h
        exact encode_extend_four hk hlow hhigh hb₂ hb₃

/-! ## What is broken off -/

/-- Some character begins with these bytes. -/
def BeginsChar (part : Bytes) : Prop := ∃ c, part <+: String.utf8EncodeChar c

theorem exists_tails_replicate (count bits : Nat) :
    ∃ c, tails count bits (List.replicate count 0x80) = (some c, []) := by
  induction count generalizing bits with
  | zero => exact ⟨_, rfl⟩
  | succ count ih =>
    obtain ⟨c, hc⟩ := ih (extend bits 0x80)
    refine ⟨c, ?_⟩
    rw [List.replicate_succ, tails, if_pos (by decide), hc]

/-- The bytes of a character that broke off can be made up to a character. -/
theorem exists_tails_append {count bits : Nat} {bytes part : Bytes}
    (hnone : (tails count bits bytes).1 = none)
    (hsplit : bytes = part ++ (tails count bits bytes).2) :
    ∃ more c, tails count bits (part ++ more) = (some c, []) := by
  induction count generalizing bits bytes part with
  | zero => cases hnone
  | succ count ih =>
    cases part with
    | nil =>
      obtain ⟨c, hc⟩ := exists_tails_replicate (count + 1) bits
      exact ⟨_, c, hc⟩
    | cons b part =>
      rw [List.cons_append] at hsplit
      obtain ⟨rest, rfl⟩ : ∃ rest, bytes = b :: rest := ⟨_, hsplit⟩
      rw [tails] at hnone hsplit
      split at hnone
      · rename_i hb
        rw [if_pos hb] at hsplit
        obtain ⟨more, c, hc⟩ := ih hnone (List.cons.inj hsplit).2
        exact ⟨more, c, by rw [List.cons_append, tails, if_pos hb, hc]⟩
      · rename_i hb
        rw [if_neg hb] at hsplit
        have hlength := congrArg List.length hsplit
        simp only [List.length_cons, List.length_append] at hlength
        omega

section Broken

variable {first : UInt8} {rest part : Bytes}

/-- What is broken off after more than one byte is the beginning of a
character. -/
theorem beginsChar_of_next (hnone : (next first rest).1 = none)
    (hsplit : rest = part ++ (next first rest).2) (hpart : part ≠ []) :
    BeginsChar (first :: part) := by
  have htaken : (next first rest).2 ≠ rest := by
    intro heq
    rw [heq] at hsplit
    exact hpart (List.self_eq_append_left.1 hsplit)
  by_cases hfirst : first < 0x80
  · unfold next at hnone
    rw [if_pos hfirst] at hnone
    cases hnone
  cases hlead : lead? first with
  | none =>
    rw [next_of_not_lead? hfirst hlead] at htaken
    exact absurd rfl htaken
  | some lead =>
    have hread := next_of_lead? hfirst hlead
    obtain ⟨second, tail, rfl⟩ := List.exists_cons_of_ne_nil hpart
    obtain ⟨more, rfl⟩ : ∃ more, rest = second :: more := ⟨_, hsplit⟩
    rw [hread] at hnone hsplit htaken
    simp only at hnone hsplit htaken
    split at hnone
    · rename_i hsecond
      rw [if_pos hsecond] at hsplit
      obtain ⟨completion, c, hc⟩ := exists_tails_append hnone (List.cons.inj hsplit).2
      have hchar : next first (second :: tail ++ completion) = (some c, []) := by
        rw [hread, List.cons_append]
        simp only
        rw [if_pos hsecond, hc]
      refine ⟨c, completion, ?_⟩
      rw [encode_of_next hchar, List.cons_append]
    · rename_i hsecond
      rw [if_neg hsecond] at htaken
      exact absurd rfl htaken

/-- No character is there where reading breaks off. -/
theorem not_encode_prefix_of_next (hnone : (next first rest).1 = none) (c : Char) :
    ¬ String.utf8EncodeChar c <+: first :: rest := by
  rintro ⟨more, hmore⟩
  obtain ⟨head, tail, hbytes, hnext⟩ := next_utf8EncodeChar c
  rw [hbytes, List.cons_append] at hmore
  obtain ⟨rfl, rfl⟩ := List.cons.inj hmore
  rw [hnext] at hnone
  cases hnone

/-- No character begins with more bytes than those that are broken off. -/
theorem length_le_of_beginsChar (hdecides : Decides (next first) rest part)
    (hnone : (next first rest).1 = none) {longer : Bytes} (hlonger : longer <+: first :: rest)
    (hbegins : BeginsChar longer) : longer.length ≤ (first :: part).length := by
  refine Nat.le_of_not_lt fun hlength => ?_
  obtain ⟨c, hc⟩ := hbegins
  have hpart : first :: part <+: first :: rest :=
    ⟨(next first rest).2, by rw [List.cons_append, ← hdecides.split]⟩
  obtain ⟨more, rfl⟩ := List.prefix_of_prefix_length_le hpart hlonger (by omega)
  cases more with
  | nil => exact absurd hlength (by simp)
  | cons b more =>
    -- the byte that breaks this character off stands inside another one
    obtain ⟨after, hafter⟩ := hlonger
    obtain ⟨others, hothers⟩ := hc
    obtain ⟨head, tail, hbytes, hnext⟩ := next_utf8EncodeChar c
    rw [hbytes] at hothers
    simp only [List.cons_append, List.append_assoc, List.cons.injEq] at hothers hafter
    obtain ⟨rfl, rfl⟩ := hothers
    have hstop : (next first rest).2 = b :: (more ++ after) :=
      List.append_cancel_left (hdecides.split.symm.trans hafter.2.symm)
    have hbroken := hdecides.broken hnone b (more ++ others) (Or.inr (by rw [hstop]; rfl))
    have hwhole := hnext []
    rw [List.append_nil] at hwhole
    cases hwhole.symm.trans hbroken

end Broken

/-! ## The rule -/

/-- What stands for bytes: a character for its own bytes, and one `none` for a
piece that is replaced.  A piece goes as far as a character can begin with it,
and is one byte where no character begins. -/
inductive Replaced : Bytes → List (Option Char) → Prop where
  | nil : Replaced [] []
  | char (c : Char) {rest : Bytes} {parts : List (Option Char)} (h : Replaced rest parts) :
      Replaced (String.utf8EncodeChar c ++ rest) (some c :: parts)
  | piece {part rest : Bytes} {parts : List (Option Char)} (hne : part ≠ [])
      (hnone : ∀ c, ¬ String.utf8EncodeChar c <+: part ++ rest)
      (hbegins : BeginsChar part ∨ part.length = 1)
      (hlongest : ∀ longer, longer <+: part ++ rest → BeginsChar longer →
        longer.length ≤ part.length)
      (h : Replaced rest parts) : Replaced (part ++ rest) (none :: parts)

theorem replaced_scan (bytes : Bytes) : Replaced bytes (scan bytes) := by
  -- on the length, because a character takes more than one byte off
  induction hlength : bytes.length using Nat.strongRecOn generalizing bytes with
  | ind n ih =>
    cases bytes with
    | nil =>
      rw [scan_nil]
      exact Replaced.nil
    | cons first rest =>
      have hlt : (next first rest).2.length < n :=
        hlength ▸ Nat.lt_succ_of_le (length_next_le first rest)
      have hrest := ih _ hlt _ rfl
      obtain ⟨part, hpart⟩ := exists_decides_next first rest
      have hbytes : first :: rest = (first :: part) ++ (next first rest).2 := by
        rw [List.cons_append, ← hpart.split]
      rw [scan_cons]
      cases hread : (next first rest).1 with
      | some c =>
        have hwhole := hpart.whole c hread []
        rw [List.append_nil] at hwhole
        rw [hbytes, ← encode_of_next hwhole]
        exact Replaced.char c hrest
      | none =>
        rw [hbytes]
        refine Replaced.piece (List.cons_ne_nil _ _) ?_ ?_ ?_ hrest
        · rw [← hbytes]
          exact not_encode_prefix_of_next hread
        · by_cases hone : part = []
          · exact Or.inr (by rw [hone]; rfl)
          · exact Or.inl (beginsChar_of_next hread hpart.split hone)
        · rw [← hbytes]
          exact fun longer => length_le_of_beginsChar hpart hread

/-- The rule leaves no choice. -/
theorem Replaced.eq_scan {bytes : Bytes} {parts : List (Option Char)} (h : Replaced bytes parts) :
    parts = scan bytes := by
  induction h with
  | nil => rw [scan_nil]
  | char c _ ih =>
    obtain ⟨first, tail, hbytes, hnext⟩ := next_utf8EncodeChar c
    rw [hbytes, List.cons_append, scan_cons, hnext, ih]
  | @piece part rest parts hne hnone hbegins hlongest _ ih =>
    obtain ⟨first, tail, rfl⟩ := List.exists_cons_of_ne_nil hne
    obtain ⟨taken, htaken⟩ := exists_decides_next first (tail ++ rest)
    rw [List.cons_append] at hnone hlongest ⊢
    have hbytes : first :: (tail ++ rest) = (first :: taken) ++ (next first (tail ++ rest)).2 := by
      rw [List.cons_append, ← htaken.split]
    have hread : (next first (tail ++ rest)).1 = none := by
      cases hchar : (next first (tail ++ rest)).1 with
      | none => rfl
      | some c =>
        have hwhole := htaken.whole c hchar []
        rw [List.append_nil] at hwhole
        refine absurd ?_ (hnone c)
        rw [hbytes, encode_of_next hwhole]
        exact List.prefix_append _ _
    have hle : (first :: taken).length ≤ (first :: tail).length := by
      by_cases hone : taken = []
      · rw [hone]
        exact Nat.succ_le_succ (Nat.zero_le _)
      · refine hlongest _ ?_ (beginsChar_of_next hread htaken.split hone)
        rw [hbytes]
        exact List.prefix_append _ _
    have hge : (first :: tail).length ≤ (first :: taken).length := by
      rcases hbegins with hbegins | hone
      · exact length_le_of_beginsChar htaken hread (List.prefix_append (first :: tail) rest) hbegins
      · rw [hone]
        exact Nat.succ_le_succ (Nat.zero_le _)
    obtain ⟨-, hrest⟩ := List.append_inj htaken.split
      (Nat.succ.inj (Nat.le_antisymm hge hle))
    rw [scan_cons, hread, ← hrest, ih]

/-- Bytes are replaced as the rule has it, and in no other way. -/
theorem replaced_iff {bytes : Bytes} {parts : List (Option Char)} :
    Replaced bytes parts ↔ parts = scan bytes :=
  ⟨Replaced.eq_scan, fun h => h ▸ replaced_scan bytes⟩

end HeadUnitLink.Utf8
