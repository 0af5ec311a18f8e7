import HeadUnitLink.Text.Utf8

/-!
# UTF-8 is read back

`Utf8.next_utf8EncodeChar` says that the bytes of a character are read as the
character, whatever follows them.  Texts follow character by character, so
reading with replacements is the identity on UTF-8: `Utf8.decodeLossy_toUTF8`.
-/

namespace HeadUnitLink.Utf8

/-! ## Scanning in order -/

theorem scanOnto_eq (done : List (Option Char)) (bytes : Bytes) :
    scanOnto done bytes = scanOnto [] bytes ++ done := by
  -- on the length, because a character takes more than one byte off
  induction hlength : bytes.length using Nat.strongRecOn generalizing done bytes with
  | ind n ih =>
    cases bytes with
    | nil => rw [scanOnto, scanOnto, List.nil_append]
    | cons first rest =>
      have hlt : (next first rest).2.length < n :=
        hlength ▸ Nat.lt_succ_of_le (length_next_le first rest)
      rw [scanOnto, scanOnto, ih _ hlt (_ :: done) _ rfl, ih _ hlt [_] _ rfl, List.append_assoc,
        List.singleton_append]

theorem scan_nil : scan [] = [] := by
  rw [scan, scanOnto, List.reverse_nil]

theorem scan_cons (first : UInt8) (rest : Bytes) :
    scan (first :: rest) = (next first rest).1 :: scan (next first rest).2 := by
  rw [scan, scanOnto, scanOnto_eq, List.reverse_append]
  rfl

/-! ## The bytes of one character -/

/-- A byte of a character after the first, with six bits of a number. -/
def tailByte (n : Nat) : UInt8 := UInt8.ofNat (n % 64 + 0x80)

theorem toNat_tailByte (n : Nat) : (tailByte n).toNat = n % 64 + 0x80 := by
  unfold tailByte
  rw [UInt8.toNat_ofNat']
  omega

theorem extend_tailByte (bits n : Nat) : extend bits (tailByte n) = bits * 64 + n % 64 := by
  unfold extend
  rw [toNat_tailByte]
  omega

theorem tails_tailByte (count bits n : Nat) (rest : Bytes) :
    tails (count + 1) bits (tailByte n :: rest) = tails count (bits * 64 + n % 64) rest := by
  have hlow : 0x80 ≤ tailByte n := by
    rw [UInt8.le_iff_toNat_le, toNat_tailByte]
    exact Nat.le_add_left _ _
  have hhigh : tailByte n ≤ 0xBF := by
    rw [UInt8.le_iff_toNat_le, toNat_tailByte]
    show _ ≤ 191
    omega
  rw [tails, if_pos ⟨hlow, hhigh⟩, extend_tailByte]

theorem lead?_two : ∀ k < 32, 2 ≤ k → lead? (UInt8.ofNat (k + 0xC0)) = some ⟨0x80, 0xBF, 0, k⟩ := by
  decide

theorem lead?_three : ∀ k < 16, lead? (UInt8.ofNat (k + 0xE0)) =
    some ⟨if k = 0 then 0xA0 else 0x80, if k = 13 then 0x9F else 0xBF, 1, k⟩ := by
  decide

theorem lead?_four : ∀ k < 5, lead? (UInt8.ofNat (k + 0xF0)) =
    some ⟨if k = 0 then 0x90 else 0x80, if k = 4 then 0x8F else 0xBF, 2, k⟩ := by
  decide

/-- A first byte and a second within the bounds that it sets. -/
theorem next_of_lead {first : UInt8} {lead : Lead} (hfirst : 0x80 ≤ first)
    (hlead : lead? first = some lead) {n : Nat} (hlow : lead.low.toNat ≤ n % 64 + 0x80)
    (hhigh : n % 64 + 0x80 ≤ lead.high.toNat) (rest : Bytes) :
    next first (tailByte n :: rest) = tails lead.tails (lead.bits * 64 + n % 64) rest := by
  unfold next
  rw [if_neg (UInt8.not_lt.2 hfirst), hlead]
  simp only [UInt8.le_iff_toNat_le, toNat_tailByte, extend_tailByte]
  rw [if_pos ⟨hlow, hhigh⟩]

section Lengths

variable {n : Nat}

theorem next_one (h : n ≤ 0x7F) (rest : Bytes) :
    next (UInt8.ofNat n) rest = (some (Char.ofNat n), rest) := by
  have hfirst : (UInt8.ofNat n).toNat = n := by
    rw [UInt8.toNat_ofNat']
    omega
  have hlt : UInt8.ofNat n < 0x80 := by
    rw [UInt8.lt_iff_toNat_lt, hfirst]
    exact Nat.lt_succ_of_le h
  unfold next
  rw [if_pos hlt, hfirst]

/-- A byte from 0x80 on is no character of its own. -/
theorem le_ofNat_of_le {m : Nat} (hlow : 0x80 ≤ m) (hhigh : m < 0x100) :
    0x80 ≤ UInt8.ofNat m := by
  rw [UInt8.le_iff_toNat_le, UInt8.toNat_ofNat', Nat.mod_eq_of_lt hhigh]
  exact hlow

theorem next_two (hlow : 0x7F < n) (hhigh : n ≤ 0x7FF) (rest : Bytes) :
    next (UInt8.ofNat (n / 64 % 0x20 + 0xC0)) (tailByte n :: rest) =
      (some (Char.ofNat n), rest) := by
  have hnumber : n / 64 % 0x20 * 64 + n % 64 = n := by omega
  rw [next_of_lead (le_ofNat_of_le (by omega) (by omega))
    (lead?_two (n / 64 % 0x20) (by omega) (by omega)), tails, hnumber]
  · exact Nat.le_add_left _ _
  · show _ ≤ 191
    omega

/-- Three bytes hold neither a shorter character nor half of a surrogate pair. -/
theorem next_three (hlow : 0x7FF < n) (hhigh : n ≤ 0xFFFF) (hvalid : n < 0xD800 ∨ 0xDFFF < n)
    (rest : Bytes) :
    next (UInt8.ofNat (n / 4096 % 0x10 + 0xE0)) (tailByte (n / 64) :: tailByte n :: rest) =
      (some (Char.ofNat n), rest) := by
  have hnumber : (n / 4096 % 0x10 * 64 + n / 64 % 64) * 64 + n % 64 = n := by omega
  rw [next_of_lead (le_ofNat_of_le (by omega) (by omega))
    (lead?_three (n / 4096 % 0x10) (by omega)), tails_tailByte, tails, hnumber]
  · dsimp only
    split
    · show 160 ≤ _
      omega
    · exact Nat.le_add_left _ _
  · dsimp only
    split
    · show _ ≤ 159
      omega
    · show _ ≤ 191
      omega

/-- Four bytes hold neither a shorter character nor a number that is too large. -/
theorem next_four (hlow : 0xFFFF < n) (hhigh : n < 0x110000) (rest : Bytes) :
    next (UInt8.ofNat (n / 262144 % 0x08 + 0xF0))
        (tailByte (n / 4096) :: tailByte (n / 64) :: tailByte n :: rest) =
      (some (Char.ofNat n), rest) := by
  have hnumber : ((n / 262144 % 0x08 * 64 + n / 4096 % 64) * 64 + n / 64 % 64) * 64 + n % 64 = n := by
    omega
  rw [next_of_lead (le_ofNat_of_le (by omega) (by omega))
    (lead?_four (n / 262144 % 0x08) (by omega)), tails_tailByte, tails_tailByte, tails, hnumber]
  · dsimp only
    split
    · show 144 ≤ _
      omega
    · exact Nat.le_add_left _ _
  · dsimp only
    split
    · show _ ≤ 143
      omega
    · show _ ≤ 191
      omega

end Lengths

/-- The bytes of a character are read as the character, whatever follows. -/
theorem next_utf8EncodeChar (c : Char) : ∃ first tail, String.utf8EncodeChar c = first :: tail ∧
    ∀ rest, next first (tail ++ rest) = (some c, rest) := by
  have hvalid : c.toNat < 0xD800 ∨ 0xDFFF < c.toNat ∧ c.toNat < 0x110000 := c.valid
  have hchar : Char.ofNat c.toNat = c := Char.ofNat_toNat c
  rw [← hchar]
  generalize hn : c.toNat = n at hvalid
  have hval : (Char.ofNat n).val.toNat = n := by rw [← hn, hchar]; rfl
  unfold String.utf8EncodeChar
  simp only [hval]
  -- one case for each length, as the bytes are written
  by_cases hone : n ≤ 0x7F
  · rw [if_pos hone]
    exact ⟨_, _, rfl, next_one hone⟩
  · rw [if_neg hone]
    by_cases htwo : n ≤ 0x7FF
    · rw [if_pos htwo]
      exact ⟨_, _, rfl, next_two (by omega) htwo⟩
    · rw [if_neg htwo]
      by_cases hthree : n ≤ 0xFFFF
      · rw [if_pos hthree]
        exact ⟨_, _, rfl, next_three (by omega) hthree (by omega)⟩
      · rw [if_neg hthree]
        exact ⟨_, _, rfl, next_four (by omega) (by omega)⟩

/-! ## Texts -/

/-- The bytes of a text. -/
def encode (text : List Char) : Bytes := text.flatMap String.utf8EncodeChar

theorem scan_encode_append (text : List Char) (rest : Bytes) :
    scan (encode text ++ rest) = text.map some ++ scan rest := by
  induction text with
  | nil => rfl
  | cons c text ih =>
    obtain ⟨first, tail, hbytes, hnext⟩ := next_utf8EncodeChar c
    have hsplit : encode (c :: text) ++ rest = first :: (tail ++ (encode text ++ rest)) := by
      rw [encode, List.flatMap_cons, hbytes, List.cons_append, List.cons_append, List.append_assoc]
      rfl
    rw [hsplit, scan_cons, hnext, ih]
    rfl

theorem scan_replicate_zero (count : Nat) :
    scan (List.replicate count 0) = List.replicate count (some (Char.ofNat 0)) := by
  induction count with
  | zero => exact scan_nil
  | succ count ih =>
    rw [List.replicate_succ, scan_cons]
    exact congrArg _ ih

/-- Nothing is replaced in UTF-8, whatever follows. -/
theorem decodeLossy_encode_append (text : List Char) (rest : Bytes) :
    decodeLossy (encode text ++ rest) = text ++ decodeLossy rest := by
  unfold decodeLossy
  rw [scan_encode_append, List.map_append, List.map_map]
  exact congrArg (· ++ _) (List.map_id text)

theorem decodeLossy_encode (text : List Char) : decodeLossy (encode text) = text := by
  have hread := decodeLossy_encode_append text []
  have hnil : decodeLossy [] = [] := by rw [decodeLossy, scan_nil, List.map_nil]
  rwa [hnil, List.append_nil, List.append_nil] at hread

theorem toList_loop (bytes : ByteArray) (i : Nat) (done : List UInt8) :
    ByteArray.toList.loop bytes i done = done.reverse ++ bytes.data.toList.drop i := by
  fun_induction ByteArray.toList.loop bytes i done with
  | case1 i done hlt ih =>
    have hlength : i < bytes.data.toList.length := by simpa using hlt
    rw [ih, List.drop_eq_getElem_cons hlength]
    simp [ByteArray.get!, hlt]
  | case2 i done hge =>
    rw [List.drop_eq_nil_of_le (by simpa using Nat.le_of_not_lt hge), List.append_nil]

/-- The bytes of a string are those of its characters. -/
theorem toList_toUTF8 (text : String) : text.toUTF8.toList = encode text.toList := by
  have hbytes : text.toUTF8 = (encode text.toList).toByteArray := String.utf8Encode_toList.symm
  rw [hbytes, ByteArray.toList, toList_loop, List.reverse_nil, List.nil_append, List.drop_zero,
    List.toList_data_toByteArray]

/-- Reading with replacements is the identity on the UTF-8 of a string. -/
theorem decodeLossy_toUTF8 (text : String) : decodeLossy text.toUTF8.toList = text.toList := by
  rw [toList_toUTF8, decodeLossy_encode]

end HeadUnitLink.Utf8
