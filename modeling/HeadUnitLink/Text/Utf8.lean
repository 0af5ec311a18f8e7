import HeadUnitLink.Bytes

/-!
# Reading UTF-8

The first byte of a character says how many bytes follow and, to keep every
character in one form only, between which bounds the second byte lies.  Each
byte after the second lies between `0x80` and `0xBF`.

`Utf8.scan` reads a byte string that may hold anything.  Where the bytes are no
character it yields `none` once for the longest start of a character that is
there, or for one byte if no character starts so.

* `Utf8.decode?` is the text, if all of it is UTF-8.
* `Utf8.decodeLossy` puts the replacement character in the place of every
  `none`.
-/

namespace HeadUnitLink.Utf8

/-- What the first byte of a longer character says. -/
structure Lead where
  /-- The least second byte. -/
  low : UInt8
  /-- The greatest second byte. -/
  high : UInt8
  /-- How many bytes follow the second. -/
  tails : Nat
  /-- The leading bits of the character. -/
  bits : Nat
  deriving DecidableEq, Repr

/-- Reads the first byte of a character of two to four bytes. -/
def lead? (b : UInt8) : Option Lead :=
  if 0xC2 ≤ b ∧ b ≤ 0xDF then some ⟨0x80, 0xBF, 0, b.toNat - 0xC0⟩
  else if b = 0xE0 then some ⟨0xA0, 0xBF, 1, 0x0⟩
  else if b = 0xED then some ⟨0x80, 0x9F, 1, 0xD⟩
  else if 0xE1 ≤ b ∧ b ≤ 0xEF then some ⟨0x80, 0xBF, 1, b.toNat - 0xE0⟩
  else if b = 0xF0 then some ⟨0x90, 0xBF, 2, 0x0⟩
  else if b = 0xF4 then some ⟨0x80, 0x8F, 2, 0x4⟩
  else if 0xF1 ≤ b ∧ b ≤ 0xF3 then some ⟨0x80, 0xBF, 2, b.toNat - 0xF0⟩
  else none

/-- Appends six bits from a later byte of a character. -/
def extend (bits : Nat) (b : UInt8) : Nat := bits * 64 + b.toNat % 64

/-- Reads `count` more bytes of a character, and what follows what was read.
The answer is `none` if the character breaks off. -/
def tails (count : Nat) (bits : Nat) (bytes : Bytes) : Option Char × Bytes :=
  match count, bytes with
  | 0, rest => (some (Char.ofNat bits), rest)
  | _ + 1, [] => (none, [])
  | count + 1, b :: rest =>
    if 0x80 ≤ b ∧ b ≤ 0xBF then tails count (extend bits b) rest else (none, b :: rest)

/-- Reads one character that starts with `first`, and what follows it. -/
def next (first : UInt8) (rest : Bytes) : Option Char × Bytes :=
  if first < 0x80 then (some (Char.ofNat first.toNat), rest)
  else
    match lead? first, rest with
    | some lead, second :: rest' =>
      if lead.low ≤ second ∧ second ≤ lead.high then
        tails lead.tails (extend lead.bits second) rest'
      else (none, rest)
    | _, _ => (none, rest)

theorem length_tails_le (count bits : Nat) (bytes : Bytes) :
    (tails count bits bytes).2.length ≤ bytes.length := by
  induction count generalizing bits bytes with
  | zero => exact Nat.le_refl _
  | succ count ih =>
    cases bytes with
    | nil => exact Nat.le_refl _
    | cons b rest =>
      rw [tails]
      split
      · exact Nat.le_succ_of_le (ih _ _)
      · exact Nat.le_refl _

/-- Reading a character leaves no more than there was. -/
theorem length_next_le (first : UInt8) (rest : Bytes) :
    (next first rest).2.length ≤ rest.length := by
  unfold next
  split
  · exact Nat.le_refl _
  · split
    · split
      · exact Nat.le_succ_of_le (length_tails_le _ _ _)
      · exact Nat.le_refl _
    · exact Nat.le_refl _

/-- Reads characters to the end and puts them, last first, onto `done`. -/
def scanOnto (done : List (Option Char)) : Bytes → List (Option Char)
  | [] => done
  | first :: rest => scanOnto ((next first rest).1 :: done) (next first rest).2
termination_by bytes => bytes.length
decreasing_by exact Nat.lt_succ_of_le (length_next_le first rest)

/-- The characters of a byte string, with `none` for each ill-formed part. -/
def scan (bytes : Bytes) : List (Option Char) := (scanOnto [] bytes).reverse

/-- What stands for an ill-formed part. -/
def replacement : Char := Char.ofNat 0xFFFD

/-- The text of a byte string, ill-formed parts replaced. -/
def decodeLossy (bytes : Bytes) : List Char :=
  (scan bytes).map fun c => c.getD replacement

/-- The text of a byte string, if it is UTF-8 throughout. -/
def decode? (bytes : Bytes) : Option (List Char) :=
  (scan bytes).mapM id

end HeadUnitLink.Utf8
