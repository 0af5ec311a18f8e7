/-!
# Byte strings and 32-bit words

A byte string is a list of bytes.  Numbers of more than one byte travel in
big-endian order: the most significant byte comes first.

* `Word.toBytes` and `Word.ofBytes` are the two directions for one word.
* `Word.leading?` reads the word at the start of a byte string.
* `sizeModulus` is the number of distinct sizes a 64-bit counter can hold.
-/

namespace HeadUnitLink

/-- A byte string, first byte first. -/
abbrev Bytes := List UInt8

/-- Sizes are counted in 64-bit words, so a sum of sizes is taken modulo this
number. -/
def sizeModulus : Nat := 0x10000000000000000

namespace Word

/-- The four bytes of a word, most significant first. -/
def toBytes (w : UInt32) : Bytes :=
  [UInt8.ofNat (w.toNat / 0x1000000), UInt8.ofNat (w.toNat / 0x10000),
    UInt8.ofNat (w.toNat / 0x100), UInt8.ofNat w.toNat]

/-- The word with these four bytes, most significant first. -/
def ofBytes (b₃ b₂ b₁ b₀ : UInt8) : UInt32 :=
  UInt32.ofNat (b₃.toNat * 0x1000000 + b₂.toNat * 0x10000 + b₁.toNat * 0x100 + b₀.toNat)

/-- The word in the first four bytes, and the bytes after it. -/
def split? : Bytes → Option (UInt32 × Bytes)
  | b₃ :: b₂ :: b₁ :: b₀ :: rest => some (ofBytes b₃ b₂ b₁ b₀, rest)
  | _ => none

/-- The word in the first four bytes, if there are four. -/
def leading? (bytes : Bytes) : Option UInt32 :=
  (split? bytes).map Prod.fst

theorem length_toBytes (w : UInt32) : (toBytes w).length = 4 := rfl

/-- Reading the bytes of a word gives the word. -/
theorem split?_toBytes_append (w : UInt32) (rest : Bytes) :
    split? (toBytes w ++ rest) = some (w, rest) := by
  have hw := w.toNat_lt
  simp only [toBytes, List.cons_append, List.nil_append, split?, ofBytes, UInt8.toNat_ofNat',
    Option.some.injEq, Prod.mk.injEq, and_true]
  apply UInt32.toNat.inj
  rw [UInt32.toNat_ofNat']
  omega

/-- Writing the word that four bytes hold gives the bytes. -/
theorem toBytes_ofBytes (b₃ b₂ b₁ b₀ : UInt8) :
    toBytes (ofBytes b₃ b₂ b₁ b₀) = [b₃, b₂, b₁, b₀] := by
  have h₃ := b₃.toNat_lt
  have h₂ := b₂.toNat_lt
  have h₁ := b₁.toNat_lt
  have h₀ := b₀.toNat_lt
  simp only [toBytes, ofBytes, UInt32.toNat_ofNat', List.cons.injEq, and_true]
  refine ⟨?_, ?_, ?_, ?_⟩ <;>
  · apply UInt8.toNat.inj
    rw [UInt8.toNat_ofNat']
    omega

end Word

end HeadUnitLink
