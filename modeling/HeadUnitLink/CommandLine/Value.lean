import HeadUnitLink.Bytes

/-!
# Values of options

How the text of an argument is read as a number, a path or a word.  Numbers
are written in decimal digits; zeros in front of them do not count.
-/

namespace HeadUnitLink.Value

/-- The number that digits stand for; there has to be one. -/
def digitsValue? (digits : List Char) : Option Nat :=
  if digits ≠ [] ∧ digits.all Char.isDigit then
    some (digits.foldl (fun n c => n * 10 + (c.toNat - '0'.toNat)) 0)
  else none

/-- Reads a count below `modulus`, with or without a plus sign. -/
def count? (modulus : Nat) (text : String) : Option Nat :=
  let value :=
    match text.toList with
    | '+' :: digits => digitsValue? digits
    | digits => digitsValue? digits
  value.filter (· < modulus)

/-- Reads a byte between two bounds.  Any sign may stand before it. -/
def byteWithin? (low high : Nat) (text : String) : Option UInt8 :=
  let value :=
    match text.toList with
    | '-' :: digits => (digitsValue? digits).filter (· = 0)
    | _ => count? sizeModulus text
  (value.filter fun n => low ≤ n && n ≤ high).map UInt8.ofNat

/-- Reads a path, which cannot be empty. -/
def path? (text : String) : Option String := if text = "" then none else some text

/-- Reads one of some words. -/
def word? (words : List String) (text : String) : Option String :=
  words.find? (· = text)

end HeadUnitLink.Value
