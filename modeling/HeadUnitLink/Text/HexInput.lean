import HeadUnitLink.Text.CharClass
import HeadUnitLink.Text.Hex

/-!
# Hexadecimal text from people

Digits are grouped as the writer likes: blanks and colons may stand anywhere
and do not count, and the whole may begin with `0x`.
-/

namespace HeadUnitLink.Hex

/-- The text without a leading `0x` in either case. -/
def dropMark : List Char → List Char
  | '0' :: 'x' :: rest => rest
  | '0' :: 'X' :: rest => rest
  | text => text

/-- The digits of a text that may be grouped. -/
def bareDigits (text : String) : String :=
  String.ofList
    ((dropMark (text.toList.dropWhile CharClass.isBlank)).filter fun c =>
      !CharClass.isBlank c && c ≠ ':')

/-- The bytes that a text stands for.  A fault names a position among the
digits alone. -/
def ofInput (text : String) : Except Fault Bytes :=
  decode (bareDigits text).toUTF8.toList

end HeadUnitLink.Hex
