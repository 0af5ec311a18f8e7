import HeadUnitLink.Text.Hex

/-!
# Compact JSON text

Strings are quoted with as few escapes as JSON allows: the quote, the
backslash and the characters below the blank.  Five of the latter have a short
form and the others are numbered with four lower-case digits.
-/

namespace HeadUnitLink.JsonText

/-- A character as it stands between quotes. -/
def escape (c : Char) : List Char :=
  if c = '"' then ['\\', '"']
  else if c = '\\' then ['\\', '\\']
  else if c = Char.ofNat 8 then ['\\', 'b']
  else if c = Char.ofNat 12 then ['\\', 'f']
  else if c = '\n' then ['\\', 'n']
  else if c = '\r' then ['\\', 'r']
  else if c = '\t' then ['\\', 't']
  else if c.toNat < 32 then
    ['\\', 'u', '0', '0', Hex.digit (c.toNat / 16), Hex.digit (c.toNat % 16)]
  else [c]

/-- A text between quotes. -/
def quote (text : String) : String :=
  "\"" ++ String.ofList (text.toList.flatMap escape) ++ "\""

/-- A value without parts. -/
inductive Scalar where
  | count (n : Nat)
  | text (content : String)
  | flag (b : Bool)
  deriving DecidableEq, Repr

/-- A value as plain text, without quotes. -/
def Scalar.plain : Scalar → String
  | count n => toString n
  | text content => content
  | flag true => "true"
  | flag false => "false"

/-- The text of a value. -/
def Scalar.render : Scalar → String
  | text content => quote content
  | value => value.plain

/-- An object with these members, in this order, on one line. -/
def object (members : List (String × Scalar)) : String :=
  "\x7b" ++
    ",".intercalate (members.map fun (name, value) => quote name ++ ":" ++ value.render) ++
    "\x7d"

end HeadUnitLink.JsonText
