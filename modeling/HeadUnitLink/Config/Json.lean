import HeadUnitLink.Config.Basic
import HeadUnitLink.Number.DoublePrecision
import HeadUnitLink.Text.Hex

/-!
# Reading settings from JSON

Settings are written as a JSON object whose keys name them, or as a JSON array
that gives them in their order; what is left out keeps its default.

The document is read from left to right and the first fault counts.  A
document can break off (`unfinished`), break the rules of JSON (`malformed`),
or say something that is no setting (`unfit`): another type of value, a number
that does not fit, a key that is not known or comes twice.

Numbers are read as far as is needed to tell these apart.  The digits are
gathered in a 64-bit significand; once it is full, further digits only scale
it.  A literal with a fraction, an exponent or more digits than fit is no
count.  It is worked out in double precision, as the significand times or over
a power of ten, and malformed if the result lies beyond the greatest double.
-/

namespace HeadUnitLink

/-- Why a document holds no settings. -/
inductive JsonFault where
  /-- The document ends too early. -/
  | unfinished
  /-- The document is not JSON. -/
  | malformed
  /-- The document is JSON up to here, but says something that is no setting. -/
  | unfit
  deriving DecidableEq, Repr

namespace Json

/-- What reads something off the start of a document. -/
abbrev Reader (α : Type) := Bytes → Except JsonFault (α × Bytes)

/-- The code of an ASCII character. -/
def code (c : Char) : UInt8 := UInt8.ofNat c.toNat

/-- The four blanks of JSON. -/
def isBlank (b : UInt8) : Bool := b = 32 || b = 9 || b = 10 || b = 13

/-- The document after any blanks. -/
def skipBlanks (bytes : Bytes) : Bytes := bytes.dropWhile isBlank

def isDigit (b : UInt8) : Bool := 48 ≤ b && b ≤ 57

/-! ## Numbers -/

/-- Gathers digits in a significand for as long as it fits a 64-bit word: the
significand, how many digits it took and the rest. -/
def gather (significand taken : Nat) : Bytes → Nat × Nat × Bytes
  | [] => (significand, taken, [])
  | b :: rest =>
    let grown := significand * 10 + (b.toNat - 48)
    if isDigit b && grown < sizeModulus then gather grown (taken + 1) rest
    else (significand, taken, b :: rest)

/-- The largest exponent of a power of ten in double precision. -/
def maxScale : Int := 308

/-- Is a literal beyond the range of double precision?  Its significand and the
power of ten are rounded first, so the product of the two can be beyond the
range where the literal is not, and the other way round. -/
def isTooLarge (significand : Nat) (exponent : Int) : Bool :=
  significand ≠ 0 && 0 < exponent &&
    (maxScale < exponent ||
      DoublePrecision.productOverflows significand (Nat.pow 10 exponent.toNat))

/-- The end of a literal that is not a count. -/
def scaled (significand : Nat) (exponent : Int) (rest : Bytes) :
    Except JsonFault (Option Nat × Bytes) :=
  if isTooLarge significand exponent then .error .malformed else .ok (none, rest)

/-- The number that digits stand for. -/
def decimalValue (digits : Bytes) : Nat :=
  digits.foldl (fun n b => n * 10 + (b.toNat - 48)) 0

/-- The largest exponent that is told from infinity. -/
def maxExponent : Nat := 0x7fffffff

/-- Reads the exponent after its `e`. -/
def exponentPart (significand : Nat) (exponent : Int) : Reader (Option Nat) := fun bytes =>
  let (isNegative, bytes) :=
    match bytes with
    | 43 :: rest => (false, rest)
    | 45 :: rest => (true, rest)
    | _ => (false, bytes)
  let digits := bytes.takeWhile isDigit
  let rest := bytes.dropWhile isDigit
  if bytes = [] then .error .unfinished
  else if digits = [] then .error .malformed
  else
    let value := decimalValue digits
    if maxExponent < value then
      if significand ≠ 0 ∧ !isNegative then .error .malformed else .ok (none, rest)
    else scaled significand (if isNegative then exponent - value else exponent + value) rest

/-- Reads what may follow the digits of a literal that is not a count. -/
def afterDigits (significand : Nat) (exponent : Int) : Reader (Option Nat) := fun bytes =>
  match bytes with
  | 101 :: rest => exponentPart significand exponent rest
  | 69 :: rest => exponentPart significand exponent rest
  | _ => scaled significand exponent bytes

/-- Reads the fraction after its point. -/
def fractionPart (significand : Nat) (exponent : Int) : Reader (Option Nat) := fun bytes =>
  match bytes with
  | [] => .error .unfinished
  | b :: _ =>
    if isDigit b then
      let (grown, taken, rest) := gather significand 0 bytes
      afterDigits grown (exponent - taken) (rest.dropWhile isDigit)
    else .error .malformed

/-- Reads an unsigned literal: its value if it is a count, `none` for any
other number. -/
def number : Reader (Option Nat) := fun bytes =>
  match bytes with
  | [] => .error .unfinished
  | first :: after =>
    if !isDigit first then .error .malformed
    else if first = 48 ∧ (after.head?.map isDigit).getD false then .error .malformed
    else
      let (significand, _, rest) := gather 0 0 bytes
      let surplus := rest.takeWhile isDigit
      match rest.dropWhile isDigit with
      | 46 :: rest => fractionPart significand surplus.length rest
      | rest =>
        if surplus = [] ∧ rest.head? ≠ some 101 ∧ rest.head? ≠ some 69 then
          .ok (some significand, rest)
        else afterDigits significand surplus.length rest

/-! ## Strings -/

/-- Where the reading of a string stands. -/
inductive StringState where
  /-- Between characters. -/
  | plain
  /-- After a backslash. -/
  | backslash
  /-- Before the last `left` digits of a numbered character.  `high` is the
  first half of a pair, if this is the second. -/
  | numbered (left value : Nat) (high : Option Nat)
  /-- After the first half of a pair. -/
  | half (high : Nat)
  /-- After the first half of a pair and a backslash. -/
  | halfBackslash (high : Nat)

/-- The character that a letter after a backslash stands for. -/
def escaped? (b : UInt8) : Option UInt8 :=
  if b = code '"' ∨ b = code '\\' ∨ b = code '/' then some b
  else if b = code 'b' then some 8
  else if b = code 'f' then some 12
  else if b = code 'n' then some 10
  else if b = code 'r' then some 13
  else if b = code 't' then some 9
  else none

/-- The bytes of a numbered character. -/
def charBytes (n : Nat) : Bytes := String.utf8EncodeChar (Char.ofNat n)

/-- What a finished number stands for: its bytes, or the first half of a pair.
Halves in any other place are malformed. -/
def finishNumbered (value : Nat) : Option Nat → Except JsonFault (Bytes × StringState)
  | none =>
    if 0xDC00 ≤ value ∧ value ≤ 0xDFFF then .error .malformed
    else if 0xD800 ≤ value ∧ value ≤ 0xDBFF then .ok ([], .half value)
    else .ok (charBytes value, .plain)
  | some high =>
    if 0xDC00 ≤ value ∧ value ≤ 0xDFFF then
      .ok (charBytes ((high - 0xD800) * 1024 + (value - 0xDC00) + 0x10000), .plain)
    else .error .malformed

/-- Starts a numbered character; its four digits have to be there. -/
def startNumbered (high : Option Nat) (rest : Bytes) : Except JsonFault (Bytes × StringState) :=
  if (rest.drop 3).isEmpty then .error .unfinished else .ok ([], .numbered 4 0 high)

/-- What one byte of a string adds and where it leads; `rest` is what follows
it. -/
def stringStep (b : UInt8) (rest : Bytes) :
    StringState → Except JsonFault (Bytes × StringState)
  | .plain =>
    if b = code '\\' then .ok ([], .backslash)
    else if b < 32 then .error .malformed
    else .ok ([b], .plain)
  | .backslash =>
    if b = code 'u' then startNumbered none rest
    else
      match escaped? b with
      | some c => .ok ([c], .plain)
      | none => .error .malformed
  | .numbered left value high =>
    match Hex.value? b with
    | none => .error .malformed
    | some digit =>
      let value := value * 16 + digit.toNat
      if left ≤ 1 then finishNumbered value high else .ok ([], .numbered (left - 1) value high)
  | .half high => if b = code '\\' then .ok ([], .halfBackslash high) else .error .malformed
  | .halfBackslash high =>
    if b = code 'u' then startNumbered (some high) rest else .error .malformed

/-- Reads a string to its closing quote; `content` is what was read before,
last byte first. -/
def stringFrom (state : StringState) (content : Bytes) : Reader Bytes
  | [] => .error .unfinished
  | b :: rest =>
    match state, decide (b = code '"') with
    | .plain, true => .ok (content.reverse, rest)
    | _, _ =>
      match stringStep b rest state with
      | .error fault => .error fault
      | .ok (added, state) => stringFrom state (added.reverse ++ content) rest

/-- Reads a string after its opening quote. -/
def string : Reader Bytes := stringFrom .plain []

/-! ## Values -/

/-- The fault of a document that should go on with these bytes; a document
that does is unfit, as no setting is a word. -/
def wordFault : Bytes → Bytes → JsonFault
  | [], _ => .unfit
  | _ :: _, [] => .unfinished
  | e :: expected, b :: rest => if b = e then wordFault expected rest else .malformed

/-- The fault of a value that has the wrong type. -/
def valueFault (bytes : Bytes) : JsonFault :=
  let faultOf {α : Type} (r : Except JsonFault α) : JsonFault :=
    match r with
    | .error fault => fault
    | .ok _ => .unfit
  match bytes with
  | [] => .unfinished
  | b :: rest =>
    if b = code 'n' then wordFault ("ull".toList.map code) rest
    else if b = code 't' then wordFault ("rue".toList.map code) rest
    else if b = code 'f' then wordFault ("alse".toList.map code) rest
    else if b = code '-' then faultOf (number rest)
    else if isDigit b then faultOf (number bytes)
    else if b = code '"' then faultOf (string rest)
    else if b = code '[' ∨ b = code '\x7b' then .unfit
    else .malformed

/-- Reads a count of at most `bound`. -/
def count (bound : Nat) : Reader Nat := fun bytes =>
  let bytes := skipBlanks bytes
  match bytes with
  | [] => .error .unfinished
  | b :: _ =>
    if isDigit b then
      match number bytes with
      | .error fault => .error fault
      | .ok (some n, rest) => if n ≤ bound then .ok (n, rest) else .error .unfit
      | .ok (none, _) => .error .unfit
    else .error (valueFault bytes)

end Json

/-! ## Settings -/

/-- One of the settings. -/
inductive Setting where
  | mtu
  | maxVersion
  | workers
  | maxMessageSize
  deriving DecidableEq, Repr

namespace Setting

/-- The settings in the order of an array. -/
def all : List Setting := [mtu, maxVersion, workers, maxMessageSize]

/-- The key of a setting. -/
def name : Setting → String
  | mtu => "mtu"
  | maxVersion => "max_version"
  | workers => "worker_threads"
  | maxMessageSize => "max_message_size"

/-- The largest value that a setting can have. -/
def bound : Setting → Nat
  | maxVersion => 255
  | _ => sizeModulus - 1

/-- The settings with another value for this one. -/
def apply (c : Config) (value : Nat) : Setting → Config
  | mtu => { c with mtu := value }
  | maxVersion => { c with maxVersion := UInt8.ofNat value }
  | workers => { c with workers := value }
  | maxMessageSize => { c with maxMessageSize := value }

end Setting

namespace Config

open Json

/-- Reads the key of one of these settings after its opening quote. -/
def settingKey (among : List Setting) : Reader { s : Setting // s ∈ among } := fun bytes =>
  match string bytes with
  | .error fault => .error fault
  | .ok (key, rest) =>
    match h : among.find? fun s => s.name.toUTF8.toList = key with
    | none => .error .unfit
    | some s => .ok (⟨s, List.mem_of_find?_eq_some h⟩, rest)

/-- Reads the colon and the value of a setting. -/
def settingValue (s : Setting) : Reader Nat := fun bytes =>
  match skipBlanks bytes with
  | [] => .error .unfinished
  | b :: rest => if b = code ':' then count s.bound rest else .error .malformed

/-- Steps to the opening quote of the next key, or over the brace that closes
the object: the answer says whether a key follows. -/
def nextKey (isFirst : Bool) : Reader Bool := fun bytes =>
  match skipBlanks bytes with
  | [] => .error .unfinished
  | b :: rest =>
    if b = code '\x7d' then .ok (false, rest)
    else if isFirst then
      if b = code '"' then .ok (true, rest) else .error .malformed
    else if b = code ',' then
      match skipBlanks rest with
      | [] => .error .unfinished
      | b :: rest => if b = code '"' then .ok (true, rest) else .error .malformed
    else .error .malformed

/-- Reads the members of an object into the settings; `among` are those that
have not come yet. -/
def members (c : Config) (isFirst : Bool) (among : List Setting) : Reader Config := fun bytes =>
  match nextKey isFirst bytes with
  | .error fault => .error fault
  | .ok (false, rest) => .ok (c, rest)
  | .ok (true, rest) =>
    match settingKey among rest with
    | .error fault => .error fault
    | .ok (⟨s, _hs⟩, rest) =>
      match settingValue s rest with
      | .error fault => .error fault
      | .ok (value, rest) => members (s.apply c value) false (among.erase s) rest
termination_by among.length
decreasing_by
  rw [List.length_erase_of_mem _hs]
  exact Nat.sub_lt (List.length_pos_of_mem _hs) Nat.one_pos

/-- Steps over the bracket that closes an array. -/
def arrayEnd (c : Config) : Reader Config := fun bytes =>
  match skipBlanks bytes with
  | [] => .error .unfinished
  | b :: rest => if b = code ']' then .ok (c, rest) else .error .malformed

/-- Reads the elements of an array into these settings, in turn. -/
def elements (c : Config) (isFirst : Bool) : List Setting → Reader Config
  | [] => arrayEnd c
  | s :: among => fun bytes =>
    match skipBlanks bytes with
    | [] => .error .unfinished
    | b :: rest =>
      let element (bytes : Bytes) : Except JsonFault (Config × Bytes) :=
        match count s.bound bytes with
        | .error fault => .error fault
        | .ok (value, rest) => elements (s.apply c value) false among rest
      if b = code ']' then .ok (c, rest)
      else if isFirst then element (b :: rest)
      else if b = code ',' then
        if (skipBlanks rest).head? = some (code ']') then .error .malformed else element rest
      else .error .malformed

/-- Reads a whole document. -/
def ofDocument (document : Bytes) : Except JsonFault Config :=
  let read : Except JsonFault (Config × Bytes) :=
    match skipBlanks document with
    | [] => .error .unfinished
    | b :: rest =>
      if b = code '[' then elements Config.default true Setting.all rest
      else if b = code '\x7b' then members Config.default true Setting.all rest
      else .error (valueFault (b :: rest))
  match read with
  | .error fault => .error fault
  | .ok (c, rest) => if skipBlanks rest = [] then .ok c else .error .malformed

/-- Why a document gives no settings that an engine can work with. -/
inductive ReadError where
  | json (fault : JsonFault)
  | config (fault : ConfigFault)
  deriving DecidableEq, Repr

/-- What is said of a document that gives no settings. -/
def ReadError.message : ReadError → String
  | .json .unfinished => "json error: the document breaks off"
  | .json .malformed => "json error: the document is not JSON"
  | .json .unfit => "json error: the document holds something that is no setting"
  | .config fault => fault.message

/-- The settings of a document, if an engine can work with them. -/
def ofJson (document : Bytes) : Except ReadError Config :=
  match ofDocument document with
  | .error fault => .error (.json fault)
  | .ok c =>
    match c.fault? with
    | some fault => .error (.config fault)
    | none => .ok c

end Config

end HeadUnitLink
