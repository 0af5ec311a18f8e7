import HeadUnitLink.Wire.Kind

/-!
# Commands

What the program can be asked to do.
-/

namespace HeadUnitLink

/-- Where the bytes of a capture are. -/
inductive CaptureInput where
  | hex (text : String)
  | file (path : String)
  deriving DecidableEq, Repr

/-- Where the bytes of a payload are. -/
inductive PayloadInput where
  | text (content : String)
  | hex (text : String)
  | file (path : String)
  deriving DecidableEq, Repr

/-- A message to cut into frames. -/
structure FragmentRequest where
  service : Service
  session : UInt8
  version : UInt8
  payload : Option PayloadInput
  bulkFile : Option String
  mtu : Option Nat
  out : Option String
  deriving DecidableEq, Repr

/-- What the program can be asked to do. -/
inductive Command where
  /-- List the frames of a capture, or its messages. -/
  | decode (input : CaptureInput) (reassemble : Bool)
  /-- Cut a message into frames. -/
  | fragment (request : FragmentRequest)
  /-- Tell the version of the program. -/
  | version (extended : Bool)
  deriving DecidableEq, Repr

end HeadUnitLink
