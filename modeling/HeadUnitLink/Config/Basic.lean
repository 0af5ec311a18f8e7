import HeadUnitLink.Wire.Frame

/-!
# The settings of an engine

Four numbers: the transport unit, the highest version to speak, the number of
workers and the largest message to accept.  `Config.fault?` finds the first of
them, in this order, that no engine can work with.
-/

namespace HeadUnitLink

/-- The settings of an engine. -/
structure Config where
  /-- The transport unit, by which the payload of a data frame is sized. -/
  mtu : Nat
  /-- The highest version that is spoken. -/
  maxVersion : UInt8
  /-- The number of workers that send frames. -/
  workers : Nat
  /-- The most bytes of a received message, and of a received payload. -/
  maxMessageSize : Nat
  deriving DecidableEq, Repr

/-- Why no engine can work with some settings. -/
inductive ConfigFault where
  /-- A transport unit that leaves no room for a payload. -/
  | mtuTooSmall (mtu : Nat)
  /-- A version without a header layout. -/
  | versionOutOfRange (version : UInt8)
  | noWorkers
  | noMessageSize
  deriving DecidableEq, Repr

/-- What is said of settings that no engine can work with. -/
def ConfigFault.message (fault : ConfigFault) : String :=
  "invalid configuration: " ++
    match fault with
    | mtuTooSmall mtu => s!"mtu must exceed the {maxHeaderSize}-byte header, got {mtu}"
    | versionOutOfRange version =>
      s!"max_version must be within {minVersion}..={maxVersion}, got {version}"
    | noWorkers => "worker_threads must be at least 1"
    | noMessageSize => "max_message_size must be positive"

namespace Config

/-- The number of workers unless another one is set. -/
def defaultWorkers : Nat := 4

/-- The largest message unless another limit is set. -/
def defaultMaxMessageSize : Nat := 16 * 1024 * 1024

/-- The settings unless others are given. -/
def default : Config :=
  { mtu := Frame.defaultMtu, maxVersion := HeadUnitLink.maxVersion, workers := defaultWorkers
    maxMessageSize := defaultMaxMessageSize }

/-- The payload that a frame has room for, whatever its version. -/
def maxDataSize (c : Config) : Nat := c.mtu - maxHeaderSize

/-- The first fault of the settings. -/
def fault? (c : Config) : Option ConfigFault :=
  if c.mtu ≤ maxHeaderSize then some (.mtuTooSmall c.mtu)
  else if c.maxVersion < minVersion ∨ HeadUnitLink.maxVersion < c.maxVersion then
    some (.versionOutOfRange c.maxVersion)
  else if c.workers = 0 then some .noWorkers
  else if c.maxMessageSize = 0 then some .noMessageSize
  else none

end Config

end HeadUnitLink
