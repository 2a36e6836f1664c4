import TreeCluster.Transport.Backoff
import TreeCluster.Wire.Codec

/-! # Configuration

The settings of a node, in four sections, with a value for each that is used unless another one
is given.  `validate` checks the bounds of each section and reports the first that is violated. -/

namespace TreeCluster

open Text

/-- A setting out of its bounds. -/
structure ConfigError where
  field : String
  reason : String
  deriving DecidableEq

/-- The sentence that reports the error. -/
def ConfigError.message (e : ConfigError) : String :=
  "invalid value for " ++ e.field ++ ": " ++ e.reason

/-- Settings of the placement tree. -/
structure TreeConfig where
  fanOut : UInt64 := 5
  deriving DecidableEq

/-- Settings of the message looper. -/
structure LooperConfig where
  mailboxCapacity : UInt64 := 256
  deriving DecidableEq

/-- Settings for dialling lost peers, in milliseconds. -/
structure ReconnectConfig where
  maxRetries : UInt32 := 5
  baseDelayMs : UInt64 := 500
  maxDelayMs : UInt64 := 30000
  deriving DecidableEq

/-- Settings of the sockets. -/
structure TransportConfig where
  maxFrameBytes : UInt64 := UInt64.ofNat Wire.defaultMaxFrameBytes
  /-- The bytes that a message must start with to be received by a subscriber. -/
  subscribeFilter : String := ""
  reconnect : ReconnectConfig := {}
  deriving DecidableEq

/-- Settings of the log. -/
structure LogConfig where
  level : String := "info"
  json : Bool := false
  deriving DecidableEq

/-- All settings. -/
structure ClusterConfig where
  tree : TreeConfig := {}
  looper : LooperConfig := {}
  transport : TransportConfig := {}
  log : LogConfig := {}
  deriving DecidableEq

/-- Accepts or refuses a setting. -/
def ensure (ok : Bool) (field reason : String) : Except ConfigError Unit :=
  if ok then .ok () else .error ⟨field, reason⟩

/-- Every node has room for a child. -/
def TreeConfig.validate (c : TreeConfig) : Except ConfigError Unit :=
  ensure (c.fanOut ≠ 0) "tree.fan_out" "must be at least 1"

/-- The mailbox has room for a message. -/
def LooperConfig.validate (c : LooperConfig) : Except ConfigError Unit :=
  ensure (c.mailboxCapacity ≠ 0) "looper.mailbox_capacity" "must be at least 1"

/-- The longest wait is not below the first one. -/
def ReconnectConfig.validate (c : ReconnectConfig) : Except ConfigError Unit :=
  ensure (c.baseDelayMs ≤ c.maxDelayMs) "transport.reconnect.max_delay_ms"
    (Decimal.text c.maxDelayMs.toNat ++ " is below base_delay_ms " ++
      Decimal.text c.baseDelayMs.toNat)

/-- The way to dial that the settings describe. -/
def ReconnectConfig.policy (c : ReconnectConfig) : Backoff :=
  ⟨c.maxRetries, .ofMillis c.baseDelayMs.toNat, .ofMillis c.maxDelayMs.toNat⟩

/-- A message without contents fits. -/
def TransportConfig.validate (c : TransportConfig) : Except ConfigError Unit := do
  ensure (Wire.preambleLength ≤ c.maxFrameBytes.toNat) "transport.max_frame_bytes"
    (Decimal.text c.maxFrameBytes.toNat ++ " cannot hold a message header")
  c.reconnect.validate

/-- A text with its ASCII capitals made small. -/
def lowered (s : String) : String :=
  String.ofList (s.toList.map Char.toLower)

/-- The levels of the log. -/
def LogConfig.levels : List String :=
  ["trace", "debug", "info", "warn", "error", "off"]

/-- The level is known; capitals do not matter. -/
def LogConfig.validate (c : LogConfig) : Except ConfigError Unit :=
  ensure (levels.contains (lowered c.level)) "log.level"
    ("unknown level '" ++ lowered c.level ++ "'")

/-- Checks the sections in order. -/
def ClusterConfig.validate (c : ClusterConfig) : Except ConfigError Unit := do
  c.tree.validate
  c.looper.validate
  c.transport.validate
  c.log.validate

end TreeCluster
