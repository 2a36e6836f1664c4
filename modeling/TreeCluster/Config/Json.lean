import TreeCluster.Config
import TreeCluster.Error
import TreeCluster.Json.Reader
import TreeCluster.Json.Value

/-! # Settings as JSON -/

namespace TreeCluster

open Json

/-- The JSON value of a 64-bit number. -/
def number (n : UInt64) : Value :=
  .number n.toNat

/-- The JSON value of the settings of a tree. -/
def TreeConfig.toJson (c : TreeConfig) : Value :=
  .object [("fan_out", number c.fanOut)]

/-- The JSON value of the settings of a looper. -/
def LooperConfig.toJson (c : LooperConfig) : Value :=
  .object [("mailbox_capacity", number c.mailboxCapacity)]

/-- The JSON value of the settings for dialling. -/
def ReconnectConfig.toJson (c : ReconnectConfig) : Value :=
  .object [("max_retries", .number c.maxRetries.toNat), ("base_delay_ms", number c.baseDelayMs),
    ("max_delay_ms", number c.maxDelayMs)]

/-- The JSON value of the settings of sockets. -/
def TransportConfig.toJson (c : TransportConfig) : Value :=
  .object [("max_frame_bytes", number c.maxFrameBytes),
    ("subscribe_filter", .string c.subscribeFilter), ("reconnect", c.reconnect.toJson)]

/-- The JSON value of the settings of the log. -/
def LogConfig.toJson (c : LogConfig) : Value :=
  .object [("level", .string c.level), ("json", .bool c.json)]

/-- The JSON value of all settings. -/
def ClusterConfig.toJson (c : ClusterConfig) : Value :=
  .object [("tree", c.tree.toJson), ("looper", c.looper.toJson),
    ("transport", c.transport.toJson), ("log", c.log.toJson)]

/-- How the settings of a tree are read. -/
def TreeConfig.format : Record TreeConfig where
  name := "TreeConfig"
  fields := [.of "fan_out" false (readUInt64 "usize") fun c fanOut => { c with fanOut }]
  blank := {}

/-- How the settings of a looper are read. -/
def LooperConfig.format : Record LooperConfig where
  name := "LooperConfig"
  fields := [
    .of "mailbox_capacity" false (readUInt64 "usize") fun c mailboxCapacity =>
      { c with mailboxCapacity }]
  blank := {}

/-- How the settings for dialling are read. -/
def ReconnectConfig.format : Record ReconnectConfig where
  name := "ReconnectConfig"
  fields := [
    .of "max_retries" false readUInt32 fun c maxRetries => { c with maxRetries },
    .of "base_delay_ms" false (readUInt64 "u64") fun c baseDelayMs => { c with baseDelayMs },
    .of "max_delay_ms" false (readUInt64 "u64") fun c maxDelayMs => { c with maxDelayMs }]
  blank := {}

/-- How the settings of sockets are read. -/
def TransportConfig.format : Record TransportConfig where
  name := "TransportConfig"
  fields := [
    .of "max_frame_bytes" false (readUInt64 "usize") fun c maxFrameBytes =>
      { c with maxFrameBytes },
    .of "subscribe_filter" false readString fun c subscribeFilter => { c with subscribeFilter },
    .of "reconnect" false ReconnectConfig.format.read fun c reconnect => { c with reconnect }]
  blank := {}

/-- How the settings of the log are read. -/
def LogConfig.format : Record LogConfig where
  name := "LogConfig"
  fields := [
    .of "level" false readString fun c level => { c with level },
    .of "json" false readBool fun c json => { c with json }]
  blank := {}

/-- How all settings are read. -/
def ClusterConfig.format : Record ClusterConfig where
  name := "FleetConfig"
  fields := [
    .of "tree" false TreeConfig.format.read fun c tree => { c with tree },
    .of "looper" false LooperConfig.format.read fun c looper => { c with looper },
    .of "transport" false TransportConfig.format.read fun c transport => { c with transport },
    .of "log" false LogConfig.format.read fun c log => { c with log }]
  blank := {}

/-- Reads settings from a JSON text and checks them. -/
def ClusterConfig.ofJson (text : String) : Except ClusterError ClusterConfig :=
  match readAll format.read text with
  | .error e => .error (.json e)
  | .ok c =>
    match c.validate with
    | .error e => .error (.config e)
    | .ok () => .ok c

end TreeCluster
