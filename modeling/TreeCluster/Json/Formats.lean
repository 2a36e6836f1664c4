import TreeCluster.Json.Reader
import TreeCluster.Json.Value
import TreeCluster.Replay

/-! # Addresses, messages and logs as JSON

How addresses, the actions and states of messages, and replay logs are written and read. -/

namespace TreeCluster

open Json

/-- The JSON value of an address. -/
def NodeAddress.toJson (a : NodeAddress) : Value :=
  .object [("name", .string a.name), ("host", .string a.host), ("port", .number a.port.toNat)]

/-- How an address is read. -/
def NodeAddress.format : Record NodeAddress where
  name := "NodeAddress"
  fields := [
    .of "name" true readString fun a name => { a with name },
    .of "host" true readString fun a host => { a with host },
    .of "port" true readUInt16 fun a port => { a with port }]
  blank := ⟨"", "", 0⟩

/-- How an action is read. -/
def Action.read : Reader Action :=
  readVariant (Action.all.map fun a => (a.label, a))

/-- How a state is read. -/
def State.read : Reader State :=
  readVariant (State.all.map fun s => (s.label, s))

/-- The JSON value of an entry. -/
def ReplayEntry.toJson (e : ReplayEntry) : Value :=
  .object [("action", .string e.action.text), ("path", .string e.path.text)]

/-- How the kind of a change is read. -/
def ReplayAction.read : Reader ReplayAction :=
  readVariant (ReplayAction.all.map fun a => (a.text, a))

/-- How a path is read: any text is one. -/
def NodePath.read : Reader NodePath := fun text =>
  (readString text).map fun (s, after) => (⟨s⟩, after)

/-- How an entry is read. -/
def ReplayEntry.format : Record ReplayEntry where
  name := "ReplayEntry"
  fields := [
    .of "action" true ReplayAction.read fun e action => { e with action },
    .of "path" true NodePath.read fun e path => { e with path }]
  blank := ⟨.clean, ⟨""⟩⟩

/-- The JSON value of a log. -/
def ReplayLog.toJson (log : ReplayLog) : Value :=
  .object [("entries", .array (log.entries.map ReplayEntry.toJson))]

/-- How a log is read. -/
def ReplayLog.format : Record ReplayLog where
  name := "MemoryReplayLog"
  fields := [
    .of "entries" true (readList ReplayEntry.format.read) fun log entries => { log with entries }]
  blank := .empty

end TreeCluster
