import TreeCluster.Host.Numeric
import TreeCluster.Looper.Rule
import TreeCluster.Looper.Run
import TreeCluster.Node

/-! # Hosts

A host runs sockets and nodes under names.  They share a sink, and the host gives out the ports.
A dial is answered by the socket that listens at the address (`Host.dial`), unless the host keeps
its sockets apart from each other.  What is written on a connection lies on its wire until the
other end reads it.

A host is a test world: it stands in for the network and lets sockets and nodes act in one fixed
order, so that calls on them can be tried.  The theorems about sockets and nodes are not about hosts
but about events in any order: those on one connection (`Link`), on the connections of one socket
(`Crowd`) and on the calls and tasks of one socket (`Teardown`). -/

namespace TreeCluster

/-- A plain client: it writes on a connection, and may stay when it has nothing more to write. -/
structure Client where
  writer : Connection.Writer
  stays : Bool

/-- A pump at work, with the looper that it feeds. -/
structure Forwarding where
  machine : Looper.Machine Looper.Heard
  /-- The task that pushes the message that was received last. -/
  pushing : Option TaskId
  ended : Bool

/-- Which socket of a host: one that stands alone, or the one of a node's role. -/
structure SocketId where
  owner : String
  part : Option Role
  deriving DecidableEq

/-- The sockets and nodes of a host. -/
structure Host where
  /-- Whether the sockets can reach each other. -/
  connected : Bool
  sockets : Table String Socket
  nodes : Table String ClusterNode
  clients : List Client
  /-- The bytes that were written on each connection and are not read. -/
  wires : Table Nat Bytes
  /-- The pumps, under the names of their sockets. -/
  pumps : Table String Forwarding
  sink : Sink
  /-- This port and the next one are free. -/
  freePort : UInt16

namespace Host

/-- The first port that is given out. -/
def firstPort : UInt16 := 53917

/-- A host that runs nothing. -/
def empty (connected : Bool) : Host :=
  ⟨connected, .empty, .empty, [], .empty, .empty, .empty, firstPort⟩

/-- The address of the host itself. -/
def loopback : String :=
  "127.0.0.1"

/-- Stands for every address of the host. -/
def everywhere : String :=
  "0.0.0.0"

/-- Takes down an error that nobody waits for. -/
def report (h : Host) (context message : String) : Host :=
  { h with sink := h.sink.report context message }

/-! ### Sockets -/

/-- Every socket, those of the nodes included. -/
def socketIds (h : Host) : List SocketId :=
  h.sockets.keys.map (⟨·, none⟩) ++
    h.nodes.keys.flatMap fun name => Role.all.map fun role => ⟨name, some role⟩

/-- The socket with an identity. -/
def socket? (h : Host) (id : SocketId) : Option Socket :=
  match id.part with
  | none => h.sockets.get? id.owner
  | some role => (h.nodes.get? id.owner).map (·.socket role)

/-- The host after a change of a socket. -/
def modifySocket (h : Host) (id : SocketId) (f : Socket → Socket) : Host :=
  match id.part with
  | none =>
    match h.sockets.get? id.owner with
    | none => h
    | some s => { h with sockets := h.sockets.insert id.owner (f s) }
  | some role =>
    match h.nodes.get? id.owner with
    | none => h
    | some n => { h with nodes := h.nodes.insert id.owner (n.setSocket role (f (n.socket role))) }

/-- The sockets themselves. -/
def allSockets (h : Host) : List Socket :=
  h.socketIds.filterMap h.socket?

/-- The address at which a socket that listens somewhere is dialled. -/
def addressOf? (h : Host) (name : String) : Option NodeAddress :=
  (h.sockets.get? name).bind fun s => s.localAddress.map fun a => ⟨name, loopback, a.port⟩

/-! ### Places to listen at -/

/-- The host with its free ports given out. -/
def takePorts (h : Host) : Host :=
  { h with freePort := h.freePort + 2 }

/-- The host's own address that is meant by a name or by numbers: that of `localhost`, one that
starts with the byte 127, or the one that stands for all. -/
def ownHost? (host : String) : Option String :=
  if host.toLower = "localhost" then some loopback
  else
    (Numeric.address? host).bind fun address =>
      if address = 0 ∨ address / 0x1000000 = 127 then some (Numeric.dotted address) else none

/-- Whether two places to listen at have an address in common. -/
def overlap (a b : NodeAddress) : Bool :=
  a.port = b.port && (a.host = b.host || a.host = everywhere || b.host = everywhere)

/-- The socket that listens at a place, at least in part. -/
def listener? (h : Host) (place : NodeAddress) : Option SocketId :=
  h.socketIds.find? fun id =>
    (h.socket? id).any fun s => s.listening && s.localAddress.any (overlap place)

/-- Finds a place to listen at for a socket that asks for an address. -/
def listen (address : NodeAddress) (h : Host) : Host × Option NodeAddress :=
  match ownHost? address.host with
  | none => (h, none)
  | some host =>
    let place := { address with host }
    if place.port = 0 then (h.takePorts, some { place with port := h.freePort })
    else if (h.listener? place).isSome then (h, none)
    else (h, some place)

/-! ### Connections -/

/-- The bytes on the wire of a connection. -/
def wire (h : Host) (connection : Nat) : Bytes :=
  (h.wires.get? connection).getD []

/-- The host with other bytes on the wire of a connection. -/
def setWire (h : Host) (connection : Nat) (bytes : Bytes) : Host :=
  { h with wires := h.wires.insert connection bytes }

/-- The socket that answers at an address.  Who dials every address of the host reaches the
host itself. -/
def answerer? (h : Host) (peer : NodeAddress) : Option SocketId :=
  (ownHost? peer.host).bind fun host =>
    h.listener? { peer with host := if host = everywhere then loopback else host }

/-- Dials an address.  The socket that listens there takes over the other end of the connection;
it knows the caller by the port that the host gave out for the dial. -/
def dial (peer : NodeAddress) (h : Host) : Host × Option Nat :=
  match if h.connected then h.answerer? peer else none with
  | none => (h, none)
  | some id =>
    let connection := h.wires.size
    let key := (⟨"", loopback, h.freePort⟩ : NodeAddress).endpoint
    ((h.takePorts.setWire connection []).modifySocket id (·.attachAccepted key connection),
      some connection)

/-- Whether somebody is at the reading end of a connection. -/
def isRead (h : Host) (connection : Nat) : Bool :=
  h.clients.any (fun c => c.writer.connection = connection) ||
    h.allSockets.any fun s => s.readers.any fun r => r.connection = connection && !r.finished

/-- Whether somebody is at the writing end of a connection. -/
def isWritten (h : Host) (connection : Nat) : Bool :=
  h.clients.any (fun c => c.writer.connection = connection) ||
    h.allSockets.any fun s =>
      (s.writers ++ s.draining).any fun w => w.connection = connection && !w.stopped

end Host
end TreeCluster
