import TreeCluster.Text.Quoted
import TreeCluster.Transport.Backoff
import TreeCluster.Transport.Connection
import TreeCluster.Transport.PeerSet

/-! # Sockets

A socket has one of four roles.  Publishers and receivers listen, senders and subscribers dial;
publishers and senders write, subscribers and receivers read.

`Socket.send` queues a message on every connection.  A publisher skips those whose queue is full
and always succeeds; a sender that could queue it nowhere gives the last reason
(`Socket.verdict`). -/

namespace TreeCluster

open Connection

/-- What a socket is for. -/
inductive Role where
  | publisher
  | subscriber
  | sender
  | receiver
  deriving DecidableEq

namespace Role

/-- Every role. -/
def all : List Role :=
  [publisher, subscriber, sender, receiver]

/-- The lower-case name. -/
def text : Role → String
  | publisher => "publisher"
  | subscriber => "subscriber"
  | sender => "sender"
  | receiver => "receiver"

/-- The name of the type of sockets with the role. -/
def label : Role → String
  | publisher => "Publisher"
  | subscriber => "Subscriber"
  | sender => "Sender"
  | receiver => "Receiver"

end Role

/-- The limits of a socket. -/
structure SocketOptions where
  /-- The longest message that is read. -/
  maxFrameBytes : Nat := Wire.defaultMaxFrameBytes
  /-- How many received messages wait to be taken. -/
  inboundCapacity : Nat := 1024
  /-- How many messages wait on each connection to be written. -/
  outboundCapacity : Nat := 256
  /-- A connection on which writing stalls this long is dropped. -/
  writeTimeout : Duration := .ofMillis 10000

/-- A socket with its connections. -/
structure Socket where
  role : Role
  options : SocketOptions
  /-- Where the socket listens, or did so before it was closed. -/
  localAddress : Option NodeAddress
  /-- Whether connections are accepted. -/
  listening : Bool
  peers : PeerSet
  /-- What the bytes of a message must start with for it to be taken. -/
  filter : Bytes
  readers : List Reader
  writers : List Writer
  /-- Writers of dropped connections, which finish what is queued. -/
  draining : List Writer
  inbox : Inbox
  closed : Bool

namespace Socket

/-- A socket without connections. -/
def new (role : Role) (options : SocketOptions) : Socket :=
  ⟨role, options, none, false, .empty, [], [], [], [], ⟨max options.inboundCapacity 1, []⟩, false⟩

/-- Makes a peer current; also says whether it was not before. -/
def addPeer (s : Socket) (peer : NodeAddress) : Socket × Bool :=
  let (peers, added) := s.peers.add peer
  ({ s with peers }, added)

/-- Makes a current peer stale; also says whether it was current. -/
def removePeer (s : Socket) (peer : NodeAddress) : Socket × Bool :=
  let (peers, removed) := s.peers.markStale peer
  ({ s with peers }, removed)

/-- Takes only messages whose bytes start in a certain way. -/
def subscribe (s : Socket) (filter : Bytes) : Socket :=
  { s with filter }

/-- Whether there is a live connection to an endpoint that was dialled. -/
def isConnected (s : Socket) (key : String) : Bool :=
  match s.role with
  | .subscriber => s.readers.any fun r => r.key = key && !r.finished
  | _ => s.writers.any fun w => w.key = key && !w.stopped

/-- Ends the connections to an endpoint: readers at once, writers when their queues are empty. -/
def dropConnection (s : Socket) (key : String) : Socket :=
  let (dropped, writers) := s.writers.partition fun w => w.key = key
  { s with
    readers := s.readers.filter fun r => r.key ≠ key
    writers
    draining := s.draining ++ dropped }

/-- Ends the connections to stale peers and forgets those peers. -/
def dropStale (s : Socket) : Socket :=
  let (peers, stale) := s.peers.takeStale
  stale.foldl (fun s peer => s.dropConnection peer.endpoint) { s with peers }

/-- Ends the connections to stale peers, or all connections and all peers. -/
def disconnect (s : Socket) (everything : Bool) : Socket :=
  if everything then
    let s := { s with peers := s.peers.markAllStale }.dropStale
    { s with readers := [], writers := [], draining := s.draining ++ s.writers }
  else s.dropStale

/-- Starts to write to the other end of a connection. -/
def attachWriter (s : Socket) (key : String) (connection : Nat) : Socket :=
  let w : Writer := ⟨key, connection, max s.options.outboundCapacity 1, [], [], .zero, false⟩
  { s with writers := s.writers.filter (fun w => !w.stopped) ++ [w] }

/-- Starts to read from the other end of a connection, in place of an earlier one. -/
def attachReader (s : Socket) (key : String) (connection : Nat) : Socket :=
  let r : Reader := ⟨key, connection, .new s.options.maxFrameBytes, none, false⟩
  { s with readers := s.readers.filter (fun r => !r.finished && r.key ≠ key) ++ [r] }

/-- Takes over a connection that was dialled. -/
def attachDialled (s : Socket) (key : String) (connection : Nat) : Socket :=
  match s.role with
  | .subscriber => s.attachReader key connection
  | _ => s.attachWriter key connection

/-- Takes over a connection that was accepted. -/
def attachAccepted (s : Socket) (key : String) (connection : Nat) : Socket :=
  match s.role with
  | .publisher => s.attachWriter key connection
  | _ => s.attachReader key connection

/-- Listens at an address, in place of an earlier one. -/
def listenAt (s : Socket) (address : NodeAddress) : Socket :=
  { s with localAddress := some address, listening := true }

/-- Ends every connection and accepts no more. -/
def close (s : Socket) : Socket :=
  if s.closed then s
  else { s with listening := false, readers := [], writers := [], closed := true }

/-! ### Sending -/

/-- What came of queueing a message on every connection. -/
structure Sent where
  /-- The writers that were not found stopped. -/
  writers : List Writer
  queued : Nat
  /-- Why the last one of those that refused did so. -/
  refusal : Option TransportError

/-- Queues an encoded message on every writer.  A publisher gives no reason for a full queue. -/
def queueAll (role : Role) (frame : Bytes) (writers : List Writer) : Sent :=
  writers.foldl (fun sent w =>
    match w.offer frame with
    | .queued w => { sent with writers := sent.writers ++ [w], queued := sent.queued + 1 }
    | .full =>
      { sent with
        writers := sent.writers ++ [w]
        refusal := if role = .publisher then sent.refusal else some (.backlogged w.key) }
    | .stopped => { sent with refusal := some (.connectionLost w.key) }) ⟨[], 0, none⟩

/-- The answer to the sender of a message. -/
def verdict (role : Role) (sent : Sent) : Except TransportError Nat :=
  match sent.refusal with
  | some e => if sent.queued = 0 ∧ role ≠ .publisher then .error e else .ok sent.queued
  | none => .ok sent.queued

/-- Queues a message on every connection; the answer is their number. -/
def send (s : Socket) (m : Message) : Socket × Except TransportError Nat :=
  if s.closed then (s, .error .closed)
  else if m.state = .localOnly then (s, .error .localOnly)
  else if s.role = .publisher ∧ s.localAddress.isNone then (s, .error .notBound)
  else if s.writers.isEmpty then
    (s, if s.role = .publisher then .ok 0 else .error .noPeers)
  else
    let sent := queueAll s.role (Wire.encode m) s.writers
    ({ s with writers := sent.writers }, verdict s.role sent)

/-! ### Text -/

/-- The name, host and port of a peer. -/
def peerText (a : NodeAddress) : String :=
  "NodeAddress \x7b name: " ++ Text.Quoted.quoted a.name ++
    ", host: " ++ Text.Quoted.quoted a.host ++
    ", port: " ++ Text.Decimal.text a.port.toNat ++ " \x7d"

/-- A list of peers. -/
def peersText (peers : List NodeAddress) : String :=
  "[" ++ ", ".intercalate (peers.map peerText) ++ "]"

/-- The one-line form of a socket. -/
def text (s : Socket) : String :=
  let place := match s.localAddress with
    | none => "None"
    | some a => "Some(" ++ a.endpoint ++ ")"
  s.role.label ++ " \x7b socket: Socket \x7b role: " ++ s.role.label ++
    ", local_addr: " ++ place ++
    ", peers: PeerSet \x7b current: " ++ peersText s.peers.current ++
    ", stale: " ++ peersText s.peers.stale ++
    " \x7d, closed: " ++ (if s.closed then "true" else "false") ++ " \x7d \x7d"

end Socket
end TreeCluster
