import TreeCluster.Path
import TreeCluster.Transport.Waiting

/-! # Cluster nodes

A node publishes to its children at its own port and receives from them at the next one.  Towards
its leader it subscribes to the leader's publisher and sends to the leader's receiver. -/

namespace TreeCluster

/-- A member of a cluster with its four sockets. -/
structure ClusterNode where
  path : NodePath
  address : NodeAddress
  /-- Where the node's receiver listens. -/
  receiveAt : NodeAddress
  leader : Option NodeAddress
  publisher : Socket
  receiver : Socket
  subscriber : Socket
  sender : Socket
  policy : Backoff

namespace ClusterNode

/-- A node at a path; `fresh` names it if its path does not. -/
def new (fresh : String) (path : NodePath) (config : TransportConfig) :
    Except ClusterError ClusterNode := do
  config.validate.mapError ClusterError.config
  let address ← (path.node fresh).mapError ClusterError.address
  let receiveAt ← address.receiverAddress.mapError ClusterError.address
  let options : SocketOptions := { maxFrameBytes := config.maxFrameBytes.toNat }
  let filter := Text.Utf8.encode config.subscribeFilter
  return {
    path, address, receiveAt
    leader := none
    publisher := .new .publisher options
    receiver := .new .receiver options
    subscriber := (Socket.new .subscriber options).subscribe filter
    sender := .new .sender options
    policy := config.reconnect.policy }

/-- A call of a node. -/
abbrev NodeCall (α : Type) := Call ClusterNode (Except ClusterError α)

/-- The socket of a role. -/
def socket (n : ClusterNode) : Role → Socket
  | .publisher => n.publisher
  | .subscriber => n.subscriber
  | .sender => n.sender
  | .receiver => n.receiver

/-- The node with another socket in a role. -/
def setSocket (n : ClusterNode) (role : Role) (s : Socket) : ClusterNode :=
  match role with
  | .publisher => { n with publisher := s }
  | .subscriber => { n with subscriber := s }
  | .sender => { n with sender := s }
  | .receiver => { n with receiver := s }

@[simp] theorem socket_setSocket_self (n : ClusterNode) (role : Role) (s : Socket) :
    (n.setSocket role s).socket role = s := by
  cases role <;> rfl

/-- A call on the socket of a role. -/
def on {α : Type} (role : Role) : Call Socket α → Call ClusterNode α :=
  .within (·.socket role) fun s n => n.setSocket role s

/-- Goes on after a call on a socket unless it failed. -/
def andThen {α β : Type} (call : Call ClusterNode (Except TransportError α))
    (next : α → NodeCall β) : NodeCall β :=
  call.bind fun
    | .error e => .done (.error (.transport e))
    | .ok a => next a

/-- Listens with both sockets; gives where. -/
def bind : NodeCall (NodeAddress × NodeAddress) :=
  .look fun n =>
    andThen (on .publisher (Socket.bind n.address)) fun publish =>
      andThen (on .receiver (Socket.bind n.receiveAt)) fun receive => .done (.ok (publish, receive))

/-- The node with another leader: the peers of the previous one become stale, and those of the
new one current. -/
def replaceLeader (n : ClusterNode) (leader receiver : NodeAddress) : ClusterNode :=
  let n :=
    match n.leader with
    | none => n
    | some previous =>
      if previous = leader then n
      else
        let sender :=
          match previous.receiverAddress with
          | .ok address => (n.sender.removePeer address).1
          | .error _ => n.sender
        { n with subscriber := (n.subscriber.removePeer previous).1, sender }
  { n with
    leader := some leader
    subscriber := (n.subscriber.addPeer leader).1
    sender := (n.sender.addPeer receiver).1 }

/-- Points leader traffic at the last node of a path; `fresh` names it if the path does not. -/
def setLeader (fresh : String) (path : NodePath) : NodeCall Unit :=
  match path.node fresh with
  | .error e => .done (.error (.address e))
  | .ok leader =>
    match leader.receiverAddress with
    | .error e => .done (.error (.address e))
    | .ok receiver =>
      .change (·.replaceLeader leader receiver) (.look fun n =>
        andThen (on .subscriber (Socket.connectWithRetry n.policy)) fun _ =>
          andThen (on .sender (Socket.connectWithRetry n.policy)) fun _ => .done (.ok ()))

/-- Listens with both sockets, and then connects to the leader that the path names, if any. -/
def join (fresh : String) : NodeCall Unit :=
  bind.bind fun
    | .error e => .done (.error e)
    | .ok _ => .look fun n =>
      match n.path.leader with
      | none => .done (.ok ())
      | some path => setLeader fresh path

/-- Forgets the leader and ends its connections. -/
def clearLeader (n : ClusterNode) : ClusterNode :=
  { n with
    leader := none
    subscriber := n.subscriber.disconnect true
    sender := n.sender.disconnect true }

/-- Sends a message to the leader. -/
def sendToLeader (n : ClusterNode) (m : Message) : ClusterNode × Except TransportError Nat :=
  if n.leader.isNone then (n, .error .noPeers)
  else
    let (sender, r) := n.sender.send m
    ({ n with sender }, r)

/-- Sends a message to every child. -/
def broadcast (n : ClusterNode) (m : Message) : ClusterNode × Except TransportError Nat :=
  let (publisher, r) := n.publisher.send m
  ({ n with publisher }, r)

/-- Takes the next message of the leader. -/
def receiveFromLeader : Call ClusterNode (Except TransportError Message) :=
  .look fun n =>
    if n.leader.isNone then .done (.error .noPeers) else on .subscriber Socket.receive

/-- Takes the next message of a child. -/
def receiveFromChildren : Call ClusterNode (Except TransportError Message) :=
  on .receiver Socket.receive

/-- Closes the four sockets. -/
def close (n : ClusterNode) : ClusterNode :=
  { n with
    publisher := n.publisher.close
    receiver := n.receiver.close
    subscriber := n.subscriber.close
    sender := n.sender.close }

end ClusterNode
end TreeCluster
