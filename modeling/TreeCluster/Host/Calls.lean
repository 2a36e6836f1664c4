import TreeCluster.Host.Forwarding

/-! # Calls on the sockets and nodes of a host

A call on a socket or a node goes on as far as it can while nobody else acts; then everything that
it set going is delivered.

A warm-up is a message that shows whether a connection is open and is otherwise ignored
(`Host.warmUp`, `Host.pastWarmUps`).

In the test world of `Host` a call is not suspended for longer than this takes.  Calls that are
suspended at any point while others act are those of `Underway` and `Teardown`. -/

namespace TreeCluster.Host

variable {σ α : Type}

/-- The answer to those who receive. -/
abbrev Received := Except TransportError Message

/-- A host after a call that has come to its end or waits. -/
abbrev Called (σ α : Type) := Host × Call σ α

/-- How calls on a part of a host see the rest of it. -/
def surroundings (value : Host → σ) (change : (σ → σ) → Host → Host) : Surroundings σ Host where
  value
  change
  report context message h := h.report context message
  dial
  listen
  pause

/-- Goes on with a call on a socket as far as it gets; gives what is left of it. -/
def onSocket (h : Host) (name : String) (call : Call Socket α) : Option (Called Socket α) :=
  (h.sockets.get? name).map fun s =>
    let around := surroundings (fun h => (h.sockets.get? name).getD s)
      fun f h => h.modifySocket ⟨name, none⟩ f
    let (h, call) := call.run around h
    (h.deliver, call)

/-- Goes on with a call on a node as far as it gets; gives what is left of it. -/
def onNode (h : Host) (name : String) (call : Call ClusterNode α) :
    Option (Called ClusterNode α) :=
  (h.nodes.get? name).map fun n =>
    let around := surroundings (fun h => (h.nodes.get? name).getD n)
      fun f h => { h with nodes := h.nodes.insert name (f ((h.nodes.get? name).getD n)) }
    let (h, call) := call.run around h
    (h.deliver, call)

/-- Uses a socket without waiting. -/
def withSocket (h : Host) (name : String) (f : Socket → Socket × α) : Option (Host × α) :=
  (h.sockets.get? name).map fun s =>
    let (s, a) := f s
    ({ h with sockets := h.sockets.insert name s }.deliver, a)

/-- Uses a node without waiting. -/
def withNode (h : Host) (name : String) (f : ClusterNode → ClusterNode × α) :
    Option (Host × α) :=
  (h.nodes.get? name).map fun n =>
    let (n, a) := f n
    ({ h with nodes := h.nodes.insert name n }.deliver, a)

/-! ### Making sockets and nodes -/

/-- Makes a socket. -/
def create (h : Host) (name : String) (role : Role) (options : SocketOptions) : Host :=
  { h with sockets := h.sockets.insert name (.new role options) }

/-- Makes a node at a path. -/
def createNode (h : Host) (name : String) (path : NodePath) (config : TransportConfig) :
    Except ClusterError (Host × ClusterNode) :=
  (ClusterNode.new name path config).map fun n =>
    ({ h.takePorts with nodes := h.nodes.insert name n }, n)

/-- The path of a new node at free ports, below another one if that is given. -/
def newPath (h : Host) (name : String) (parent : Option ClusterNode) : NodePath :=
  let address : NodeAddress := ⟨name, loopback, h.freePort⟩
  match parent with
  | none => .root address
  | some n => n.path.child address

/-- Lets a plain client connect to a socket and write; it may stay afterwards.  There is no
host if nobody answers it. -/
def attachClient (h : Host) (name : String) (chunks : List Bytes) (stays : Bool) : Option Host := do
  let address ← h.addressOf? name
  let (h, answer) := h.dial address
  let connection ← answer
  let writer : Connection.Writer :=
    ⟨address.endpoint, connection, chunks.length, chunks, [], .zero, false⟩
  let clients := h.clients ++ [⟨writer, stays⟩]
  return ({ h with clients } : Host).deliver

/-- Lets every plain client leave. -/
def hangUp (h : Host) : Host :=
  let clients := h.clients.map fun c => { c with stays := false }
  { h with clients }.deliver

/-- Starts a pump on a socket. -/
def startPump (h : Host) (name : String) (handlers : List Looper.RuleHandler) : Host :=
  { h with pumps := h.pumps.insert name (.start handlers) }.deliver

/-- Asks the looper of a pump to stop. -/
def termPump (h : Host) (name : String) : Host :=
  match h.pumps.get? name with
  | none => h
  | some f => { h with pumps := h.pumps.insert name f.term }.deliver

/-- Whether the pump of a socket has ended. -/
def pumpHasEnded (h : Host) (name : String) : Bool :=
  (h.pumps.get? name).any (·.ended)

/-- What the handlers of all pumps heard. -/
def heard (h : Host) : List Looper.Heard :=
  h.pumps.entries.flatMap fun e => e.2.heard

/-! ### Receiving and sending -/

/-- The text of a warm-up. -/
def warmUpText : Bytes :=
  Text.Utf8.encode "__warmup__"

/-- A message that shows whether a connection is open. -/
def warmUp : Message :=
  (Message.new .undefined .probe 0).append warmUpText

/-- Receives until there is a message other than a warm-up; lets a time pass if there is none. -/
def pastWarmUps (patience : Duration) (receive : Host → Option (Called σ Received)) :
    Nat → Host → Option (Called σ Received)
  | 0, h => receive h
  | fuel + 1, h => do
    let (h, call) ← receive h
    match call.result? with
    | none => return (h.pause patience, call)
    | some (.ok m) =>
      if m.contents = [warmUpText] then pastWarmUps patience receive fuel h else return (h, call)
    | some _ => return (h, call)

/-- Receives with a socket. -/
def receive (h : Host) (name : String) (patience : Duration) : Option (Called Socket Received) :=
  pastWarmUps patience (·.onSocket name Socket.receive) (h.unsettled + 1) h

/-- Receives from the leader of a node. -/
def receiveFromLeader (h : Host) (name : String) (patience : Duration) :
    Option (Called ClusterNode Received) :=
  pastWarmUps patience (·.onNode name ClusterNode.receiveFromLeader) (h.unsettled + 1) h

/-- Receives from the children of a node. -/
def receiveFromChildren (h : Host) (name : String) (patience : Duration) :
    Option (Called ClusterNode Received) :=
  pastWarmUps patience (·.onNode name ClusterNode.receiveFromChildren) (h.unsettled + 1) h

/-- Closes a socket while a call waits to receive from it; gives what is left of that call. -/
def closeWaiting (h : Host) (name : String) : Option (Called Socket Received) := do
  let (h, waiting) ← h.onSocket name Socket.receive
  let (h, ()) ← h.withSocket name fun s => (s.close, ())
  h.onSocket name waiting

/-- Sends a message every two milliseconds, at most so many times, until the host or the answer is
as it should be. -/
def sendUntil (name : String) (m : Message) (enough : Host → Except TransportError Nat → Bool) :
    Nat → Host → Option (Host × Except TransportError Nat)
  | 0, h => h.withSocket name (·.send m)
  | times + 1, h => do
    let (h, answer) ← h.withSocket name (·.send m)
    if enough h answer then return (h, answer)
    else sendUntil name m enough times (h.pause (.ofMillis 2))

end TreeCluster.Host
