import TreeCluster.Transport.Backoff
import TreeCluster.Transport.Call
import TreeCluster.Transport.Socket

/-! # Calls on a socket that wait

Listening waits for a place, connecting for peers to answer, and receiving for a message.

`Socket.connect` first ends the connections to stale peers.  Then it dials every current peer to
which there is no connection, in their order.  If some do not answer, it gives the first of these
errors after all have been tried and reports the others.

A pump forwards what a socket receives to a looper.  It ends when there is nothing more to come
from the socket, or when the looper takes no more; any other error is reported (`Pump`). -/

namespace TreeCluster

namespace Socket

/-- Listens at an address, or at any port if the port is 0; gives where. -/
def bind (address : NodeAddress) : Call Socket (Except TransportError NodeAddress) :=
  .look fun s =>
    if s.closed then .done (.error .closed)
    else .listen address fun
      | none => .done (.error .io)
      | some place => .change (·.listenAt place) (.done (.ok place))

/-- Dials those of `targets` that are not connected.  So far `made` connections were made, and
`failed` is the first error. -/
def dialAll (made : Nat) (failed : Option TransportError) :
    List NodeAddress → Call Socket (Except TransportError Nat)
  | [] =>
    match failed with
    | some e => .done (.error e)
    | none => .done (.ok made)
  | peer :: rest =>
    .look fun s =>
      if s.isConnected peer.endpoint then dialAll made failed rest
      else .dial peer fun
        | some connection =>
          .change (·.attachDialled peer.endpoint connection) (dialAll (made + 1) failed rest)
        | none =>
          let e := TransportError.connect peer.text
          match failed with
          | none => dialAll made (some e) rest
          | some _ => .look fun s => .report s.role.text e.message (dialAll made failed rest)

/-- Connects to the current peers; gives the number of new connections. -/
def connect : Call Socket (Except TransportError Nat) :=
  .look fun s =>
    if s.closed then .done (.error .closed)
    else .change dropStale (.look fun s => dialAll 0 none s.peers.current)

/-- Connects as often as it takes, within limits. -/
def connectWithRetry (policy : Backoff) : Call Socket (Except TransportError Nat) :=
  policy.retryWith (fun _ => connect) fun time => .sleep time (.done ())

/-- Whether a received message is wanted. -/
def wants (s : Socket) (m : Connection.Inbound) : Bool :=
  s.filter.isPrefixOf m.raw

/-- Drops the oldest messages that are not wanted. -/
def skipUnwanted (s : Socket) : Socket :=
  { s with inbox := s.inbox.skip s.wants }

/-- Waits for a wanted message and takes it, or for the socket to be closed. -/
def awaitWanted : Call Socket (Except TransportError Message) :=
  .await skipUnwanted (fun s => s.closed || !s.inbox.queue.isEmpty) (.look fun s =>
    match s.closed, s.inbox.queue with
    | false, m :: _ => .change (fun s => { s with inbox := s.inbox.pop }) (.done (.ok m.message))
    | _, _ => .done (.error .closed))

/-- Takes the next wanted message. -/
def receive : Call Socket (Except TransportError Message) :=
  .look fun s =>
    if s.closed then .done (.error .closed)
    else if s.role = .receiver ∧ s.localAddress.isNone then .done (.error .notBound)
    else awaitWanted

end Socket

namespace Pump

/-- What a pump does next. -/
inductive Act where
  | push (m : Message)
  | report (context : String) (e : TransportError)
  | stop
  deriving DecidableEq

/-- What a pump does with what it received. -/
def afterReceive : Except TransportError Message → Act
  | .ok m => .push m
  | .error .closed => .stop
  | .error .notBound => .stop
  | .error e => .report "pump recv" e

/-- Whether a pump goes on after a push. -/
def goesOn : Except LooperError Unit → Bool
  | .ok () => true
  | .error _ => false

end Pump
end TreeCluster
