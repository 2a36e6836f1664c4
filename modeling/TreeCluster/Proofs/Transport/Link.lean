import TreeCluster.Proofs.Transport.Ends
import TreeCluster.Proofs.Transport.Receiving
import TreeCluster.Proofs.Transport.Sending
import TreeCluster.Proofs.Wire.RoundTrip

/-! # A connection between two sockets

A `Link` is a connection from a socket that writes to one that reads, together with the bytes that
are on the wire, the calls to receive that are under way, and what has happened so far: which
messages were queued on this connection, which of those in the inbox came over it, and which of
them calls have returned.

Everything else that happens to the two sockets is one of the `Link.Event`s too: other changes of
them, messages of other connections, and the failures that end a task.  The wire hands over the
bytes in their order, as many at a time as it likes, and perhaps never all of them. -/

namespace TreeCluster

open Connection Socket

/-- A connection from one socket to another, and what has happened on it. -/
structure Link where
  connection : ℕ
  source : Socket
  target : Socket
  /-- What was written and has not arrived. -/
  wire : Bytes
  /-- The calls to receive from the target that have not ended. -/
  calls : List (Call Socket Answer)
  /-- Whether the source has got its end of the connection. -/
  written : Bool
  /-- Whether the target has got its end of the connection. -/
  readFrom : Bool
  /-- The messages that were queued on the connection, oldest first. -/
  queued : List Message
  /-- Which messages in the target's inbox came over the connection. -/
  origins : List Bool
  /-- The messages from the connection that calls have returned, oldest first. -/
  taken : List Message

namespace Link

/-- What happens on a connection and to the sockets at its ends. -/
inductive Event where
  /-- The source gets its end of the connection. -/
  | openSource (key : String)
  /-- The target gets its end of the connection. -/
  | openTarget (key : String)
  /-- A message is sent with the source. -/
  | send (m : Message)
  /-- The writer puts at most `n` bytes on the wire. -/
  | write (n : ℕ)
  /-- The writer's task ends: writing fails or takes too long, or the task is aborted. -/
  | stopWriting
  /-- At most `n` bytes arrive at the reader. -/
  | arrive (n : ℕ)
  /-- The reader passes on one message. -/
  | forward
  /-- The reader's task ends: reading fails, or the stream has ended. -/
  | stopReading
  /-- A call to receive from the target begins. -/
  | receive
  /-- A call to receive goes on. -/
  | resume (call : ℕ)
  /-- Another connection of the target passes on a message. -/
  | elsewhere (m : Inbound)
  /-- Something else happens to the source. -/
  | atSource (change : Change)
  /-- Something else happens to the target. -/
  | atTarget (change : Change)

/-- The link of two sockets before either has its end. -/
def start (c : ℕ) (source target : Socket) : Link :=
  ⟨c, source, target, [], [], false, false, [], List.replicate target.inbox.queue.length false, []⟩

/-- Whether a message that is sent now is queued on the connection. -/
def queues (l : Link) (m : Message) : Bool :=
  (l.source.takers m).any fun w => w.connection = l.connection

/-- The writers of the connection, also when it was dropped. -/
def writers (l : Link) : List Writer :=
  l.source.writersOf l.connection ++ l.source.drainingOf l.connection

/-- The reader of the connection that still reads. -/
def reader? (l : Link) : Option Reader :=
  (l.target.readersOf l.connection).find? fun r => !r.finished

/-- The link after the reader has passed on a message or kept it. -/
def forward (l : Link) (r : Reader) : Link :=
  match r.forward (l.target.role = .subscriber) l.target.inbox with
  | (r', inbox, _) =>
    { l with
      target := { l.target.mapReaders l.connection fun _ => r' with inbox }
      origins := l.origins ++
        List.replicate (inbox.queue.length - l.target.inbox.queue.length) true }

/-- The link after a call to receive has gone on. -/
def resume (l : Link) (i : ℕ) (call : Call Socket Answer) : Link :=
  match call.settle ⟨l.target, .empty⟩ with
  | (scene, call) =>
    let removed := l.target.inbox.queue.length - scene.value.inbox.queue.length
    let l' := { l with target := scene.value, origins := l.origins.drop removed }
    match call.result? with
    | none => { l' with calls := l.calls.set i call }
    | some (.error _) => { l' with calls := l.calls.eraseIdx i }
    | some (.ok m) =>
      { l' with
        calls := l.calls.eraseIdx i
        taken := if l.origins[removed - 1]? = some true then l.taken ++ [m] else l.taken }

/-- The link after an event. -/
def apply (l : Link) : Event → Link
  | .openSource key =>
    if l.written then l
    else { l with source := l.source.attachWriter key l.connection, written := true }
  | .openTarget key =>
    if l.readFrom then l
    else { l with target := l.target.attachReader key l.connection, readFrom := true }
  | .send m =>
    { l with
      source := (l.source.send m).1
      queued := if l.queues m then l.queued ++ [m] else l.queued }
  | .write n =>
    { l with
      source := l.source.mapWriters l.connection fun w => (w.write n).1
      wire := l.wire ++ l.writers.flatMap fun w => (w.write n).2 }
  | .stopWriting => { l with source := l.source.mapWriters l.connection Writer.stop }
  | .arrive n =>
    match l.reader? with
    | none => l
    | some _ =>
      { l with
        target := l.target.mapReaders l.connection (·.receive (l.wire.take n))
        wire := l.wire.drop n }
  | .forward =>
    match l.reader? with
    | none => l
    | some r => l.forward r
  | .stopReading =>
    { l with target := l.target.mapReaders l.connection fun r => { r with finished := true } }
  | .receive => { l with calls := l.calls ++ [Socket.receive] }
  | .resume i =>
    match l.calls[i]? with
    | none => l
    | some call => l.resume i call
  | .elsewhere m =>
    if l.target.inbox.isFull then l
    else
      { l with
        target := { l.target with inbox := l.target.inbox.push m }
        origins := l.origins ++ [false] }
  | .atSource change => { l with source := l.source.change change }
  | .atTarget change => { l with target := l.target.change change }

/-- The link after some events. -/
def run (l : Link) (events : List Event) : Link :=
  events.foldl apply l

/-- What is sent can be written down, and another connection has another number. -/
def Event.Regular (c : ℕ) : Event → Prop
  | .send m => Wire.Fits m
  | .atSource change => change.Spares c
  | .atTarget change => change.Spares c
  | _ => True

end Link
end TreeCluster
