import TreeCluster.Host
import TreeCluster.Transport.ReadTask

/-! # Traffic between the sockets of a host

In a round of traffic every writer puts on its wire what there is room for, and every reader takes
what lies there, as long as its inbox has room.  A reader whose wire is empty and has nobody at
its other end has come to the end of the stream.

`Host.unsettled` weighs what is under way: a byte weighs less after each stage that it passes.

Rounds are the order in which the test world of `Host` lets the two ends of a connection act.  What
each end does when it acts is the same for any order (`Writer.write`, `ReadTask.goOn`); events on a
connection in any order are those of `Link`. -/

namespace TreeCluster

/-- Changes the items of a list one after the other, and with each of them a state that the step
before it left. -/
def inTurn {σ α β : Type} (f : σ → α → σ × β) : σ → List α → σ × List β
  | s, [] => (s, [])
  | s, a :: rest =>
    let (s, b) := f s a
    let (s, later) := inTurn f s rest
    (s, b :: later)

namespace Host

open Connection

/-- The most bytes that lie on a wire. -/
def wireCapacity : Nat :=
  0x10000

/-- Lets a writer put on its wire what there is room for. -/
def fillWire (h : Host) (w : Writer) : Host × Writer :=
  let onWire := h.wire w.connection
  let (w, written) := w.write (wireCapacity - onWire.length)
  (h.setWire w.connection (onWire ++ written), w)

/-- Lets a writer go on.  It stops when it finds that nobody is at the other end. -/
def advanceWriter (role : Role) (h : Host) (w : Writer) : Host × Writer :=
  if w.stopped || w.isDrained then (h, w)
  else if h.isRead w.connection then h.fillWire w
  else (h.report (role.text ++ " write to " ++ w.key) TransportError.io.message, w.stop)

/-- Lets a reader go on.  If it waits for bytes, it takes what lies on its wire; one that waits for
a place in the inbox leaves that there. -/
def advanceReader (role : Role) (around : Host × Inbox) (r : Reader) : (Host × Inbox) × Reader :=
  let (h, inbox) := around
  if r.finished then ((h, inbox), r)
  else
    let wire := h.wire r.connection
    let reading := r.held.isNone
    let (h, unread) :=
      if reading && !wire.isEmpty then (h.setWire r.connection [], [wire]) else (h, [])
    let atEnd := (h.wire r.connection).isEmpty && !h.isWritten r.connection
    let task : ReadTask :=
      { role, reader := r, reading, unread, ending := if atEnd then some .endOfStream else none,
        inbox, sink := h.sink }
    let task := task.goOn (wire.length + r.buffer.pending + 4)
    (({ h with sink := task.sink }, task.inbox), task.reader)

/-- Lets the writers of a socket go on.  Those of dropped connections end when all is written. -/
def writeFrom (h : Host) (id : SocketId) : Host :=
  match h.socket? id with
  | none => h
  | some s =>
    let (h, writers) := inTurn (advanceWriter s.role) h s.writers
    let (h, draining) := inTurn (advanceWriter s.role) h s.draining
    let draining := draining.filter fun w => !w.stopped && !w.isDrained
    h.modifySocket id fun s => { s with writers, draining }

/-- Lets the plain clients go on.  Those that do not stay leave when all is written. -/
def writeFromClients (h : Host) : Host :=
  let (h, clients) := inTurn (fun h c =>
    let (h, writer) := h.fillWire c.writer
    (h, { c with writer })) h h.clients
  { h with clients := clients.filter fun c => c.stays || !c.writer.isDrained }

/-- Lets the readers of a socket go on. -/
def readInto (h : Host) (id : SocketId) : Host :=
  match h.socket? id with
  | none => h
  | some s =>
    let ((h, inbox), readers) := inTurn (advanceReader s.role) (h, s.inbox) s.readers
    h.modifySocket id fun s => { s with inbox, readers }

/-- A round of traffic. -/
def exchange (h : Host) : Host :=
  h.socketIds.foldl readInto (h.socketIds.foldl writeFrom h.writeFromClients)

/-- The sum of a number for each item. -/
def total {α : Type} (f : α → Nat) (l : List α) : Nat :=
  l.foldr (fun a n => f a + n) 0

/-- What is under way on a socket. -/
def weight (s : Socket) : Nat :=
  3 * total (·.stream.length) (s.writers ++ s.draining) +
    total (fun r => r.buffer.pending + if r.held.isSome then 2 else 0) s.readers +
    s.inbox.queue.length

/-- What is under way on the host. -/
def unsettled (h : Host) : Nat :=
  3 * total (·.writer.stream.length) h.clients + total weight h.allSockets +
    2 * total (·.2.length) h.wires.entries

/-- Lets time pass for a writer that cannot go on; one that waits too long stops. -/
def delayWriter (time : Duration) (s : Socket) (h : Host) (w : Writer) : Host × Writer :=
  let w := w.elapse time
  if w.stopped || w.current.isEmpty || w.spent.nanos < s.options.writeTimeout.nanos then (h, w)
  else (h.report s.role.text (TransportError.writeTimeout w.key s.options.writeTimeout).message,
    w.stop)

/-- Lets time pass for the writers of a socket. -/
def delay (time : Duration) (h : Host) (id : SocketId) : Host :=
  match h.socket? id with
  | none => h
  | some s =>
    let (h, writers) := inTurn (delayWriter time s) h s.writers
    let (h, draining) := inTurn (delayWriter time s) h s.draining
    h.modifySocket id fun s => { s with writers, draining }

end Host
end TreeCluster
