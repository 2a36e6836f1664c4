import TreeCluster.Duration
import TreeCluster.Message
import TreeCluster.Wire.FrameBuffer

/-! # Connections

One end of a connection writes and the other end reads.  The writer has a bounded queue of
encoded messages and puts them on the wire one after the other; the reader takes the stream apart
again and passes the messages on to the bounded inbox of its socket.

A writer whose queue is full or whose task has stopped takes nothing.  A reader that finds the
inbox full either drops the message or waits with it (`Reader.forward`).  A message that is not
written within a time limit ends its writer; `Writer.spent` keeps that time. -/

namespace TreeCluster.Connection

/-- The writing end of a connection. -/
structure Writer where
  /-- Who is at the other end. -/
  key : String
  /-- Which connection this is an end of. -/
  connection : Nat
  capacity : Nat
  queue : List Bytes
  /-- What is left of the message that is being written. -/
  current : Bytes
  /-- How long that message has been on its way. -/
  spent : Duration
  stopped : Bool

/-- A received message and its bytes. -/
structure Inbound where
  message : Message
  raw : Bytes

/-- Received messages, oldest first. -/
structure Inbox where
  capacity : Nat
  queue : List Inbound

/-- The reading end of a connection. -/
structure Reader where
  /-- Who is at the other end. -/
  key : String
  /-- Which connection this is an end of. -/
  connection : Nat
  buffer : Wire.FrameBuffer
  /-- A message that waits for a place in the inbox. -/
  held : Option Inbound
  finished : Bool

namespace Writer

/-- What became of a message that was offered to a writer. -/
inductive Offer where
  | queued (w : Writer)
  | full
  | stopped

/-- Queues an encoded message. -/
def offer (w : Writer) (frame : Bytes) : Offer :=
  if w.stopped then .stopped
  else if w.capacity ≤ w.queue.length then .full
  else .queued { w with queue := w.queue ++ [frame] }

/-- Takes the next message out of the queue, once the one before it is written. -/
def pull (w : Writer) : Writer :=
  match w.current, w.queue with
  | [], frame :: rest => { w with current := frame, queue := rest, spent := .zero }
  | _, _ => w

/-- Puts at most `n` bytes on the wire. -/
def write (w : Writer) (n : Nat) : Writer × Bytes :=
  let w := w.pull
  ({ w with current := w.current.drop n }, w.current.take n)

/-- Whether there is nothing left to write. -/
def isDrained (w : Writer) : Bool :=
  w.current.isEmpty && w.queue.isEmpty

/-- The bytes that are not written, in their order. -/
def stream (w : Writer) : Bytes :=
  w.current ++ w.queue.flatten

/-- A queued message comes after all that is not written. -/
theorem stream_offer {w w' : Writer} {frame : Bytes} (h : w.offer frame = .queued w') :
    w'.stream = w.stream ++ frame := by
  unfold offer at h
  split at h <;> try split at h
  all_goals simp_all
  simp [← h, stream]

@[simp] theorem stream_pull (w : Writer) : w.pull.stream = w.stream := by
  unfold pull
  split
  · next h h' => simp [stream, h, h']
  · rfl

/-- What is put on the wire is the beginning of what was not written. -/
theorem written_append_stream (w : Writer) (n : Nat) :
    (w.write n).2 ++ (w.write n).1.stream = w.stream := by
  simp only [write, stream, ← List.append_assoc, List.take_append_drop]
  exact w.stream_pull

/-- Lets time pass for the message that is being written. -/
def elapse (w : Writer) (time : Duration) : Writer :=
  if w.current.isEmpty then w else { w with spent := ⟨w.spent.nanos + time.nanos⟩ }

/-- Ends the writer's task; what is not written is lost. -/
def stop (w : Writer) : Writer :=
  { w with queue := [], current := [], stopped := true }

end Writer

namespace Inbox

/-- Whether there is no place. -/
def isFull (b : Inbox) : Bool :=
  b.capacity ≤ b.queue.length

/-- Adds a message at the end. -/
def push (b : Inbox) (m : Inbound) : Inbox :=
  { b with queue := b.queue ++ [m] }

/-- Drops the oldest messages that are not wanted, up to the first one that is. -/
def skip (b : Inbox) (wanted : Inbound → Bool) : Inbox :=
  { b with queue := b.queue.dropWhile fun m => !wanted m }

/-- The inbox without its oldest message. -/
def pop (b : Inbox) : Inbox :=
  { b with queue := b.queue.drop 1 }

end Inbox

namespace Reader

/-- What ends a stream. -/
inductive Ending where
  | endOfStream
  /-- Reading failed, for a reason that the host system gives. -/
  | failure (text : String)

/-- What a reader did in one step. -/
inductive Step where
  /-- A message left the buffer. -/
  | moved
  /-- The inbox is full. -/
  | blocked
  /-- The buffer holds no complete message. -/
  | empty
  /-- The stream cannot be read any further. -/
  | failed (e : CodecError)

/-- Passes on the next message of the buffer.  If the inbox is full, a lossy reader drops the
message and any other one waits with it. -/
def forward (r : Reader) (lossy : Bool) (inbox : Inbox) : Reader × Inbox × Step :=
  match r.held with
  | some m => if inbox.isFull then (r, inbox, .blocked) else ({ r with held := none }, inbox.push m, .moved)
  | none =>
    match r.buffer.next with
    | (.error e, buffer) => ({ r with buffer, finished := true }, inbox, .failed e)
    | (.ok none, buffer) => ({ r with buffer }, inbox, .empty)
    | (.ok (some (message, raw)), buffer) =>
      let m : Inbound := ⟨message, raw⟩
      if !inbox.isFull then ({ r with buffer }, inbox.push m, .moved)
      else if lossy then ({ r with buffer }, inbox, .moved)
      else ({ r with buffer, held := some m }, inbox, .moved)

/-- Takes bytes off the wire. -/
def receive (r : Reader) (chunk : Bytes) : Reader :=
  { r with buffer := r.buffer.extend chunk }

end Reader

/-- Why a stream is given up. -/
inductive StreamError where
  | decode (e : CodecError)
  | read (text : String)

end TreeCluster.Connection
