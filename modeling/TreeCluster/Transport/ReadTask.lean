import TreeCluster.Error
import TreeCluster.Transport.Socket

/-! # Reading a connection

The task at the reading end of a connection reads a chunk, passes on the messages that are complete
then, and reads again.  It ends with the stream, when a read fails, or when a message is refused;
the last two are reported (`ReadTask.turn`). -/

namespace TreeCluster.Connection

namespace StreamError

/-- What was being done. -/
def context (role : Role) (peer : String) : StreamError → String
  | .decode _ => role.text ++ " decode from " ++ peer
  | .read _ => role.text ++ " read from " ++ peer

/-- What went wrong. -/
def message : StreamError → String
  | .decode e => e.message
  | .read text => text

end StreamError

/-- A task that reads a connection, with what it reads and what it works on. -/
structure ReadTask where
  role : Role
  reader : Reader
  /-- Whether the task is about to read; otherwise it goes through its buffer. -/
  reading : Bool
  /-- What will be read, chunk by chunk. -/
  unread : List Bytes
  /-- What comes behind the chunks, once it is known. -/
  ending : Option Reader.Ending
  inbox : Inbox
  sink : Sink

namespace ReadTask

/-- Ends the task with a report. -/
def giveUp (t : ReadTask) (e : StreamError) : ReadTask :=
  { t with
    reader := { t.reader with finished := true }
    sink := t.sink.report (e.context t.role t.reader.key) e.message }

/-- Reads once. -/
def read (t : ReadTask) : ReadTask :=
  match t.unread with
  | chunk :: unread => { t with reader := t.reader.receive chunk, reading := false, unread }
  | [] =>
    match t.ending with
    | none => t
    | some .endOfStream => { t with reader := { t.reader with finished := true } }
    | some (.failure text) => t.giveUp (.read text)

/-- Goes through the buffer, by one message. -/
def passOn (t : ReadTask) : ReadTask :=
  match t.reader.forward (t.role = .subscriber) t.inbox with
  | (reader, inbox, .failed e) => { t with reader, inbox }.giveUp (.decode e)
  | (reader, inbox, .empty) => { t with reader, inbox, reading := true }
  | (reader, inbox, _) => { t with reader, inbox }

/-- One step of the task. -/
def turn (t : ReadTask) : ReadTask :=
  if t.reader.finished then t else if t.reading then t.read else t.passOn

/-- Whether the task has ended or has to wait, for bytes or for a place in the inbox. -/
def rests (t : ReadTask) : Bool :=
  t.reader.finished ||
    if t.reading then t.unread.isEmpty && t.ending.isNone
    else t.reader.held.isSome && t.inbox.isFull

/-- Lets the task go on until it rests, for at most `fuel` steps. -/
def goOn (t : ReadTask) : Nat → ReadTask
  | 0 => t
  | fuel + 1 => if t.rests then t else t.turn.goOn fuel

end ReadTask
end TreeCluster.Connection
