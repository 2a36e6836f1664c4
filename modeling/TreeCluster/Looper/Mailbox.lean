import TreeCluster.Message

/-! # Mailboxes

A mailbox holds a bounded number of messages.  A task that finds it full waits in line.  A place
that becomes free goes to the task that has waited longest: from then on it is that task's own
(`granted`), so nobody who comes later can have it, and it is used up when the task puts its
message in.  Closing a mailbox drops its messages and refuses every later one
(`LooperError`). -/

namespace TreeCluster

/-- Why a looper refuses a call. -/
inductive LooperError where
  | closed
  | full
  | alreadyRunning
  | zeroPeriod
  deriving DecidableEq

/-- The sentence that reports the error. -/
def LooperError.message : LooperError → String
  | .closed => "looper is closed"
  | .full => "looper mailbox is full"
  | .alreadyRunning => "event loop is already running"
  | .zeroPeriod => "interval period must be non-zero"

/-- The number of a task. -/
abbrev TaskId := Nat

/-- Messages on their way to an event loop, and the tasks that wait to add theirs. -/
structure Mailbox where
  capacity : Nat
  /-- The messages, oldest first. -/
  queue : List Message
  /-- The tasks without a place, longest waiting first. -/
  waiting : List TaskId
  /-- The tasks that own a place and have not used it. -/
  granted : List TaskId
  closed : Bool

namespace Mailbox

/-- An open mailbox without messages; it has at least one place. -/
def empty (capacity : Nat) : Mailbox :=
  ⟨max capacity 1, [], [], [], false⟩

/-- The number of places that are nobody's. -/
def room (b : Mailbox) : Nat :=
  b.capacity - b.queue.length - b.granted.length

/-- Puts a message into a free place. -/
def put (b : Mailbox) (m : Message) : Except LooperError Mailbox :=
  if b.closed then .error .closed
  else if b.room = 0 then .error .full
  else .ok { b with queue := b.queue ++ [m] }

/-- Puts a task at the end of the line. -/
def wait (b : Mailbox) (task : TaskId) : Mailbox :=
  { b with waiting := b.waiting ++ [task] }

/-- Puts a task's message into the place that the task owns. -/
def fill (b : Mailbox) (task : TaskId) (m : Message) : Mailbox :=
  { b with granted := b.granted.erase task, queue := b.queue ++ [m] }

/-- Gives a free place to the first task in line; also says which one that is. -/
def grant (b : Mailbox) : Mailbox × Option TaskId :=
  match b.waiting with
  | [] => (b, none)
  | task :: rest => ({ b with waiting := rest, granted := b.granted ++ [task] }, some task)

/-- Takes the oldest message out; also says which task gets its place. -/
def take? (b : Mailbox) : Option (Message × Mailbox × Option TaskId) :=
  match b.queue with
  | [] => none
  | m :: rest =>
    let (b, next) := { b with queue := rest }.grant
    some (m, b, next)

/-- Takes a task out of the line; a place that it owned goes to the next one, which is named. -/
def withdraw (b : Mailbox) (task : TaskId) : Mailbox × Option TaskId :=
  if b.granted.contains task then { b with granted := b.granted.erase task }.grant
  else ({ b with waiting := b.waiting.erase task }, none)

/-- Closes the mailbox; also names the tasks that learn of it. -/
def close (b : Mailbox) : Mailbox × List TaskId :=
  ({ b with queue := [], waiting := [], granted := [], closed := true }, b.granted ++ b.waiting)

theorem queue_put {b b' : Mailbox} {m : Message} (h : b.put m = .ok b') :
    b'.queue = b.queue ++ [m] := by
  unfold put at h
  split at h <;> try split at h
  all_goals simp_all
  exact h ▸ rfl

end Mailbox
end TreeCluster
