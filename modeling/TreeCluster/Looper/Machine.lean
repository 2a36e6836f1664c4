import TreeCluster.Error
import TreeCluster.Looper.Program
import TreeCluster.Table

/-! # Loopers and the tasks around them

A machine is a looper, the tasks that use it and a clock in milliseconds.  This module holds the
bookkeeping of tasks: starting, waking, putting to sleep and ending them.

The journal keeps what happened to the looper, newest first. -/

namespace TreeCluster.Looper

/-- Who a task works for. -/
inductive Origin where
  | caller
  /-- The handler of a message. -/
  | handler (m : Message)
  /-- The looper, which reports that the handler of a message failed. -/
  | report (m : Message)
  | tricker (action : Action) (generation : Nat)
  | interval
  /-- The request to stop. -/
  | stopRequest
  deriving DecidableEq

/-- What a task is about to do, or waits for. -/
inductive Activity (ν : Type) where
  | active (program : Program ν)
  | sleeping (due : Nat) (next : Program ν)
  /-- Waits for a place in the mailbox for a message. -/
  | pushing (m : Message) (limit : Option Nat) (next : Option Outcome → Program ν)
  /-- Runs the event loop. -/
  | serving (limit : Option Nat) (next : Option Outcome → Program ν)
  /-- Waits for the result of another task. -/
  | joining (task : TaskId) (limit : Option Nat) (next : Option Outcome → Program ν)

/-- A task that has not ended. -/
structure Task (ν : Type) where
  origin : Origin
  activity : Activity ν

/-- A running timer that turns a probe into a failed message. -/
structure Tricker where
  generation : Nat
  task : TaskId

/-- A timer that was started for a probe. -/
structure Timer where
  probe : Message
  generation : Nat
  /-- When it fires. -/
  due : Nat
  task : TaskId
  deriving DecidableEq

/-- What an act did to the timer of an action. -/
inductive TimerChange where
  | kept
  | armed (timer : Timer)
  | disarmed (generation : Nat)
  deriving DecidableEq

/-- What became of a message that the event loop took. -/
inductive Fate (ν : Type) where
  /-- The loop ends at it. -/
  | last
  /-- It has no handler. -/
  | skipped
  /-- A task was started for it. -/
  | handed (task : TaskId) (program : Program ν) (timer : TimerChange)

/-- Something that happened to a looper.  Messages stand here as they were pushed. -/
inductive Event (ν : Type) where
  | registered (action : Action) (handler : Handler ν)
  | removed (action : Action) (timer : TimerChange)
  | accepted (task : TaskId) (origin : Origin) (m : Message)
  | refused (task : TaskId) (origin : Origin) (m : Message) (e : LooperError)
  | taken (m : Message) (fate : Fate ν)
  | failed (task : TaskId) (m : Message) (failure : Failure)
  | reported (task : TaskId) (context message : String)
  | fired (task : TaskId) (action : Action) (generation : Nat)
  | termed
  | stopped

end Looper

open Looper

/-- A message looper: its mailbox, its handlers and its timers. -/
structure Looper (ν : Type) where
  mailbox : Mailbox
  /-- The task that took the event loop; only one ever does. -/
  server : Option TaskId
  handlers : Table Action (Handler ν)
  /-- The timers that have not fired. -/
  trickers : Table Action Tricker
  intervals : List TaskId
  closed : Bool
  /-- The number of timers that were ever armed. -/
  generation : Nat

/-- A looper without handlers whose event loop has not run. -/
def Looper.new {ν : Type} (capacity : Nat) : Looper ν :=
  ⟨.empty capacity, none, .empty, .empty, [], false, 0⟩

namespace Looper

/-- A looper, the tasks that use it, and a clock. -/
structure Machine (ν : Type) where
  now : Nat
  looper : Looper ν
  tasks : Table TaskId (Task ν)
  /-- The tasks that may act, longest waiting first. -/
  ready : List TaskId
  /-- When sleeping tasks are to be woken, oldest first. -/
  timers : List (Nat × TaskId)
  /-- No task has this number or a higher one. -/
  fresh : TaskId
  /-- The results of the callers' tasks that ended. -/
  results : Table TaskId Outcome
  /-- The noted entries and their times, newest first. -/
  notes : List (Nat × ν)
  sink : Sink
  journal : List (Nat × Event ν)

namespace Machine

variable {ν : Type}

/-- A machine without tasks. -/
def new (capacity : Nat) : Machine ν :=
  ⟨0, .new capacity, .empty, [], [], 0, .empty, [], .empty, []⟩

/-- What can be seen of the looper. -/
def view (s : Machine ν) : View :=
  ⟨s.now, s.looper.handlers.size, s.looper.trickers.size, s.looper.closed⟩

/-- Writes an event into the journal. -/
def record (s : Machine ν) (e : Event ν) : Machine ν :=
  { s with journal := (s.now, e) :: s.journal }

/-- Puts a task in line with those that may act. -/
def wake (s : Machine ν) (task : TaskId) : Machine ν :=
  if s.tasks.contains task && !s.ready.contains task then
    { s with ready := s.ready ++ [task] }
  else s

/-- Wakes some tasks, one after the other. -/
def wakeAll (s : Machine ν) (tasks : List TaskId) : Machine ν :=
  tasks.foldl wake s

/-- Wakes the task that took the event loop. -/
def wakeServer (s : Machine ν) : Machine ν :=
  s.wakeAll s.looper.server.toList

/-- Starts a task; also gives its number. -/
def spawn (s : Machine ν) (origin : Origin) (program : Program ν) : Machine ν × TaskId :=
  ({ s with
      tasks := s.tasks.insert s.fresh ⟨origin, .active program⟩
      ready := s.ready ++ [s.fresh]
      fresh := s.fresh + 1 }, s.fresh)

/-- Changes what a task is about to do. -/
def setActivity (s : Machine ν) (task : TaskId) (activity : Activity ν) : Machine ν :=
  match s.tasks.get? task with
  | none => s
  | some t => { s with tasks := s.tasks.insert task { t with activity } }

/-- Cancels the timer of a task. -/
def cancel (s : Machine ν) (task : TaskId) : Machine ν :=
  { s with timers := s.timers.filter fun timer => timer.2 ≠ task }

/-- Lets a task wait, until a time if there is one. -/
def suspend (s : Machine ν) (task : TaskId) (activity : Activity ν) (due : Option Nat) :
    Machine ν :=
  let s := s.setActivity task activity
  match due with
  | none => s
  | some due => { s with timers := s.timers ++ [(due, task)] }

/-- Lets a task go on with a program. -/
def resume (s : Machine ν) (task : TaskId) (program : Program ν) : Machine ν :=
  (s.cancel task).setActivity task (.active program)

/-- Lets a task go on with a program for somebody else. -/
def become (s : Machine ν) (task : TaskId) (origin : Origin) (program : Program ν) : Machine ν :=
  { s with tasks := s.tasks.insert task ⟨origin, .active program⟩ }

/-- Forgets a task. -/
def remove (s : Machine ν) (task : TaskId) : Machine ν :=
  let s := s.cancel task
  { s with tasks := s.tasks.erase task, ready := s.ready.erase task }

/-- The tasks that wait for the result of a task. -/
def joiners (s : Machine ν) (task : TaskId) : List TaskId :=
  (s.tasks.entries.filter fun e =>
    match e.2.activity with
    | .joining other _ _ => other = task
    | _ => false).map Prod.fst

/-- Ends a task.  The result of a caller's task is kept for those who wait for it. -/
def finish (s : Machine ν) (task : TaskId) (origin : Origin) (result : Outcome) : Machine ν :=
  let waiting := s.joiners task
  let s := s.remove task
  let s := if origin = .caller then { s with results := s.results.insert task result } else s
  s.wakeAll waiting

/-- Ends a task from outside. -/
def abort (s : Machine ν) (task : TaskId) : Machine ν :=
  let (mailbox, next) := s.looper.mailbox.withdraw task
  let s := s.remove task
  { s with looper := { s.looper with mailbox } }.wakeAll next.toList

end Machine
end Looper
end TreeCluster
