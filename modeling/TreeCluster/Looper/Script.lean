import TreeCluster.Looper.Rule
import TreeCluster.Looper.Run

/-! # Scripts

A caller that uses a looper step by step, and writes down what each step answered and what the
looper looked like after it. -/

namespace TreeCluster.Looper

/-- One step of a script. -/
inductive Request where
  /-- Starts the event loop in a task of its own. -/
  | start
  /-- Runs the event loop. -/
  | run
  /-- Waits for the end of the loop that was started last. -/
  | join
  | sleep (millis : Nat)
  | push (m : Message)
  | tryPush (m : Message)
  | addHandler (h : RuleHandler)
  | removeHandler (action : Action)
  /-- Messages of an action in a state; ticks with a number in `skipped` give none. -/
  | interval (period : Nat) (action : Action) (state : State) (skipped : List Nat)
  | term

/-- What a step answered. -/
inductive Reply where
  | silent
  | outcome (r : Outcome)
  | found (answer : Bool)
  /-- There was no place in the mailbox for too long. -/
  | blocked
  /-- The event loop went on for too long. -/
  | running

/-- What a script and its handlers write down. -/
inductive Entry where
  | heard (h : Heard)
  | replied (r : Reply) (v : View)

/-- How long a step waits for a place in the mailbox, in milliseconds. -/
def pushPatience : Nat := 1000

/-- How long a step waits for the end of the event loop, in milliseconds. -/
def loopPatience : Nat := 3600000

/-- The message of a tick: its number is its time and its content. -/
def tickMessage (action : Action) (state : State) (skipped : List Nat) (count : Nat) :
    Option Message :=
  if skipped.contains count then none
  else some ((Message.new action state (Int64.ofNat count)).append
    (Text.Utf8.encode (Text.Decimal.text count)))

/-- Writes down a reply. -/
def reply (r : Reply) (next : Program Entry) : Program Entry :=
  .look fun v => .note (.replied r v) next

/-- The reply to a step that may run out of patience. -/
def Reply.ofWaiting (tooLong : Reply) : Option Outcome → Reply
  | some r => .outcome r
  | none => tooLong

/-- The work of a script; `last` is the task of the event loop that was started last. -/
def script : Option TaskId → List Request → Program Entry
  | _, [] => .done (.ok ())
  | _, .start :: more => .spawn .serving fun task => reply .silent (script (some task) more)
  | last, .run :: more =>
    .serve (some loopPatience) fun r => reply (.ofWaiting .running r) (script last more)
  | some task, .join :: more =>
    .join task (some loopPatience) fun r => reply (.ofWaiting .running r) (script none more)
  | none, .join :: more => reply .silent (script none more)
  | last, .sleep millis :: more => .sleep millis (reply .silent (script last more))
  | last, .push m :: more =>
    .push m (some pushPatience) fun r => reply (.ofWaiting .blocked r) (script last more)
  | last, .tryPush m :: more => .tryPush m fun r => reply (.outcome r) (script last more)
  | last, .addHandler h :: more => h.register .heard (reply .silent (script last more))
  | last, .removeHandler action :: more =>
    .removeHandler action fun answer => reply (.found answer) (script last more)
  | last, .interval period action state skipped :: more =>
    .setInterval period (tickMessage action state skipped) fun r =>
      reply (.outcome r) (script last more)
  | last, .term :: more => .term (reply .silent (script last more))

/-- What was written down in the course of a script, oldest first. -/
structure Transcript where
  replies : List (Reply × View)
  /-- The times in milliseconds, and what the handlers heard. -/
  heard : List (Nat × Heard)
  sink : Sink

/-- Runs a script on a new looper with some handlers. -/
def Request.runAll (capacity : Nat) (handlers : List RuleHandler) (requests : List Request) :
    Transcript :=
  let program := handlers.foldr (·.register .heard ·) (script none requests)
  let s := (Machine.start capacity program).settle
  let entries := s.notes.reverse
  { replies := entries.filterMap fun
      | (_, .replied r v) => some (r, v)
      | _ => none
    heard := entries.filterMap fun
      | (now, .heard h) => some (now, h)
      | _ => none
    sink := s.sink }

end TreeCluster.Looper
