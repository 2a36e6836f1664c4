import TreeCluster.Duration
import TreeCluster.Looper.Mailbox
import TreeCluster.Message
import TreeCluster.Text.Decimal
import TreeCluster.Text.Utf8

/-! # Programs

What a task does, one act at a time: a handler's work on one message, a timer, or a caller.  An
act that has an answer hands it to the rest of the program.  Programs say what is asked of the
looper; the machine says what comes of it.

The entries that programs note down are of any type `ν`. -/

namespace TreeCluster.Looper

/-- What can be seen of a looper, and the time in milliseconds at which it is seen. -/
structure View where
  now : Nat
  handlers : Nat
  trickers : Nat
  closed : Bool

/-- The one-line form of a looper. -/
def View.text (v : View) : String :=
  "MessageLooper \x7b handlers: " ++ Text.Decimal.text v.handlers ++
    ", trickers: " ++ Text.Decimal.text v.trickers ++
    ", closed: " ++ (if v.closed then "true" else "false") ++ " \x7d"

/-- Why a handler gave up: in short, and with its causes. -/
structure Failure where
  text : String
  full : String

/-- The failure that stands for a refusal by the looper. -/
def Failure.ofError (e : LooperError) : Failure :=
  ⟨e.message, e.message⟩

/-- The outcome of a call on a looper. -/
abbrev Outcome := Except LooperError Unit

/-- What a task does from some point on. -/
inductive Program (ν : Type) where
  /-- Ends with a result for those who wait for the task. -/
  | done (result : Outcome)
  /-- Ends a handler with a failure; what becomes of it is said by `ofFailure`. -/
  | fail (failure : Failure)
  /-- Notes an entry down. -/
  | note (entry : ν) (next : Program ν)
  /-- Looks at the looper and the clock. -/
  | look (next : View → Program ν)
  /-- Sleeps until a time. -/
  | sleepUntil (due : Nat) (next : Program ν)
  /-- Pushes a message, waiting for a place as long as its patience lasts. -/
  | push (m : Message) (patience : Option Nat) (next : Option Outcome → Program ν)
  /-- Pushes a message if there is a place for it. -/
  | tryPush (m : Message) (next : Outcome → Program ν)
  /-- Registers the handler of an action; a deadline of no time is none. -/
  | addHandler (action : Action) (deadline : Duration) (body : Message → Program ν)
      (next : Program ν)
  /-- Forgets the handler of an action; the answer says whether there was one. -/
  | removeHandler (action : Action) (next : Bool → Program ν)
  /-- Sets a timer that ticks once per period. -/
  | setInterval (period : Nat) (tick : Nat → Option Message) (next : Outcome → Program ν)
  /-- Ticks for the `count`-th time when it is due, and then once per period until a push of
  what a tick gives is refused. -/
  | every (period due count : Nat) (tick : Nat → Option Message)
  /-- Gives up the slot of the timer that the task is, if it is still its own. -/
  | expire (next : Program ν)
  /-- Asks the event loop to stop. -/
  | term (next : Program ν)
  /-- Runs the event loop as long as its patience lasts. -/
  | serve (patience : Option Nat) (next : Option Outcome → Program ν)
  /-- Starts another task. -/
  | spawn (child : Program ν) (next : TaskId → Program ν)
  /-- Waits for the result of a task as long as its patience lasts. -/
  | join (task : TaskId) (patience : Option Nat) (next : Option Outcome → Program ν)
  /-- Reports an error that nobody waits for. -/
  | report (context message : String) (next : Program ν)

namespace Program

variable {ν : Type}

/-- Sleeps for some milliseconds, at most for the longest sleep. -/
def sleep (millis : Nat) (next : Program ν) : Program ν :=
  .look fun v => .sleepUntil (v.now + (Duration.ofMillis millis).sleepMillis) next

/-- Pushes a message; a refusal ends the handler. -/
def pushOrFail (m : Message) (next : Program ν) : Program ν :=
  .push m none fun
    | some (.error e) => .fail (.ofError e)
    | _ => next

/-- Runs the event loop to its end in a task of its own. -/
def serving : Program ν :=
  .serve none fun
    | some result => .done result
    | none => .done (.ok ())

/-- What follows the attempt to push the report of a failure on a message. -/
def afterReport (m : Message) : Option Outcome → Program ν
  | some (.error e) => .report m.action.text e.message (.done (.ok ()))
  | _ => .done (.ok ())

/-- What becomes of a failure of the handler of `m`: it comes back as an error message on the same
action.  A failure on such a message, or one whose message is refused, is only reported. -/
def ofFailure (m : Message) (failure : Failure) : Program ν :=
  if m.state = .error then .report m.action.text failure.text (.done (.ok ()))
  else .look fun v =>
    let back := (Message.new m.action .error (Int64.ofNat (v.now * 1000000))).append
      (Text.Utf8.encode failure.full)
    .push back none (afterReport m)

/-- Pushes the failed copy of a probe. -/
def escalation (failed : Message) : Program ν :=
  .push failed none fun _ => .done (.ok ())

/-- The timer of an action: at its end it gives up its slot and pushes the failed message. -/
def tricker (due : Nat) (failed : Message) : Program ν :=
  .sleepUntil due (.expire (.escalation failed))

end Program

/-- What is done with the messages of an action, and how long a probe may go without success. -/
structure Handler (ν : Type) where
  /-- No time at all stands for no deadline. -/
  deadline : Duration
  body : Message → Program ν

end TreeCluster.Looper
