import TreeCluster.Looper.EventLoop

/-! # Acts of tasks

`Machine.step` does one act of one task, or finds that the task still has to wait.  Whatever else
happens in between acts of a task, each act sees the looper as it then is. -/

namespace TreeCluster.Looper

/-- Whether the time for waiting is over. -/
def isOver (limit : Option Nat) (now : Nat) : Bool :=
  limit.any (· ≤ now)

/-- A tick that comes more than five milliseconds late delays the next one. -/
def nextTick (period due now : Nat) : Nat :=
  if due + 5 < now then now + period else due + period

namespace Machine

variable {ν : Type}

/-- The machine after an act, and whether the task goes on at once. -/
abbrev Stepped (ν : Type) := Machine ν × Bool

/-- The task goes on with a program. -/
def goOn (s : Machine ν) (task : TaskId) (program : Program ν) : Stepped ν :=
  (s.resume task program, true)

/-- The task waits. -/
def await (s : Machine ν) (task : TaskId) (activity : Activity ν) (due : Option Nat) :
    Stepped ν :=
  (s.suspend task activity due, false)

/-- The task has ended. -/
def ended (s : Machine ν) (task : TaskId) (origin : Origin) (result : Outcome) : Stepped ν :=
  (s.finish task origin result, false)

/-- Ends a push that the looper refuses. -/
def refuse (s : Machine ν) (task : TaskId) (origin : Origin) (m : Message)
    (next : Option Outcome → Program ν) : Stepped ν :=
  (s.record (.refused task origin m .closed)).goOn task (next (some (.error .closed)))

/-- Begins a push. -/
def push (s : Machine ν) (task : TaskId) (origin : Origin) (m : Message)
    (limit : Option Nat) (next : Option Outcome → Program ν) : Stepped ν :=
  if s.looper.closed then s.refuse task origin m next
  else
    match s.looper.mailbox.put (pushed m) with
    | .ok mailbox => (s.accept task origin m mailbox).goOn task (next (some (.ok ())))
    | .error .full =>
      let mailbox := s.looper.mailbox.wait task
      { s with looper := { s.looper with mailbox } }.await task (.pushing m limit next) limit
    | .error _ => s.refuse task origin m next

/-- Goes on with a push that had to wait. -/
def pushAgain (s : Machine ν) (task : TaskId) (origin : Origin) (m : Message)
    (limit : Option Nat) (next : Option Outcome → Program ν) : Stepped ν :=
  if s.looper.mailbox.closed then s.refuse task origin m next
  else if s.looper.mailbox.granted.contains task then
    (s.accept task origin m (s.looper.mailbox.fill task (pushed m))).goOn task
      (next (some (.ok ())))
  else if isOver limit s.now then
    let (mailbox, other) := s.looper.mailbox.withdraw task
    ({ s with looper := { s.looper with mailbox } }.wakeAll other.toList).goOn task (next none)
  else (s, false)

/-- Pushes a message if there is a place for it. -/
def tryPush (s : Machine ν) (task : TaskId) (origin : Origin) (m : Message) :
    Machine ν × Outcome :=
  if s.looper.closed then (s.record (.refused task origin m .closed), .error .closed)
  else
    match s.looper.mailbox.put (pushed m) with
    | .ok mailbox => (s.accept task origin m mailbox, .ok ())
    | .error e => (s.record (.refused task origin m e), .error e)

/-- Sets a timer that ticks once per period. -/
def setInterval (s : Machine ν) (period : Nat) (tick : Nat → Option Message) :
    Machine ν × Outcome :=
  if period = 0 then (s, .error .zeroPeriod)
  else if s.looper.closed then (s, .error .closed)
  else
    let (s, task) := s.spawn .interval (.every period (s.now + period) 1 tick)
    ({ s with looper := { s.looper with intervals := s.looper.intervals ++ [task] } }, .ok ())

/-- One turn of the event loop in a task; a loop whose time is over leaves its mailbox closed. -/
def serve (s : Machine ν) (task : TaskId) (limit : Option Nat)
    (next : Option Outcome → Program ν) : Stepped ν :=
  match s.turn with
  | (s, .tookMessage) => (s, true)
  | (s, .stopped) => s.goOn task (next (some (.ok ())))
  | (s, .idle) => if isOver limit s.now then s.closeMailbox.goOn task (next none) else (s, false)

/-- Looks for the result of a task. -/
def join (s : Machine ν) (task other : TaskId) (limit : Option Nat)
    (next : Option Outcome → Program ν) : Stepped ν :=
  match s.results.get? other with
  | some result => s.goOn task (next (some result))
  | none => if isOver limit s.now then s.goOn task (next none) else (s, false)

/-- The first act of a program. -/
def act (s : Machine ν) (task : TaskId) (origin : Origin) : Program ν → Stepped ν
  | .done result => s.ended task origin result
  | .fail failure =>
    match origin with
    | .handler m =>
      ((s.record (.failed task m failure)).become task (.report m) (.ofFailure m failure), true)
    | _ => s.ended task origin (.ok ())
  | .note entry next => { s with notes := (s.now, entry) :: s.notes }.goOn task next
  | .look next => s.goOn task (next s.view)
  | .sleepUntil due next =>
    if due ≤ s.now then s.goOn task next else s.await task (.sleeping due next) (some due)
  | .push m patience next => s.push task origin m (patience.map (s.now + ·)) next
  | .tryPush m next =>
    let (s, outcome) := s.tryPush task origin m
    s.goOn task (next outcome)
  | .addHandler action deadline body next =>
    let handlers := s.looper.handlers.insert action ⟨deadline, body⟩
    ({ s with looper := { s.looper with handlers } }.record
      (.registered action ⟨deadline, body⟩)).goOn task next
  | .removeHandler action next =>
    let found := s.looper.handlers.contains action
    let (s, change) := s.disarm action
    let handlers := s.looper.handlers.erase action
    ({ s with looper := { s.looper with handlers } }.record (.removed action change)).goOn task
      (next found)
  | .setInterval period tick next =>
    let (s, outcome) := s.setInterval period tick
    s.goOn task (next outcome)
  | .every period due count tick =>
    if s.now < due then s.await task (.sleeping due (.every period due count tick)) (some due)
    else
      let rest := .every period (nextTick period due s.now) (count + 1) tick
      match tick count with
      | none => s.goOn task rest
      | some m => s.goOn task (.push m none fun
        | some (.ok ()) => rest
        | _ => .done (.ok ()))
  | .expire next =>
    match origin with
    | .tricker action generation =>
      ((s.vacate action generation).record (.fired task action generation)).goOn task next
    | _ => s.goOn task next
  | .term next => (s.term task).goOn task next
  | .serve patience next =>
    match s.looper.server with
    | some _ => s.goOn task (next (some (.error .alreadyRunning)))
    | none =>
      let limit := patience.map (s.now + ·)
      let s := { s with looper := { s.looper with server := some task } }
      (s.suspend task (.serving limit next) limit, true)
  | .spawn child next =>
    let (s, other) := s.spawn .caller child
    s.goOn task (next other)
  | .join other patience next =>
    let limit := patience.map (s.now + ·)
    (s.suspend task (.joining other limit next) limit, true)
  | .report context message next =>
    ({ s with sink := s.sink.report context message }.record
      (.reported task context message)).goOn task next

/-- One act of a task. -/
def step (s : Machine ν) (task : TaskId) : Stepped ν :=
  match s.tasks.get? task with
  | none => (s, false)
  | some t =>
    match t.activity with
    | .active program => s.act task t.origin program
    | .sleeping due next => if due ≤ s.now then s.goOn task next else (s, false)
    | .pushing m limit next => s.pushAgain task t.origin m limit next
    | .serving limit next => s.serve task limit next
    | .joining other limit next => s.join task other limit next

end Machine
end TreeCluster.Looper
