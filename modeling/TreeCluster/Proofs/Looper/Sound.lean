import TreeCluster.Proofs.Looper.History
import TreeCluster.Proofs.Looper.Tasks

/-! # Machines in order

A machine is in order (`Sound`) if its looper is what the history says (`Agrees`), if the history
is a chronicle and accounts for every task (`Kept`), and if each task does what it is there for
(`Fits`) and is heeded: it may act, or it waits for something that will wake it (`Heeded`).

In the middle of an act this holds of all tasks but the one that acts (`Amid`).  An act changes the
machine step by step; what each step spares of the other tasks is `Spares`. -/

namespace TreeCluster.Looper

open History

variable {ν : Type}

/-! ### The looper and its history -/

/-- The looper is what its history says. -/
structure Agrees (looper : Looper ν) (h : History ν) : Prop where
  handlers : ∀ a, looper.handlers.get? a = handler? a h
  timers : ∀ a, looper.trickers.get? a = (timer? a h).map Timer.slot
  single : looper.trickers.keys.Nodup
  closed : looper.closed = true ↔ Over h
  stopped : Stopped h → looper.mailbox.closed = true ∧ looper.intervals = [] ∧
    looper.server.isSome = true
  queue : looper.mailbox.closed = false →
    (accepted h).map pushed = taken h ++ looper.mailbox.queue
  inOrder : taken h <+: (accepted h).map pushed
  shut : looper.mailbox.closed = true → looper.mailbox.queue = [] ∧ looper.mailbox.waiting = []

/-- The first thing that the task of a timer does to the looper. -/
def Timer.firing (timer : Timer) : Event ν :=
  .fired timer.task timer.probe.action timer.generation

/-- The push of a timer that has fired, as it ended. -/
def Timer.Ends (timer : Timer) (e : Event ν) : Prop :=
  e = .accepted timer.task timer.origin timer.copy ∨
    e = .refused timer.task timer.origin timer.copy .closed

/-- All that comes of a failure on a message, newest first: a report in the mailbox; or one that
was refused, and a line; or only a line, if it was an error message. -/
inductive Reported (task : TaskId) (m : Message) (failure : Failure) : List (Event ν) → Prop
  | accepted {back : Message} : m.state ≠ .error → IsReport m failure back →
      Reported task m failure [.accepted task (.report m) back]
  | refused {back : Message} : m.state ≠ .error → IsReport m failure back →
      Reported task m failure [.reported task m.action.text LooperError.closed.message,
        .refused task (.report m) back .closed]
  | noted : m.state = .error → Reported task m failure [.reported task m.action.text failure.text]

namespace Machine

/-- Who a task works for, if it has not ended. -/
def origin? (s : Machine ν) (task : TaskId) : Option Origin :=
  (s.tasks.get? task).map Task.origin

end Machine

/-- What a task did as a timer that fired, or for a handler that failed, is complete, unless the
task is still at it. -/
structure Accounted (timers : List Timer) (task : TaskId) (origin : Option Origin)
    (own : List (Event ν)) : Prop where
  fired : ∀ action generation, .fired task action generation ∈ own →
    origin = some (.tricker action generation) ∨ origin = none ∧
      ∃ timer ∈ timers, timer.task = task ∧ timer.origin = .tricker action generation ∧
        ∃ e, timer.Ends e ∧ own = [e, timer.firing]
  failed : ∀ m failure, .failed task m failure ∈ own →
    origin = some (.report m) ∨ origin = none ∧
      ∃ later before, own = later ++ .failed task m failure :: before ∧
        (∀ e ∈ before, e.isFailure = false) ∧ Reported task m failure later

/-- The history is a chronicle, and accounts for every task. -/
structure Kept (s : Machine ν) : Prop where
  chronicle : Chronicle s.journal
  /-- Tasks that are yet to come have done nothing. -/
  fresh : ∀ task, s.fresh ≤ task → s.origin? task = none ∧ deeds task s.journal = [] ∧
    task ∉ (handed s.journal).map Prod.fst ∧ task ∉ (armed s.journal).map Timer.task
  /-- A timer that runs has a task, which has done nothing so far. -/
  running : ∀ a timer, timer? a s.journal = some timer → timer.probe.action = a ∧
    timer ∈ armed s.journal ∧ deeds timer.task s.journal = [] ∧
    s.origin? timer.task = some timer.origin
  account : ∀ task, Accounted (armed s.journal) task (s.origin? task) (deeds task s.journal)
  intervals : ∀ task ∈ s.looper.intervals,
    task < s.fresh ∧ ∀ origin, s.origin? task = some origin → origin = .interval
  sink : s.sink.lines = reports s.journal

/-! ### Tasks -/

/-- What the task of a timer does next, by what it has done. -/
inductive Ringing (now : ℕ) (timer : Timer) : Activity ν → List (Event ν) → Prop
  | begun : Ringing now timer (.active (.tricker timer.due timer.copy)) []
  | asleep : Ringing now timer (.sleeping timer.due (.expire (.escalation timer.copy))) []
  | rung : timer.due ≤ now →
      Ringing now timer (.active (.expire (.escalation timer.copy))) []
  | escalates : Ringing now timer (.active (.escalation timer.copy)) [timer.firing]
  | waits : Ringing now timer (.pushing timer.copy none fun _ => .done (.ok ())) [timer.firing]
  | ends {e : Event ν} : timer.Ends e →
      Ringing now timer (.active (.done (.ok ()))) [e, timer.firing]

/-- What the task of a handler that failed does next, by what it has done since. -/
inductive Reporting (task : TaskId) (m : Message) (failure : Failure) :
    Activity ν → List (Event ν) → Prop
  | begun : Reporting task m failure (.active (.ofFailure m failure)) []
  | pushes {back : Message} : m.state ≠ .error → IsReport m failure back →
      Reporting task m failure (.active (.push back none (.afterReport m))) []
  | waits {back : Message} : m.state ≠ .error → IsReport m failure back →
      Reporting task m failure (.pushing back none (.afterReport m)) []
  | refused {back : Message} : m.state ≠ .error → IsReport m failure back →
      Reporting task m failure
        (.active (.report m.action.text LooperError.closed.message (.done (.ok ()))))
        [.refused task (.report m) back .closed]
  | ends {later : List (Event ν)} : Reported task m failure later →
      Reporting task m failure (.active (.done (.ok ()))) later

/-- A task that ticks waits for its time, or pushes what a tick gave. -/
inductive Ticking : Activity ν → Prop
  | ticks {period due count : ℕ} {tick : ℕ → Option Message} :
      Ticking (.active (.every period due count tick))
  | asleep {period due count wake : ℕ} {tick : ℕ → Option Message} :
      Ticking (.sleeping wake (.every period due count tick))
  | pushes {m : Message} {next : Option Outcome → Program ν} :
      (∀ answer, Ticking (.active (next answer))) → Ticking (.active (.push m none next))
  | waits {m : Message} {next : Option Outcome → Program ν} :
      (∀ answer, Ticking (.active (next answer))) → Ticking (.pushing m none next)
  | ends : Ticking (.active (.done (.ok ())))

/-- A task that works for somebody does what it is there for. -/
def Fits (s : Machine ν) (task : TaskId) (activity : Activity ν) : Origin → Prop
  | .caller => True
  | .handler m => (task, m) ∈ handed s.journal ∧ ∀ e ∈ deeds task s.journal, e.isFailure = false
  | .report m => ∃ failure later own,
      deeds task s.journal = later ++ .failed task m failure :: own ∧
        (∀ e ∈ own, e.isFailure = false) ∧ Reporting task m failure activity later
  | .tricker action generation => ∃ timer ∈ armed s.journal, timer.task = task ∧
      timer.origin = .tricker action generation ∧
      Ringing s.now timer activity (deeds task s.journal) ∧
      (deeds task s.journal = [] → timer? action s.journal = some timer)
  | .interval => task ∈ s.looper.intervals ∧ Ticking activity
  | .stopRequest => False

/-- A task waits for something that will wake it. -/
def Parked (s : Machine ν) (task : TaskId) : Activity ν → Prop
  | .active _ => False
  | .sleeping due _ => (due, task) ∈ s.timers
  | .pushing _ _ _ => task ∈ s.looper.mailbox.waiting
  | .serving _ _ => True
  | .joining _ _ _ => True

/-- What a task waits for has been arranged, or has come about. -/
def Arranged (s : Machine ν) (task : TaskId) : Activity ν → Prop
  | .sleeping due _ => (due, task) ∈ s.timers ∨ due ≤ s.now
  | .pushing _ _ _ => s.looper.mailbox.closed = true ∨ task ∈ s.looper.mailbox.waiting ∨
      task ∈ s.looper.mailbox.granted
  | .serving _ _ => s.looper.server.isSome = true
  | _ => True

/-- It is a task's turn, or it may act, or something will wake it. -/
structure Heeded (s : Machine ν) (current : Option TaskId) (task : TaskId)
    (activity : Activity ν) : Prop where
  arranged : Arranged s task activity
  awaited : current = some task ∨ task ∈ s.ready ∨ Parked s task activity

/-- A machine in order, and the task whose turn it is. -/
structure Sound (s : Machine ν) (current : Option TaskId) : Prop where
  agrees : Agrees s.looper s.journal
  kept : Kept s
  fits : ∀ task t, s.tasks.get? task = some t → Fits s task t.activity t.origin
  heeded : ∀ task t, s.tasks.get? task = some t → Heeded s current task t.activity

/-- A machine in the middle of an act of a task that works for somebody: all but this task is in
order. -/
structure Amid (s : Machine ν) (task : TaskId) (origin : Origin) : Prop where
  agrees : Agrees s.looper s.journal
  kept : Kept s
  works : s.origin? task = some origin
  fits : ∀ other t, other ≠ task → s.tasks.get? other = some t → Fits s other t.activity t.origin
  heeded : ∀ other t, other ≠ task → s.tasks.get? other = some t →
    Heeded s (some task) other t.activity

end TreeCluster.Looper
