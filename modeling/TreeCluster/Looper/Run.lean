import TreeCluster.Looper.Step

/-! # Running a machine

Tasks take turns in the order in which they were woken.  A turn ends when the task has to wait, or
when it has done as many acts of those that could have made it wait as one turn allows
(`turnLength`); then the task goes to the end of the line.  The clock moves only when all tasks
wait, and then straight to the next timer.

The first task is the one for whose sake the machine runs.  It yields to the others that stand in
line, but not for more than so many turns (`longestDelay`), and when its own timer rings, it comes
first. -/

namespace TreeCluster.Looper

/-- The number of acts in one turn that could have made the task wait. -/
def turnLength : Nat := 128

/-- The number of turns for which the first task yields to others. -/
def longestDelay : Nat := 61

/-- Whether the next act can make the task wait. -/
def Activity.mayWait {ν : Type} : Activity ν → Bool
  | .active (.push _ _ _) => true
  | .active (.sleepUntil _ _) => true
  | .active (.every _ _ _ _) => true
  | .active _ => false
  | .sleeping _ _ => true
  | .pushing _ _ _ => true
  | .serving _ _ => true
  | .joining _ _ _ => true

namespace Machine

variable {ν : Type}

/-- The number of the first task. -/
def first : TaskId := 0

/-- A machine with one task. -/
def start (capacity : Nat) (program : Program ν) : Machine ν :=
  ((new capacity).spawn .caller program).1

/-- Whether the next act of a task can make it wait. -/
def mayWait (s : Machine ν) (task : TaskId) : Bool :=
  (s.tasks.get? task).any fun t => t.activity.mayWait

/-- The task whose turn it is, and the machine in which it no longer stands in line.  The first
task yields to others only for so many turns more. -/
def next? (s : Machine ν) (delay : Nat) : Option (TaskId × Machine ν) :=
  let others := s.ready.filter (· ≠ first)
  let task? := if delay = 0 ∧ s.ready.contains first then some first else others.head?
  (task?.or s.ready.head?).map fun task => (task, { s with ready := s.ready.erase task })

/-- Moves the clock and wakes those whose timers ring. -/
def elapse (s : Machine ν) (now : Nat) : Machine ν :=
  let (rung, timers) := s.timers.partition fun timer => timer.1 ≤ now
  { s with now, timers }.wakeAll (rung.map Prod.snd)

/-- Moves the clock to the next timer. -/
def advance? (s : Machine ν) : Option (Machine ν) :=
  (s.timers.map Prod.fst).min?.map fun due => s.elapse (max s.now due)

/-- Acts up to `fuel` times, until the first task has ended or nothing can happen any more.
`current` is the task whose turn it is, with the number of acts that are left in it, and `delay`
the number of turns for which the first task yields to others. -/
def run : Nat → Option (TaskId × Nat) → Nat → Machine ν → Machine ν
  | 0, _, _, s => s
  | fuel + 1, some (task, left), delay, s =>
    let mayWait := s.mayWait task
    if mayWait && left = 0 then run fuel none delay (s.wake task)
    else
      let (s, goesOn) := s.step task
      run fuel (if goesOn then some (task, if mayWait then left - 1 else left) else none) delay s
  | fuel + 1, none, delay, s =>
    if !s.tasks.contains first then s
    else
      match s.next? delay with
      | some (task, s) =>
        let others := (if delay = 0 then longestDelay else delay) - 1
        run fuel (some (task, turnLength)) (if task = first then longestDelay else others) s
      | none =>
        match s.advance? with
        | none => s
        | some s => run fuel none 0 s

/-- The most acts that a machine is given. -/
def actLimit : Nat := 1000000000

/-- Acts until the first task has ended or nothing can happen any more. -/
def settle (s : Machine ν) : Machine ν :=
  s.run actLimit none 0

end Machine
end TreeCluster.Looper
