import Mathlib
import TreeCluster.Looper.Run

/-! # The history of a looper

The journal of a machine tells everything that happened to its looper, newest first.  This module
reads it: which messages were accepted and which were taken, which handler and which timer an
action had at the end, and what a task did.

An event is `Lawful` if it is what had to happen after the events before it; this is the rule book
of the looper, and it speaks of nothing but the history.  A history of lawful events is a
`Chronicle`. -/

namespace TreeCluster.Looper

variable {ν : Type}

/-- What happened to a looper and when, newest first. -/
abbrev History (ν : Type) := List (ℕ × Event ν)

/-- The slot of the looper that a timer takes. -/
def Timer.slot (timer : Timer) : Tricker :=
  ⟨timer.generation, timer.task⟩

/-- Who the task of a timer works for. -/
def Timer.origin (timer : Timer) : Origin :=
  .tricker timer.probe.action timer.generation

/-- The message that a timer pushes when it fires. -/
def Timer.copy (timer : Timer) : Message :=
  timer.probe.transition .failed

/-- A message that is pushed changes only if it failed, and then in its visits. -/
theorem pushed_eq (m : Message) : (m.state ≠ .failed → pushed m = m) ∧ (m.state = .failed →
    pushed m = { m with visits := (pushed m).visits } ∧
      (pushed m).visits.toNat = min (m.visits.toNat + 1) (2 ^ 32 - 1)) := by
  refine ⟨fun other => if_neg other, fun failed => ?_⟩
  rw [pushed, if_pos failed]
  refine ⟨rfl, ?_⟩
  have small : min (m.visits.toNat + 1) 0xffffffff < UInt32.size :=
    (min_le_right _ _).trans_lt (by decide)
  exact UInt32.toNat_ofNat_of_lt small

/-- The timer of an action after a change. -/
def TimerChange.after : TimerChange → Option Timer → Option Timer
  | .kept, timer => timer
  | .armed timer, _ => some timer
  | .disarmed _, _ => none

/-- Stopping the timer of an action, if there is one. -/
def TimerChange.stopping : Option Timer → TimerChange
  | none => .kept
  | some timer => .disarmed timer.generation

theorem TimerChange.after_stopping (timer : Option Timer) :
    (TimerChange.stopping timer).after timer = none := by
  cases timer <;> rfl

/-- The task that did something to the looper. -/
def Event.task? : Event ν → Option TaskId
  | .accepted task _ _ => some task
  | .refused task _ _ _ => some task
  | .failed task _ _ => some task
  | .reported task _ _ => some task
  | .fired task _ _ => some task
  | _ => none

/-- Whether a handler failed. -/
def Event.isFailure : Event ν → Bool
  | .failed _ _ _ => true
  | _ => false

namespace History

/-! ### Readings -/

/-- The messages that were accepted, oldest first and as they were pushed. -/
def accepted : History ν → List Message
  | [] => []
  | (_, .accepted _ _ m) :: past => accepted past ++ [m]
  | _ :: past => accepted past

/-- The messages that the event loop took, oldest first. -/
def taken : History ν → List Message
  | [] => []
  | (_, .taken m _) :: past => taken past ++ [m]
  | _ :: past => taken past

/-- The handler that an action has in the end. -/
def handler? (a : Action) : History ν → Option (Handler ν)
  | [] => none
  | (_, .registered b h) :: past => if b = a then some h else handler? a past
  | (_, .removed b _) :: past => if b = a then none else handler? a past
  | _ :: past => handler? a past

/-- The timer of an action that runs in the end. -/
def timer? (a : Action) : History ν → Option Timer
  | [] => none
  | (_, .removed b change) :: past =>
    if b = a then change.after (timer? a past) else timer? a past
  | (_, .taken m (.handed _ _ change)) :: past =>
    if m.action = a then change.after (timer? a past) else timer? a past
  | (_, .fired _ b _) :: past => if b = a then none else timer? a past
  | (_, .stopped) :: _ => none
  | _ :: past => timer? a past

/-- The tasks that messages were handed to, with the message and newest first. -/
def handed : History ν → List (TaskId × Message)
  | [] => []
  | (_, .taken m (.handed task _ _)) :: past => (task, m) :: handed past
  | _ :: past => handed past

/-- The timers that were armed, newest first. -/
def armed : History ν → List Timer
  | [] => []
  | (_, .taken _ (.handed _ _ (.armed timer))) :: past => timer :: armed past
  | _ :: past => armed past

/-- The lines that were reported, oldest first. -/
def reports : History ν → List String
  | [] => []
  | (_, .reported _ context message) :: past => reports past ++ [context ++ ": " ++ message]
  | _ :: past => reports past

/-- What a task did to the looper, newest first. -/
def deeds (task : TaskId) : History ν → List (Event ν)
  | [] => []
  | (_, e) :: past => if e.task? = some task then e :: deeds task past else deeds task past

/-- The event loop has ended. -/
def Stopped (h : History ν) : Prop :=
  ∃ t, (t, .stopped) ∈ h

/-- The looper was asked to stop, or has stopped. -/
def Over (h : History ν) : Prop :=
  ∃ t, (t, .termed) ∈ h ∨ (t, .stopped) ∈ h

/-! ### The rule book -/

/-- What a message does to the timer of its action if its handler has a deadline. -/
inductive Times (past : History ν) (now : ℕ) (m : Message) (deadline : Duration) :
    TimerChange → Prop
  | untimed : deadline = .zero → Times past now m deadline .kept
  | arms {generation task : ℕ} : deadline ≠ .zero → m.state = .probe →
      timer? m.action past = none →
      Times past now m deadline (.armed ⟨m, generation, now + deadline.sleepMillis, task⟩)
  | runs {timer : Timer} : deadline ≠ .zero → m.state = .probe →
      timer? m.action past = some timer → Times past now m deadline .kept
  | succeeds : deadline ≠ .zero → m.state = .succeed →
      Times past now m deadline (.stopping (timer? m.action past))
  | other : m.state ≠ .probe → m.state ≠ .succeed → Times past now m deadline .kept

/-- What becomes of a message that the event loop takes. -/
inductive Decides (past : History ν) (now : ℕ) (m : Message) : Fate ν → Prop
  | last : m.action = .terminate ∨ (∀ a, handler? a past = none) → Decides past now m .last
  | skipped {a : Action} : m.action ≠ .terminate → handler? a past ≠ none →
      handler? m.action past = none → Decides past now m .skipped
  | handed {h : Handler ν} {task : TaskId} {change : TimerChange} : m.action ≠ .terminate →
      handler? m.action past = some h → task ∉ (handed past).map Prod.fst →
      Times past now m h.deadline change →
      (∀ timer, change = .armed timer → timer.task ∉ (armed past).map Timer.task) →
      Decides past now m (.handed task (h.body m) change)

/-- The report of a failure on a message. -/
def IsReport (m : Message) (failure : Failure) (back : Message) : Prop :=
  back.action = m.action ∧ back.state = .error ∧
    back.contents = [Text.Utf8.encode failure.full] ∧ back.visits = 0

/-- Who may push a message.  Timers push the copy of their probe once, when they have fired; a
failure is reported once, unless it was one on an error message; a request to stop is a terminate
message. -/
def MayPush (past : History ν) (task : TaskId) (m : Message) : Origin → Prop
  | .tricker action generation => ∃ timer ∈ armed past, timer.task = task ∧
      timer.origin = .tricker action generation ∧ m = timer.copy ∧
      deeds task past = [.fired task action generation]
  | .report m₀ => ∃ failure own, deeds task past = .failed task m₀ failure :: own ∧
      (∀ e ∈ own, e.isFailure = false) ∧ m₀.state ≠ .error ∧ IsReport m₀ failure m
  | .stopRequest => m.action = .terminate ∧ m.state = .probe
  | _ => True

/-- What may happen after a history. -/
def Lawful (past : History ν) (now : ℕ) : Event ν → Prop
  | .registered _ _ => True
  | .removed a change => change = .stopping (timer? a past)
  | .accepted task origin m => ¬ Stopped past ∧ MayPush past task m origin
  | .refused task origin m e => (Stopped past → e = .closed) ∧ MayPush past task m origin
  | .taken m fate => ¬ Over past ∧
      (∃ rest, (accepted past).map pushed = taken past ++ m :: rest) ∧ Decides past now m fate
  | .failed task m _ => (task, m) ∈ handed past ∧ ∀ e ∈ deeds task past, e.isFailure = false
  | .reported _ _ _ => True
  | .fired task action generation => ∃ timer, timer? action past = some timer ∧
      timer.task = task ∧ timer.generation = generation ∧ timer.due ≤ now ∧ deeds task past = []
  | .termed => ¬ Over past
  | .stopped => Over past ∨ ∃ m, past.head? = some (now, .taken m .last)

/-- A history in which everything that happened was lawful. -/
def Chronicle : History ν → Prop
  | [] => True
  | (now, e) :: past => Lawful past now e ∧ Chronicle past

variable {later past : History ν} {now : ℕ} {e : Event ν}

theorem Chronicle.before (chronicle : Chronicle (later ++ past)) : Chronicle past := by
  induction later with
  | nil => exact chronicle
  | cons e later ih => exact ih chronicle.2

theorem Chronicle.lawful (chronicle : Chronicle (later ++ (now, e) :: past)) :
    Lawful past now e :=
  chronicle.before.1

end History
end TreeCluster.Looper
