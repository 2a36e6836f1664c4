import TreeCluster.Looper.Run
import TreeCluster.Proofs.Table

/-! # Bookkeeping of tasks

What the bookkeeping of a machine changes, and what it leaves as it was.  To wake tasks changes
only who may act (`wakeAll_eq`); a task that goes on changes only what it is about to do
(`setActivity_eq`); a task that ends leaves all others as they were (`finish_eq`, `abort_eq`). -/

namespace TreeCluster

namespace Table

variable {α β : Type} [DecidableEq α]

/-- The table with the value under a key changed. -/
def adjust (t : Table α β) (key : α) (f : β → β) : Table α β :=
  match t.get? key with
  | none => t
  | some value => t.insert key (f value)

theorem get?_adjust (t : Table α β) (key other : α) (f : β → β) :
    (t.adjust key f).get? other =
      if other = key then (t.get? key).map f else t.get? other := by
  unfold adjust
  cases h : t.get? key with
  | none =>
      by_cases same : other = key
      · simp [same, h]
      · simp [same]
  | some value => simp [get?_insert]

end Table

namespace Looper.Machine

variable {ν : Type} (s : Machine ν)

/-! ### Waking -/

/-- The line of tasks that may act after some were woken. -/
def roused (tasks : List TaskId) : List TaskId :=
  tasks.foldl (fun ready task =>
    if s.tasks.contains task && !ready.contains task then ready ++ [task] else ready) s.ready

theorem wake_eq (task : TaskId) : s.wake task = { s with ready := s.roused [task] } := by
  simp only [wake, roused, List.foldl_cons, List.foldl_nil]
  split <;> rfl

theorem wakeAll_eq (tasks : List TaskId) :
    s.wakeAll tasks = { s with ready := s.roused tasks } := by
  induction tasks generalizing s with
  | nil => rfl
  | cons task tasks ih =>
      change (s.wake task).wakeAll tasks = _
      rw [ih, wake_eq]
      rfl

theorem mem_roused {tasks : List TaskId} {j : TaskId} :
    j ∈ s.roused tasks ↔ j ∈ s.ready ∨ j ∈ tasks ∧ s.tasks.contains j = true := by
  suffices ∀ ready : List TaskId, j ∈ tasks.foldl (fun ready task =>
      if s.tasks.contains task && !ready.contains task then ready ++ [task] else ready) ready ↔
      j ∈ ready ∨ j ∈ tasks ∧ s.tasks.contains j = true from this s.ready
  induction tasks with
  | nil => simp
  | cons task tasks ih =>
      intro ready
      rw [List.foldl_cons, ih]
      by_cases same : j = task
      · subst same
        cases s.tasks.contains j <;> by_cases inside : j ∈ ready <;> simp [inside]
      · split <;> simp [same]

theorem wakeServer_eq :
    s.wakeServer = { s with ready := s.roused s.looper.server.toList } :=
  s.wakeAll_eq _

theorem closeMailbox_eq :
    s.closeMailbox =
      { s with
        looper := { s.looper with mailbox := s.looper.mailbox.close.1 }
        ready := s.roused s.looper.mailbox.close.2 } :=
  wakeAll_eq _ _

/-! ### Going on, waiting and ending -/

theorem setActivity_eq (task : TaskId) (activity : Activity ν) :
    s.setActivity task activity =
      { s with tasks := s.tasks.adjust task fun t => { t with activity } } := by
  unfold setActivity Table.adjust
  cases s.tasks.get? task <;> rfl

theorem resume_eq (task : TaskId) (program : Program ν) :
    s.resume task program =
      { s with
        tasks := s.tasks.adjust task fun t => { t with activity := .active program }
        timers := s.timers.filter fun timer => timer.2 ≠ task } := by
  rw [resume, setActivity_eq]
  rfl

theorem suspend_eq (task : TaskId) (activity : Activity ν) (due : Option ℕ) :
    s.suspend task activity due =
      { s with
        tasks := s.tasks.adjust task fun t => { t with activity }
        timers := s.timers ++ (due.map fun due => (due, task)).toList } := by
  cases due with
  | none => simp [suspend, setActivity_eq]
  | some due => simp [suspend, setActivity_eq]

theorem finish_eq (task : TaskId) (origin : Origin) (result : Outcome) :
    ∃ results, s.finish task origin result =
      { s.remove task with results, ready := (s.remove task).roused (s.joiners task) } := by
  unfold finish
  dsimp only
  split
  · exact ⟨_, by rw [wakeAll_eq]; rfl⟩
  · exact ⟨_, by rw [wakeAll_eq]⟩

theorem abort_eq (task : TaskId) :
    s.abort task =
      { s.remove task with
        looper := { s.looper with mailbox := (s.looper.mailbox.withdraw task).1 }
        ready := (s.remove task).roused (s.looper.mailbox.withdraw task).2.toList } :=
  wakeAll_eq _ _

/-! ### The clock -/

theorem elapse_eq (now : ℕ) :
    s.elapse now =
      { s with
        now
        timers := s.timers.filter fun timer => !decide (timer.1 ≤ now)
        ready := s.roused ((s.timers.filter fun timer => timer.1 ≤ now).map Prod.snd) } := by
  simp only [elapse, List.partition_eq_filter_filter, wakeAll_eq]
  rfl

end Looper.Machine
end TreeCluster
