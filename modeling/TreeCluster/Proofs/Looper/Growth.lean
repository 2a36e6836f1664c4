import TreeCluster.Proofs.Looper.Tasks

/-! # The journal only grows

An act takes no time, and what it writes into the journal stands before everything that was there.
Most acts write nothing of messages that the event loop took (`Grows`).  When the loop takes one,
the act writes down just this, and that the loop has ended if it has (`Advances.step`). -/

namespace TreeCluster.Looper

variable {ν : Type}

/-- An event that is not about a message that the event loop took. -/
def Event.Calm : Event ν → Prop
  | .taken _ _ => False
  | _ => True

/-- No time passes, nothing is written down, and the numbers of tasks are not used again. -/
structure Still (s s' : Machine ν) : Prop where
  now : s'.now = s.now
  journal : s'.journal = s.journal
  fresh : s.fresh ≤ s'.fresh

/-- No time passes, and what is written down is calm. -/
structure Grows (s s' : Machine ν) : Prop where
  now : s'.now = s.now
  journal : ∃ events, s'.journal = events ++ s.journal ∧ ∀ e ∈ events, e.1 = s.now ∧ e.2.Calm

/-- What comes of an act of a task. -/
inductive Advances (s s' : Machine ν) : Prop
  | calm : Grows s s' → Advances s s'
  | last {m : Message} : s'.now = s.now →
      s'.journal = (s.now, .stopped) :: (s.now, .taken m .last) :: s.journal → Advances s s'
  | skipped {m : Message} : s'.now = s.now →
      s'.journal = (s.now, .taken m .skipped) :: s.journal → Advances s s'
  | handed {m : Message} {task : TaskId} {program : Program ν} {change : TimerChange} :
      s'.now = s.now →
      s'.journal = (s.now, .taken m (.handed task program change)) :: s.journal →
      s.fresh ≤ task → s'.tasks.get? task = some ⟨.handler m, .active program⟩ → Advances s s'

variable {s s' s'' : Machine ν} {task : TaskId} {origin : Origin}

/-! ### Nothing is written down -/

namespace Still

/-- What comes after stands first, so that the machine in between is read off it. -/
theorem after (second : Still s' s'') (first : Still s s') : Still s s'' :=
  ⟨second.now.trans first.now, second.journal.trans first.journal, first.fresh.trans second.fresh⟩

theorem wakeAll (tasks : List TaskId) : Still s (s.wakeAll tasks) := by
  rw [Machine.wakeAll_eq]
  exact ⟨rfl, rfl, le_rfl⟩

theorem resume (task : TaskId) (program : Program ν) : Still s (s.resume task program) := by
  rw [Machine.resume_eq]
  exact ⟨rfl, rfl, le_rfl⟩

theorem suspend (task : TaskId) (activity : Activity ν) (due : Option ℕ) :
    Still s (s.suspend task activity due) := by
  rw [Machine.suspend_eq]
  exact ⟨rfl, rfl, le_rfl⟩

theorem finish (task : TaskId) (origin : Origin) (result : Outcome) :
    Still s (s.finish task origin result) := by
  obtain ⟨results, finished⟩ := s.finish_eq task origin result
  rw [finished]
  exact ⟨rfl, rfl, le_rfl⟩

theorem abort (task : TaskId) : Still s (s.abort task) := by
  rw [Machine.abort_eq]
  exact ⟨rfl, rfl, le_rfl⟩

theorem abortAll (tasks : List TaskId) : Still s (tasks.foldl Machine.abort s) := by
  induction tasks generalizing s with
  | nil => exact ⟨rfl, rfl, le_rfl⟩
  | cons task tasks ih => exact .after ih (.abort task)

theorem closeMailbox : Still s s.closeMailbox := by
  rw [Machine.closeMailbox_eq]
  exact ⟨rfl, rfl, le_rfl⟩

theorem arm (probe : Message) (deadline : Duration) : Still s (s.arm probe deadline).1 := by
  unfold Machine.arm
  split
  · exact ⟨rfl, rfl, le_rfl⟩
  · exact ⟨rfl, rfl, Nat.le_succ _⟩

theorem disarm (action : Action) : Still s (s.disarm action).1 := by
  unfold Machine.disarm
  split
  · exact ⟨rfl, rfl, le_rfl⟩
  · exact .after (.abort _) ⟨rfl, rfl, le_rfl⟩

theorem vacate (action : Action) (generation : ℕ) : Still s (s.vacate action generation) := by
  unfold Machine.vacate
  split
  · exact ⟨rfl, rfl, le_rfl⟩
  · split <;> exact ⟨rfl, rfl, le_rfl⟩

theorem time (m : Message) (deadline : Duration) : Still s (s.time m deadline).1 := by
  unfold Machine.time
  split
  · exact ⟨rfl, rfl, le_rfl⟩
  · split
    · exact .arm m deadline
    · exact .disarm m.action
    · exact ⟨rfl, rfl, le_rfl⟩

theorem setInterval (period : ℕ) (tick : ℕ → Option Message) :
    Still s (s.setInterval period tick).1 := by
  unfold Machine.setInterval
  split
  · exact ⟨rfl, rfl, le_rfl⟩
  split
  · exact ⟨rfl, rfl, le_rfl⟩
  · exact ⟨rfl, rfl, Nat.le_succ _⟩

theorem join (other : TaskId) (limit : Option ℕ) (next : Option Outcome → Program ν) :
    Still s (s.join task other limit next).1 := by
  unfold Machine.join
  split
  · exact .resume _ _
  · split
    · exact .resume _ _
    · exact ⟨rfl, rfl, le_rfl⟩

end Still

/-! ### What is written down is calm -/

namespace Grows

theorem of_still (still : Still s s') : Grows s s' :=
  ⟨still.now, [], still.journal, by simp⟩

theorem after (second : Grows s' s'') (first : Grows s s') : Grows s s'' := by
  obtain ⟨events, journal, calm⟩ := first.journal
  obtain ⟨more, journal', calm'⟩ := second.journal
  refine ⟨second.now.trans first.now, more ++ events, by simp [journal', journal], ?_⟩
  intro e inside
  rcases List.mem_append.mp inside with late | early
  · exact ⟨(calm' e late).1.trans first.now, (calm' e late).2⟩
  · exact calm e early

theorem quiet (second : Still s' s'') (first : Grows s s') : Grows s s'' :=
  .after (.of_still second) first

theorem record {e : Event ν} (still : Still s s') (calm : e.Calm) : Grows s (s'.record e) :=
  ⟨still.now, [(s'.now, e)], congrArg (List.cons _) still.journal, by simp [still.now, calm]⟩

theorem accept (m : Message) (mailbox : Mailbox) : Grows s (s.accept task origin m mailbox) :=
  .quiet (.wakeAll _) (.record ⟨rfl, rfl, le_rfl⟩ trivial)

theorem refuse (m : Message) (next : Option Outcome → Program ν) :
    Grows s (s.refuse task origin m next).1 :=
  .quiet (.resume _ _) (.record ⟨rfl, rfl, le_rfl⟩ trivial)

theorem push (m : Message) (limit : Option ℕ) (next : Option Outcome → Program ν) :
    Grows s (s.push task origin m limit next).1 := by
  unfold Machine.push
  split
  · exact .refuse m next
  · split
    · exact .quiet (.resume _ _) (.accept m _)
    · exact .of_still (.after (.suspend _ _ _) ⟨rfl, rfl, le_rfl⟩)
    · exact .refuse m next

theorem pushAgain (m : Message) (limit : Option ℕ) (next : Option Outcome → Program ν) :
    Grows s (s.pushAgain task origin m limit next).1 := by
  unfold Machine.pushAgain
  split
  · exact .refuse m next
  split
  · exact .quiet (.resume _ _) (.accept m _)
  split
  · exact .of_still (.after (.resume _ _) (.after (.wakeAll _) ⟨rfl, rfl, le_rfl⟩))
  · exact .of_still ⟨rfl, rfl, le_rfl⟩

theorem tryPush (m : Message) : Grows s (s.tryPush task origin m).1 := by
  unfold Machine.tryPush
  split
  · exact .record ⟨rfl, rfl, le_rfl⟩ trivial
  · split
    · exact .accept m _
    · exact .record ⟨rfl, rfl, le_rfl⟩ trivial

theorem term (task : TaskId) : Grows s (s.term task) := by
  unfold Machine.term
  split
  · exact .of_still ⟨rfl, rfl, le_rfl⟩
  · have asked : Grows s ({ s with looper := { s.looper with closed := true } }.record .termed) :=
      .record ⟨rfl, rfl, le_rfl⟩ trivial
    dsimp only
    split
    · exact .after (.accept _ _) asked
    · exact .quiet (.wakeAll _) asked

end Grows

/-! ### The event loop takes a message -/

theorem Machine.journal_stop (s : Machine ν) :
    s.stop.journal = (s.now, .stopped) :: s.journal ∧ s.stop.now = s.now := by
  let gone := s.looper.trickers.entries.map (fun e => e.2.task) ++ s.looper.intervals
  have ended : Still s (gone.foldl Machine.abort s.closeMailbox) :=
    .after (.abortAll gone) .closeMailbox
  exact ⟨by rw [← ended.now, ← ended.journal]; rfl, ended.now⟩

theorem Grows.stop : Grows s s.stop :=
  ⟨s.journal_stop.2, [(s.now, .stopped)], s.journal_stop.1, by simp [Event.Calm]⟩

theorem Machine.dispatch_cases (s : Machine ν) (m : Message) :
    s.dispatch m = (s, .skipped) ∨
    ∃ s' task program change, s.dispatch m = (s', .handed task program change) ∧ Still s s' ∧
      s.fresh ≤ task ∧ s'.tasks.get? task = some ⟨.handler m, .active program⟩ := by
  unfold Machine.dispatch
  cases s.looper.handlers.get? m.action with
  | none => exact .inl rfl
  | some h =>
      have timed : Still s (s.time m h.deadline).1 := .time m h.deadline
      have started : Still s ((s.time m h.deadline).1.spawn (.handler m) (h.body m)).1 :=
        ⟨timed.now, timed.journal, timed.fresh.trans (Nat.le_succ _)⟩
      exact .inr ⟨_, _, _, _, rfl, started, timed.fresh, Table.get?_insert_self ..⟩

/-- A turn of the event loop, and what follows it if it was not for a message. -/
theorem Advances.turn : Advances s s.turn.1 ∧
    (s.turn.2 ≠ .tookMessage → ∀ s', Still s.turn.1 s' → Advances s s') := by
  have calm : ∀ r : Machine ν × Machine.Turn, Grows s r.1 → Advances s r.1 ∧
      (r.2 ≠ .tookMessage → ∀ s', Still r.1 s' → Advances s s') := fun r grows =>
    ⟨.calm grows, fun _ s' still => .calm (.quiet still grows)⟩
  unfold Machine.turn
  split
  · exact calm (s.stop, .stopped) .stop
  · split
    · exact calm (s, .idle) (.of_still ⟨rfl, rfl, le_rfl⟩)
    · rename_i m mailbox next _
      have took : Still s ({ s with looper := { s.looper with mailbox } }.wakeAll next.toList) :=
        .after (.wakeAll _) ⟨rfl, rfl, le_rfl⟩
      dsimp only
      generalize ({ s with looper := { s.looper with mailbox } }.wakeAll next.toList) = s₁ at took ⊢
      split
      · have ended := (s₁.record (.taken m .last)).journal_stop
        have journal : (s₁.record (.taken m .last)).stop.journal =
            (s.now, .stopped) :: (s.now, .taken m .last) :: s.journal := by
          rw [ended.1, ← took.now, ← took.journal]
          rfl
        have now := ended.2.trans took.now
        exact ⟨.last now journal, fun _ s' still =>
          .last (still.now.trans now) (still.journal.trans journal)⟩
      · refine ⟨?_, fun none => absurd rfl none⟩
        rcases s₁.dispatch_cases m with
          skips | ⟨s', task, program, change, hands, still, new, found⟩
        · rw [skips]
          have journal : (s₁.record (.taken m .skipped)).journal =
              (s.now, .taken m .skipped) :: s.journal := by
            rw [← took.now, ← took.journal]
            rfl
          exact .skipped took.now journal
        · rw [hands]
          have journal : (s'.record (.taken m (.handed task program change))).journal =
              (s.now, .taken m (.handed task program change)) :: s.journal := by
            rw [← took.now, ← took.journal, ← still.now, ← still.journal]
            rfl
          exact .handed (still.now.trans took.now) journal (took.fresh.trans new) found

/-! ### Acts -/

namespace Advances

theorem still (still : Still s s') : Advances s s' :=
  .calm (.of_still still)

theorem serve (limit : Option ℕ) (next : Option Outcome → Program ν) :
    Advances s (s.serve task limit next).1 := by
  obtain ⟨took, other⟩ := Advances.turn (s := s)
  unfold Machine.serve
  split <;> (rename_i s' turned; rw [turned] at took other)
  · exact took
  · exact other nofun _ (.resume _ _)
  · split
    · exact other nofun _ (.after (.resume _ _) .closeMailbox)
    · exact took

theorem act (program : Program ν) : Advances s (s.act task origin program).1 := by
  cases program with
  | done result => exact .still (.finish _ _ _)
  | fail failure =>
      cases origin with
      | handler m =>
          have failed : Grows s (s.record (.failed task m failure)) :=
            .record ⟨rfl, rfl, le_rfl⟩ trivial
          have became : Still (s.record (.failed task m failure)) ((s.record
              (.failed task m failure)).become task (.report m) (.ofFailure m failure)) :=
            ⟨rfl, rfl, le_rfl⟩
          exact .calm (.quiet became failed)
      | _ => exact .still (.finish _ _ _)
  | note entry next => exact .still (.after (.resume _ _) ⟨rfl, rfl, le_rfl⟩)
  | look next => exact .still (.resume _ _)
  | sleepUntil due next =>
      rw [Machine.act]
      split
      · exact .still (.resume _ _)
      · exact .still (.suspend _ (.sleeping due next) (some due))
  | push m patience next => exact .calm (.push m _ next)
  | tryPush m next => exact .calm (.quiet (.resume _ _) (.tryPush m))
  | addHandler action deadline body next =>
      exact .calm (.quiet (.resume _ _) (.record ⟨rfl, rfl, le_rfl⟩ trivial))
  | removeHandler action next =>
      have disarmed : Still s (s.disarm action).1 := .disarm action
      exact .calm (.quiet (.resume _ _)
        (.record ⟨disarmed.now, disarmed.journal, disarmed.fresh⟩ trivial))
  | setInterval period tick next =>
      exact .still (.after (.resume _ _) (.setInterval period tick))
  | every period due count tick =>
      rw [Machine.act]
      split
      · exact .still (.suspend _ (.sleeping due (.every period due count tick)) (some due))
      · cases tick count <;> exact .still (.resume _ _)
  | expire next =>
      cases origin with
      | tricker action generation =>
          exact .calm (.quiet (.resume _ _) (.record (.vacate action generation) trivial))
      | _ => exact .still (.resume _ _)
  | term next => exact .calm (.quiet (.resume _ _) (.term task))
  | serve patience next =>
      rw [Machine.act]
      split
      · exact .still (.resume _ _)
      · exact .still (.after (.suspend _ _ _) ⟨rfl, rfl, le_rfl⟩)
  | spawn child next => exact .still (.after (.resume _ _) ⟨rfl, rfl, Nat.le_succ _⟩)
  | join other patience next => exact .still (.suspend _ _ _)
  | report context message next =>
      exact .calm (.quiet (.resume _ _) (.record ⟨rfl, rfl, le_rfl⟩ trivial))

/-- Whatever happens, what is written down stands in front, with the time of the act. -/
theorem journal (advances : Advances s s') :
    s'.now = s.now ∧ ∃ events, s'.journal = events ++ s.journal ∧ ∀ e ∈ events, e.1 = s.now := by
  cases advances with
  | calm grows =>
      obtain ⟨now, events, journal, calm⟩ := grows
      exact ⟨now, events, journal, fun e inside => (calm e inside).1⟩
  | last now journal => exact ⟨now, [_, _], journal, by simp⟩
  | skipped now journal => exact ⟨now, [_], journal, by simp⟩
  | handed now journal => exact ⟨now, [_], journal, by simp⟩

/-- If an act writes down that a message was handed to a task, then it has started this task. -/
theorem starts (advances : Advances s s') {now : ℕ} {m : Message} {task : TaskId}
    {program : Program ν} {change : TimerChange}
    (handed : (now, .taken m (.handed task program change)) ∈ s'.journal) :
    (now, .taken m (.handed task program change)) ∈ s.journal ∨
      s.fresh ≤ task ∧ s'.tasks.get? task = some ⟨.handler m, .active program⟩ := by
  cases advances with
  | calm grows =>
      obtain ⟨-, events, journal, calm⟩ := grows
      rw [journal] at handed
      exact .inl ((List.mem_append.mp handed).resolve_left fun new => (calm _ new).2)
  | last _ journal =>
      rw [journal] at handed
      exact .inl (by simpa using handed)
  | skipped _ journal =>
      rw [journal] at handed
      exact .inl (by simpa using handed)
  | handed _ journal new found =>
      rw [journal] at handed
      rcases List.mem_cons.mp handed with same | old
      · cases same
        exact .inr ⟨new, found⟩
      · exact .inl old

/-- An act of a task adds to the journal. -/
theorem step (task : TaskId) : Advances s (s.step task).1 := by
  unfold Machine.step
  split
  · exact .still ⟨rfl, rfl, le_rfl⟩
  · split
    · exact .act _
    · split
      · exact .still (.resume _ _)
      · exact .still ⟨rfl, rfl, le_rfl⟩
    · exact .calm (.pushAgain _ _ _)
    · exact .serve _ _
    · exact .still (.join _ _ _)

end Advances
end TreeCluster.Looper
