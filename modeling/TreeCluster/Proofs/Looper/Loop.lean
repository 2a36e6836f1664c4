import TreeCluster.Proofs.Looper.Deeds

/-! # Turns of the event loop

What one turn of the event loop does: it takes a message, arms or stops a timer and starts a
handler, or it ends and stops every timer.  Each leaves all but the serving task in order, and the
serving task as it was. -/

namespace TreeCluster.Looper

open History

variable {ν : Type}

/-! ### Ending tasks -/

/-- Some tasks have been ended, and nothing else has happened. -/
structure Aborts (gone : List TaskId) (s s' : Machine ν) : Prop where
  spares : ∀ but, Spares but s s'
  journal : s'.journal = s.journal
  now : s'.now = s.now
  fresh : s'.fresh = s.fresh
  sink : s'.sink = s.sink
  mailbox : ∃ mailbox, s'.looper = { s.looper with mailbox } ∧
    mailbox.closed = s.looper.mailbox.closed ∧ mailbox.queue = s.looper.mailbox.queue ∧
    (s.looper.mailbox.waiting = [] → mailbox.waiting = [])
  origins : ∀ task, s'.origin? task = if task ∈ gone then none else s.origin? task

theorem aborts (gone : List TaskId) (s : Machine ν) :
    Aborts gone s (gone.foldl Machine.abort s) := by
  induction gone generalizing s with
  | nil =>
      exact ⟨fun _ => .wakeAll [], rfl, rfl, rfl, rfl, ⟨_, rfl, rfl, rfl, id⟩, fun _ => rfl⟩
  | cons task gone ih =>
      have first : s.abort task = _ := s.abort_eq task
      obtain ⟨mailbox, looper, closed, queue, waiting⟩ := (ih (s.abort task)).mailbox
      have later := ih (s.abort task)
      rw [List.foldl_cons]
      refine ⟨fun but => (Spares.abort task).trans (later.spares but), ?_, ?_, ?_, ?_,
        ⟨mailbox, ?_, ?_, ?_, fun nobody => waiting ?_⟩, fun other => ?_⟩
      · rw [later.journal, first]; rfl
      · rw [later.now, first]; rfl
      · rw [later.fresh, first]; rfl
      · rw [later.sink, first]; rfl
      · rw [looper, first]
      · rw [closed, first]; exact Mailbox.closed_withdraw ..
      · rw [queue, first]; exact Mailbox.queue_withdraw ..
      · rw [first]; exact Mailbox.waiting_withdraw _ _ nobody
      · rw [later.origins, first]
        by_cases same : other = task <;>
          simp [Machine.origin?, Machine.remove, Machine.cancel, Table.get?_erase, same]

/-! ### Timers -/

theorem Kept.distinct {s : Machine ν} (kept : Kept s) {a b : Action} {timer other : Timer}
    (runs : timer? a s.journal = some timer) (otherRuns : timer? b s.journal = some other)
    (same : timer.task = other.task) : a = b := by
  obtain ⟨rfl, -, -, works⟩ := kept.running a timer runs
  obtain ⟨rfl, -, -, otherWorks⟩ := kept.running b other otherRuns
  rw [same, otherWorks] at works
  exact (Origin.tricker.inj (Option.some.inj works)).1.symm

/-- The timer of an action has changed, and nothing else has happened. -/
structure Timed (s s' : Machine ν) (action : Action) (change : TimerChange) : Prop where
  spares : ∀ but, Spares but s s'
  journal : s'.journal = s.journal
  now : s'.now = s.now
  sink : s'.sink = s.sink
  looper : ∃ mailbox trickers generation,
    s'.looper = { s.looper with mailbox, trickers, generation } ∧
    mailbox.closed = s.looper.mailbox.closed ∧ mailbox.queue = s.looper.mailbox.queue ∧
    (s.looper.mailbox.waiting = [] → mailbox.waiting = []) ∧
    (s.looper.trickers.keys.Nodup → trickers.keys.Nodup) ∧
    ∀ a, trickers.get? a = (if a = action then change.after (timer? a s.journal)
      else timer? a s.journal).map Timer.slot
  /-- Only the task of a timer that is stopped ends. -/
  origins : ∀ task < s.fresh, s'.origin? task = s.origin? task ∨ s'.origin? task = none ∧
    ∃ timer, timer? action s.journal = some timer ∧ timer.task = task ∧
      change = .disarmed timer.generation
  /-- A timer whose task has not ended goes on. -/
  stays : ∀ timer t, timer? action s.journal = some timer →
    s'.tasks.get? timer.task = some t → change.after (some timer) = some timer
  /-- Only the task of a timer that is armed starts. -/
  starts : ∀ task t, s.fresh ≤ task → s'.tasks.get? task = some t →
    ∃ timer, change = .armed timer ∧ timer.task = task
  armed : ∀ timer, change = .armed timer → timer.probe.action = action ∧ timer.task = s.fresh ∧
    s'.fresh = s.fresh + 1 ∧ timer.task ∈ s'.ready ∧
    s'.tasks.get? timer.task = some ⟨timer.origin, .active (.tricker timer.due timer.copy)⟩

namespace Timed

variable {s : Machine ν}

theorem kept (kept : Kept s)
    (slots : ∀ a, s.looper.trickers.get? a = (timer? a s.journal).map Timer.slot)
    (action : Action) : Timed s s action .kept where
  spares but := .wakeAll []
  journal := rfl
  now := rfl
  sink := rfl
  looper := ⟨_, _, _, rfl, rfl, rfl, id, id, fun a => by simp [slots, TimerChange.after]⟩
  origins _ _ := .inl rfl
  stays _ _ _ _ := rfl
  starts task t late found := by
    have none := (kept.fresh task late).1
    simp [Machine.origin?, found] at none
  armed := nofun

theorem disarm (kept : Kept s)
    (slots : ∀ a, s.looper.trickers.get? a = (timer? a s.journal).map Timer.slot)
    (action : Action) : (s.disarm action).2 = .stopping (timer? action s.journal) ∧
      Timed s (s.disarm action).1 action (s.disarm action).2 := by
  have slot := slots action
  cases runs : timer? action s.journal with
  | none =>
      have idle : s.disarm action = (s, .kept) := by
        rw [runs] at slot
        simp [Machine.disarm, slot]
      rw [idle]
      exact ⟨rfl, .kept kept slots action⟩
  | some timer =>
      let cleared : Machine ν := { s with looper := { s.looper with
        trickers := s.looper.trickers.erase action } }
      have stops : s.disarm action = (cleared.abort timer.task, .disarmed timer.generation) := by
        rw [runs] at slot
        simp only [Machine.disarm, slot]
        rfl
      have ended : Aborts [timer.task] cleared (cleared.abort timer.task) := aborts _ _
      obtain ⟨mailbox, looper, closed, queue, waiting⟩ := ended.mailbox
      obtain ⟨-, -, -, works⟩ := kept.running action timer runs
      have origins : ∀ task, (cleared.abort timer.task).origin? task =
          if task = timer.task then none else s.origin? task := fun task => by
        rw [ended.origins]
        simp only [List.mem_singleton]
        rfl
      have found : ∀ task t, (cleared.abort timer.task).tasks.get? task = some t →
          task ≠ timer.task ∧ s.origin? task = some t.origin := fun task t found => by
        have works := origins task
        rw [Machine.origin?, found] at works
        by_cases same : task = timer.task
        · simp [same] at works
        · exact ⟨same, by simpa [same] using works.symm⟩
      rw [stops]
      refine ⟨rfl, fun but => ?_, ended.journal, ended.now, ended.sink,
        ⟨mailbox, _, _, looper, closed, queue, waiting, Table.nodup_keys_erase _ _, fun a => ?_⟩,
        fun task old => ?_,
        fun other t ran exist => ?_, fun task t late exist => ?_, fun _ armed => by cases armed⟩
      · have changed : Spares but s cleared := .looper rfl rfl rfl
        exact changed.trans (ended.spares but)
      · by_cases same : a = action <;>
          simp [cleared, Table.get?_erase, same, slots, TimerChange.after]
      · by_cases same : task = timer.task
        · exact .inr ⟨by simp [origins, same], timer, runs, same.symm, rfl⟩
        · exact .inl (by simp [origins, same])
      · obtain rfl : timer = other := Option.some.inj (runs.symm.trans ran)
        exact absurd rfl (found _ t exist).1
      · have old := (found task t exist).2
        rw [(kept.fresh task late).1] at old
        cases old

theorem arm (kept : Kept s)
    (slots : ∀ a, s.looper.trickers.get? a = (timer? a s.journal).map Timer.slot)
    (probe : Message) (deadline : Duration) (idle : timer? probe.action s.journal = none) :
    (s.arm probe deadline).2 = .armed ⟨probe, s.looper.generation + 1,
        s.now + deadline.sleepMillis, s.fresh⟩ ∧
      Timed s (s.arm probe deadline).1 probe.action (s.arm probe deadline).2 := by
  let timer : Timer := ⟨probe, s.looper.generation + 1, s.now + deadline.sleepMillis, s.fresh⟩
  let looper : Looper ν := { s.looper with
    trickers := s.looper.trickers.insert probe.action timer.slot
    generation := timer.generation }
  have arms : s.arm probe deadline =
      ({ (s.spawn timer.origin (.tricker timer.due timer.copy)).1 with looper }, .armed timer) := by
    have free : s.looper.trickers.contains probe.action = false := by
      simp [Table.contains, slots, idle]
    simp only [Machine.arm, free]
    rfl
  have tasks : ∀ task, ({ (s.spawn timer.origin (.tricker timer.due timer.copy)).1 with looper } :
      Machine ν).tasks.get? task = if task = s.fresh
        then some ⟨timer.origin, .active (.tricker timer.due timer.copy)⟩
        else s.tasks.get? task := fun task => Table.get?_insert ..
  rw [arms]
  refine ⟨rfl, fun but => ?_, rfl, rfl, rfl,
    ⟨_, _, _, rfl, rfl, rfl, id, Table.nodup_keys_insert _ _ _, fun a => ?_⟩,
    fun task old => .inl ?_, fun other t ran => ?_, fun task t late found => ?_, ?_⟩
  · exact (Spares.spawn timer.origin _).trans (.looper rfl rfl rfl)
  · by_cases same : a = probe.action <;>
      simp [Table.get?_insert, same, slots, TimerChange.after]
  · simp [Machine.origin?, tasks, old.ne]
  · rw [idle] at ran
    cases ran
  · refine ⟨timer, rfl, ?_⟩
    by_contra other
    rw [tasks, if_neg (Ne.symm other)] at found
    have none := (kept.fresh task late).1
    simp [Machine.origin?, found] at none
  · rintro _ same
    obtain rfl := TimerChange.armed.inj same
    exact ⟨rfl, rfl, rfl, by simp [Machine.spawn, timer], by simp [tasks, timer]⟩

theorem time (kept : Kept s)
    (slots : ∀ a, s.looper.trickers.get? a = (timer? a s.journal).map Timer.slot)
    (m : Message) (deadline : Duration) :
    Times s.journal s.now m deadline (s.time m deadline).2 ∧
      Timed s (s.time m deadline).1 m.action (s.time m deadline).2 := by
  have stay : Timed s s m.action .kept := .kept kept slots m.action
  by_cases timed : deadline = .zero
  · rw [Machine.time, if_pos timed]
    exact ⟨.untimed timed, stay⟩
  rw [Machine.time, if_neg timed]
  cases state : m.state with
  | probe =>
      cases runs : timer? m.action s.journal with
      | none =>
          obtain ⟨armed, changed⟩ := Timed.arm kept slots m deadline runs
          refine ⟨?_, changed⟩
          change Times _ _ _ _ (s.arm m deadline).2
          rw [armed]
          exact .arms timed state runs
      | some timer =>
          have running : s.arm m deadline = (s, .kept) := by
            have : s.looper.trickers.contains m.action = true := by
              simp [Table.contains, slots, runs]
            simp [Machine.arm, this]
          change Times _ _ _ _ (s.arm m deadline).2 ∧ Timed _ (s.arm m deadline).1 _ _
          rw [running]
          exact ⟨.runs timed state runs, stay⟩
  | succeed =>
      obtain ⟨stops, changed⟩ := Timed.disarm kept slots m.action
      refine ⟨?_, changed⟩
      change Times _ _ _ _ (s.disarm m.action).2
      rw [stops]
      exact .succeeds timed state
  | ask => exact ⟨.other (by simp [state]) (by simp [state]), stay⟩
  | failed => exact ⟨.other (by simp [state]) (by simp [state]), stay⟩
  | error => exact ⟨.other (by simp [state]) (by simp [state]), stay⟩
  | localOnly => exact ⟨.other (by simp [state]) (by simp [state]), stay⟩

variable {s' s'' : Machine ν} {action : Action} {change : TimerChange}

/-- Whoever does not work as a timer goes on. -/
theorem works (timed : Timed s s' action change) (kept : Kept s) {task : TaskId} {origin : Origin}
    (works : s.origin? task = some origin)
    (other : ∀ action generation, origin ≠ .tricker action generation) :
    s'.origin? task = some origin := by
  rcases timed.origins task (kept.lt_fresh works) with same | ⟨-, timer, runs, rfl, -⟩
  · exact same.trans works
  · obtain ⟨-, -, -, own⟩ := kept.running action timer runs
    rw [own] at works
    exact absurd (Option.some.inj works).symm (other _ _)

theorem begins (timed : Timed s s' action change) {task : TaskId} {t : Task ν}
    (late : s.fresh ≤ task) (found : s'.tasks.get? task = some t) :
    ∃ timer, change = .armed timer ∧ timer.probe.action = action ∧ timer.task = task ∧
      task < s'.fresh ∧ task ∈ s'.ready ∧
      t = ⟨timer.origin, .active (.tricker timer.due timer.copy)⟩ := by
  obtain ⟨timer, arms, rfl⟩ := timed.starts task t late found
  obtain ⟨own, number, following, ready, exist⟩ := timed.armed timer arms
  refine ⟨timer, arms, own, rfl, ?_, ready, (Option.some.inj (exist.symm.trans found)).symm⟩
  exact (number.trans_lt (Nat.lt_succ_self _)).trans_le following.ge

theorem yet (timed : Timed s s' action change) {task : TaskId} (late : s'.fresh ≤ task) :
    s'.origin? task = none := by
  cases found : s'.tasks.get? task with
  | none => simp [Machine.origin?, found]
  | some t =>
      obtain ⟨-, -, -, -, early, -⟩ := timed.begins ((timed.spares none).fresh.trans late) found
      exact absurd late (not_le.mpr early)

/-- The timers of the tasks that have not ended are those that the history tells of. -/
theorem goesOn (timed : Timed s s' action change) {a : Action} {timer : Timer} {t : Task ν}
    (runs : timer? a s.journal = some timer) (found : s'.tasks.get? timer.task = some t) :
    (if a = action then change.after (timer? a s.journal) else timer? a s.journal) =
      some timer := by
  split
  · rename_i same
    subst same
    rw [runs]
    exact timed.stays timer t runs found
  · exact runs

/-- The history accounts for every task once it tells of the change of the timer, whatever task
started then. -/
theorem account (timed : Timed s s' action change) (kept : Kept s) {e : Event ν}
    (nobody : e.task? = none) (lawful : Lawful s.journal s.now e)
    (journal : s''.journal = (s.now, e) :: s.journal) (later : s'.fresh ≤ s''.fresh)
    (fresh : ∀ task, s''.fresh ≤ task → s''.origin? task = none)
    (origins : ∀ task < s'.fresh, s''.origin? task = s'.origin? task)
    (handed : ∀ given ∈ handed s''.journal, given ∈ handed s.journal ∨ given.1 < s''.fresh)
    (armed : ∀ timer, timer ∈ History.armed s''.journal ↔
      timer ∈ History.armed s.journal ∨ change = .armed timer)
    (timers : ∀ a, timer? a s''.journal =
      if a = action then change.after (timer? a s.journal) else timer? a s.journal)
    (intervals : s''.looper.intervals = s.looper.intervals) (sink : s''.sink = s.sink) :
    Kept s'' := by
  have grows : s.fresh ≤ s'.fresh := (timed.spares none).fresh
  have stay : ∀ task < s.fresh, s''.origin? task = s.origin? task ∨ s''.origin? task = none ∧
      ∃ timer, timer? action s.journal = some timer ∧ timer.task = task ∧
        change = .disarmed timer.generation := fun task old => by
    rw [origins task (old.trans_le grows)]
    exact timed.origins task old
  refine kept.turnover nobody lawful journal (grows.trans later) fresh (fun task old => ?_) handed
    (fun timer inside => ?_) (fun a timer runs => ?_) (fun _ => by rw [intervals]; exact id) sink
  · refine (stay task old).imp_right fun ⟨gone, timer, runs, same, _⟩ => ⟨gone, .inl ?_⟩
    obtain ⟨-, -, idle, -⟩ := kept.running action timer runs
    exact same ▸ idle
  · refine ((armed timer).mp inside).imp_right fun arms => ?_
    obtain ⟨-, same, next, -⟩ := timed.armed timer arms
    exact (same.trans_lt (Nat.lt_succ_self _)).trans_le (next.ge.trans later)
  · rw [timers] at runs
    -- A timer that ran before still does, if its task was not the one that ended.
    have goesOn : ∀ timer, timer? a s.journal = some timer →
        (∀ other, timer? action s.journal = some other → timer.task = other.task →
          change ≠ .disarmed other.generation) → s''.origin? timer.task = s.origin? timer.task := by
      intro timer ran other
      obtain ⟨-, -, -, works⟩ := kept.running a timer ran
      refine (stay timer.task (kept.lt_fresh works)).resolve_right ?_
      rintro ⟨-, ended, endedRan, same, stops⟩
      exact other ended endedRan same.symm stops
    split at runs
    · rename_i same
      subst same
      cases change with
      | kept => exact .inl ⟨runs, goesOn timer runs nofun⟩
      | disarmed generation => cases runs
      | armed new =>
          obtain rfl := Option.some.inj runs
          obtain ⟨own, number, next, -, found⟩ := timed.armed new rfl
          refine .inr ⟨own, (armed new).mpr (.inr rfl), number.ge, ?_⟩
          rw [origins _ ((number.trans_lt (Nat.lt_succ_self _)).trans_le next.ge)]
          simp [Machine.origin?, found]
    · rename_i foreign
      exact .inl ⟨runs, goesOn timer runs fun other ran same =>
        absurd (kept.distinct runs ran same) foreign⟩

end Timed

namespace Amid

variable {s : Machine ν} {task : TaskId} {origin : Origin}

theorem removeHandler (amid : Amid s task origin) (action : Action)
    (user : ∀ action generation, origin ≠ .tricker action generation) :
    Amid ({ (s.disarm action).1 with looper := { (s.disarm action).1.looper with
      handlers := (s.disarm action).1.looper.handlers.erase action } }.record
        (.removed action (s.disarm action).2)) task origin := by
  obtain ⟨stops, timed⟩ := Timed.disarm amid.kept amid.agrees.timers action
  generalize (s.disarm action).2 = change at *
  generalize (s.disarm action).1 = s' at *
  obtain ⟨mailbox, trickers, generation, looper, closed, queue, waiting, single, slots⟩ :=
    timed.looper
  have idle : change.after (timer? action s.journal) = none :=
    stops ▸ TimerChange.after_stopping _
  have timers : ∀ a, timer? a ((s'.now, .removed action change) :: s'.journal) =
      if a = action then change.after (timer? a s.journal) else timer? a s.journal := fun a => by
    rw [timed.journal]
    by_cases same : a = action
    · simp [timer?, same]
    · simp [timer?, same, Ne.symm same]
  have agrees : Agrees { s'.looper with handlers := s'.looper.handlers.erase action }
      ((s'.now, .removed action change) :: s'.journal) := by
    rw [looper, timed.journal, stops]
    refine amid.agrees.remove action (amid.agrees.withMailbox closed.trans (fun _ => queue)
      fun shut => ?_) (fun a => ?_) (single amid.agrees.single)
    · obtain ⟨empty, nobody⟩ := amid.agrees.shut (closed.symm.trans shut)
      exact ⟨queue.trans empty, waiting nobody⟩
    · rw [slots, amid.agrees.timers]
      by_cases same : a = action
      · simp [same, idle]
      · simp [same]
  have foreign : ∀ timer, change ≠ .armed timer := fun timer => by
    rw [stops]
    cases timer? action s.journal <;> simp [TimerChange.stopping]
  have kept : Kept ({ s' with looper := { s'.looper with
      handlers := s'.looper.handlers.erase action } }.record (.removed action change)) :=
    timed.account amid.kept (e := .removed action change) rfl stops
      (by simp [Machine.record, timed.now, timed.journal]) le_rfl (fun _ => timed.yet)
      (fun _ _ => rfl)
      (fun given inside => .inl (by simpa [Machine.record, timed.journal, handed] using inside))
      (fun timer => by simp [Machine.record, timed.journal, armed, foreign])
      timers (by simp [Machine.record, looper]) timed.sink
  have changed : Spares (some task) s { s' with looper := { s'.looper with
      handlers := s'.looper.handlers.erase action } } :=
    (timed.spares _).trans (.looper rfl rfl rfl)
  have spares := changed.trans (.record (e := .removed action change) (fun _ own => by cases own)
    fun a timer t runs _ found => by
      exact (timers a).trans (timed.goesOn (timed.journal ▸ runs) found))
  refine amid.of_spares spares agrees kept (timed.works amid.kept amid.works user)
    fun other t late new found => ?_
  obtain ⟨timer, arms, -⟩ := timed.starts other t late found
  exact absurd arms (foreign timer)

end Amid

/-! ### Taking a message -/

/-- The loop has taken a message out of the mailbox, and nothing else has happened. -/
structure Took (s s' : Machine ν) (m : Message) : Prop where
  spares : Spares none s s'
  journal : s'.journal = s.journal
  now : s'.now = s.now
  fresh : s'.fresh = s.fresh
  sink : s'.sink = s.sink
  looper : ∃ mailbox rest, s'.looper = { s.looper with mailbox } ∧
    s.looper.mailbox.queue = m :: rest ∧ mailbox.queue = rest ∧ mailbox.closed = false
  origins : ∀ task, s'.origin? task = s.origin? task

namespace Amid

variable {s s' s'' : Machine ν} {task : TaskId} {origin : Origin} {m : Message}

theorem took (amid : Amid s task origin) {mailbox : Mailbox} {next : Option TaskId}
    (took : s.looper.mailbox.take? = some (m, mailbox, next)) :
    Took s ({ s with looper := { s.looper with mailbox } }.wakeAll next.toList) m := by
  obtain ⟨rest, queue, left, closed, keeps⟩ := s.looper.mailbox.take?_eq_some m took
  have opened : s.looper.mailbox.closed = false := by
    cases shut : s.looper.mailbox.closed with
    | false => rfl
    | true => rw [(amid.agrees.shut shut).1] at queue; cases queue
  have spares : Spares none s ({ s with looper := { s.looper with mailbox } }.wakeAll
      next.toList) := .mailbox keeps
  rw [Machine.wakeAll_eq] at spares ⊢
  exact ⟨spares, rfl, rfl, rfl, rfl, ⟨mailbox, rest, rfl, queue, left, closed.trans opened⟩,
    fun _ => rfl⟩

theorem kept_of_took (amid : Amid s task origin) (took : Took s s' m) : Kept s' := by
  obtain ⟨mailbox, rest, looper, -⟩ := took.looper
  exact amid.kept.congr took.journal took.fresh took.origins (by rw [looper]) took.sink

theorem slots_of_took (amid : Amid s task origin) (took : Took s s' m) (a : Action) :
    s'.looper.trickers.get? a = (timer? a s'.journal).map Timer.slot := by
  obtain ⟨mailbox, rest, looper, -⟩ := took.looper
  rw [looper, took.journal]
  exact amid.agrees.timers a

/-- It is lawful to take a message, whatever becomes of it. -/
theorem takes (amid : Amid s task origin) (opened : s.looper.closed = false)
    (took : Took s s' m) {fate : Fate ν} (decides : Decides s.journal s.now m fate) :
    Lawful s.journal s.now (.taken m fate) := by
  obtain ⟨mailbox, rest, -, queue, -, -⟩ := took.looper
  refine ⟨?_, ⟨rest, ?_⟩, decides⟩
  · rw [← amid.agrees.closed, opened]
    nofun
  · rw [← queue]
    refine amid.agrees.queue ?_
    cases closed : s.looper.mailbox.closed with
    | false => rfl
    | true => rw [(amid.agrees.shut closed).1] at queue; cases queue

theorem take (amid : Amid s task origin) (opened : s.looper.closed = false) (took : Took s s' m)
    {fate : Fate ν} (apart : (Event.taken m fate).Apart)
    (decides : Decides s.journal s.now m fate) :
    Amid (s'.record (.taken m fate)) task origin ∧ Spares none s (s'.record (.taken m fate)) := by
  obtain ⟨mailbox, rest, looper, queue, left, stillOpen⟩ := took.looper
  have lawful := amid.takes opened took decides
  have timers : ∀ a, timer? a ((s'.now, .taken m fate) :: s'.journal) = timer? a s'.journal := by
    cases fate with
    | handed task program change => exact apart.elim
    | _ => exact fun _ => rfl
  have spares : Spares none s (s'.record (.taken m fate)) :=
    took.spares.trans (.record nofun fun a _ _ runs _ _ => by
      exact (timers a).trans runs)
  have same : Kept s' := amid.kept_of_took took
  have kept : Kept (s'.record (.taken m fate)) :=
    same.apart apart (by rwa [took.journal, took.now])
  have agrees : Agrees s'.looper ((s'.now, .taken m fate) :: s'.journal) := by
    rw [looper, took.journal]
    refine amid.agrees.take lawful.1 queue stillOpen left (fun a => ?_) amid.agrees.single
    rw [took.journal] at timers
    exact (amid.agrees.timers a).trans (by rw [timers])
  exact ⟨amid.of_spares spares.weaken agrees kept ((took.origins task).trans amid.works)
    fun _ _ old new => absurd (took.fresh ▸ new) (not_lt.mpr old), spares⟩

end Amid

/-! ### Handing a message on -/

/-- The loop has taken a message, done to the timer of its action what it had to, and is about to
start the task of its handler and to write this down. -/
structure Hands (s s' s'' : Machine ν) (m : Message) (h : Handler ν) (change : TimerChange) :
    Prop where
  took : Took s s' m
  kept : Kept s'
  timed : Timed s' s'' m.action change
  lawful : Lawful s.journal s.now (.taken m (.handed s''.fresh (h.body m) change))

namespace Hands

variable {s s' s'' : Machine ν} {m : Message} {h : Handler ν} {change : TimerChange}

/-- The handler's task has started, and this is written down. -/
def handedOn (s'' : Machine ν) (m : Message) (h : Handler ν) (change : TimerChange) : Machine ν :=
  (s''.spawn (.handler m) (h.body m)).1.record (.taken m (.handed s''.fresh (h.body m) change))

theorem grows (hands : Hands s s' s'' m h change) : s.fresh ≤ s''.fresh :=
  hands.took.fresh ▸ (hands.timed.spares none).fresh

theorem journal (hands : Hands s s' s'' m h change) : (handedOn s'' m h change).journal =
    (s'.now, .taken m (.handed s''.fresh (h.body m) change)) :: s'.journal := by
  rw [← hands.timed.now, ← hands.timed.journal]
  rfl

theorem tasks (other : TaskId) : (handedOn s'' m h change).tasks.get? other =
    if other = s''.fresh then some ⟨.handler m, .active (h.body m)⟩ else s''.tasks.get? other :=
  Table.get?_insert ..

theorem origins {other : TaskId} (foreign : other ≠ s''.fresh) :
    (handedOn s'' m h change).origin? other = s''.origin? other := by
  simp [Machine.origin?, tasks, foreign]

theorem timers (hands : Hands s s' s'' m h change) (a : Action) :
    timer? a (handedOn s'' m h change).journal =
      if a = m.action then change.after (timer? a s'.journal) else timer? a s'.journal := by
  rw [hands.journal]
  by_cases same : a = m.action
  · simp [timer?, same]
  · simp [timer?, same, Ne.symm same]

theorem mem_armed_iff (hands : Hands s s' s'' m h change) (timer : Timer) :
    timer ∈ armed (handedOn s'' m h change).journal ↔
      timer ∈ armed s'.journal ∨ change = .armed timer := by
  rw [hands.journal]
  cases change <;> simp [armed, or_comm, eq_comm]

theorem kept_handedOn (hands : Hands s s' s'' m h change) : Kept (handedOn s'' m h change) := by
  obtain ⟨mailbox, trickers, generation, looper, -⟩ := hands.timed.looper
  refine hands.timed.account (e := .taken m (.handed s''.fresh (h.body m) change)) hands.kept rfl
    (by rw [hands.took.journal, hands.took.now]; exact hands.lawful) hands.journal
    (Nat.le_succ _) (fun other late => ?_) (fun other old => origins old.ne)
    (fun given inside => ?_) hands.mem_armed_iff hands.timers
    (show s''.looper.intervals = _ by rw [looper]) hands.timed.sink
  · rw [origins (Nat.lt_of_succ_le late).ne']
    exact hands.timed.yet (Nat.le_of_succ_le late)
  · rw [hands.journal] at inside
    rcases List.mem_cons.mp inside with rfl | old
    · exact .inr (Nat.lt_succ_self _)
    · exact .inl old

theorem agrees (hands : Hands s s' s'' m h change) (agrees : Agrees s.looper s.journal) :
    Agrees (handedOn s'' m h change).looper (handedOn s'' m h change).journal := by
  obtain ⟨mailbox, rest, looper, queue, left, stillOpen⟩ := hands.took.looper
  obtain ⟨mailbox', trickers, generation, looper', closed, queue', -, single, slots⟩ :=
    hands.timed.looper
  have timers := hands.timers
  rw [hands.journal, hands.took.journal] at timers ⊢
  change Agrees s''.looper _
  rw [looper', looper]
  rw [looper] at closed queue' single
  refine agrees.take hands.lawful.1 queue (closed.trans stillOpen) (queue'.trans left)
    (fun a => ?_) (single agrees.single)
  rw [slots, timers, hands.took.journal]

theorem spares (hands : Hands s s' s'' m h change) : Spares none s (handedOn s'' m h change) := by
  have before : Spares none s (s''.spawn (.handler m) (h.body m)).1 :=
    (hands.took.spares.trans (hands.timed.spares none)).trans (.spawn _ _)
  refine before.trans (.record nofun fun a timer t runs _ found => ?_)
  have runs' : timer? a s'.journal = some timer := hands.timed.journal ▸ runs
  obtain ⟨-, -, -, works⟩ := hands.kept.running a timer runs'
  have old := (hands.kept.lt_fresh works).trans_le (hands.timed.spares none).fresh
  have exist : s''.tasks.get? timer.task = some t := by
    have known : (handedOn s'' m h change).tasks.get? timer.task = _ := tasks timer.task
    rw [if_neg old.ne] at known
    exact known.symm.trans found
  exact (hands.timers a).trans (hands.timed.goesOn runs' exist)

/-- The tasks that have started are in order: the handler's, and that of a timer. -/
theorem starts (hands : Hands s s' s'' m h change) (kept : Kept s) {other current : TaskId}
    {t : Task ν} (late : s.fresh ≤ other)
    (found : (handedOn s'' m h change).tasks.get? other = some t) :
    Fits (handedOn s'' m h change) other t.activity t.origin ∧
      Heeded (handedOn s'' m h change) (some current) other t.activity := by
  have idle : deeds other (handedOn s'' m h change).journal = [] := by
    rw [hands.journal, hands.took.journal]
    exact (kept.fresh other late).2.1
  rw [tasks] at found
  split at found
  · rename_i number
    subst number
    obtain rfl := Option.some.inj found
    refine ⟨⟨?_, by simp [idle]⟩, trivial, .inr (.inl (List.mem_append_right _ (.head _)))⟩
    rw [hands.journal]
    exact List.mem_cons_self
  · obtain ⟨timer, rfl, own, rfl, -, ready, rfl⟩ :=
      hands.timed.begins (hands.took.fresh.trans_le late) found
    refine ⟨⟨timer, (hands.mem_armed_iff timer).mpr (.inr rfl), rfl, rfl, ?_, fun _ => ?_⟩, trivial,
      .inr (.inl (List.mem_append_left _ ready))⟩
    · rw [idle]
      exact .begun
    · exact (hands.timers _).trans (if_pos own)

end Hands

namespace Amid

variable {s s' s'' : Machine ν} {task : TaskId} {origin : Origin} {m : Message}

theorem hand (amid : Amid s task origin) (opened : s.looper.closed = false) (took : Took s s' m)
    (goes : m.action ≠ .terminate) {h : Handler ν}
    (known : handler? m.action s.journal = some h)
    (user : ∀ action generation, origin ≠ .tricker action generation) {change : TimerChange}
    (timing : s'.time m h.deadline = (s'', change)) :
    Amid (Hands.handedOn s'' m h change) task origin ∧
      Spares none s (Hands.handedOn s'' m h change) := by
  have kept : Kept s' := amid.kept_of_took took
  obtain ⟨times, timed⟩ := Timed.time kept (amid.slots_of_took took) m h.deadline
  rw [timing] at times timed
  have hands : Hands s s' s'' m h change := by
    refine ⟨took, kept, timed, amid.takes opened took (.handed goes known ?_ ?_ ?_)⟩
    · exact (amid.kept.fresh s''.fresh (took.fresh ▸ (timed.spares none).fresh)).2.2.1
    · rwa [took.journal, took.now] at times
    · intro timer arms
      obtain ⟨-, number, -⟩ := timed.armed timer arms
      exact (amid.kept.fresh timer.task (number.trans took.fresh).ge).2.2.2
  have works : (Hands.handedOn s'' m h change).origin? task = some origin := by
    rw [Hands.origins ((amid.kept.lt_fresh amid.works).trans_le hands.grows).ne]
    exact timed.works kept ((took.origins task).trans amid.works) user
  exact ⟨amid.of_spares hands.spares.weaken (hands.agrees amid.agrees) hands.kept_handedOn works
    fun other t late _ found => hands.starts amid.kept late found, hands.spares⟩

/-! ### The end of the loop -/

theorem mem_timers (amid : Amid s task origin) {other : TaskId} :
    other ∈ s.looper.trickers.entries.map (fun e => e.2.task) ++ s.looper.intervals ↔
      (∃ a timer, timer? a s.journal = some timer ∧ timer.task = other) ∨
        other ∈ s.looper.intervals := by
  rw [List.mem_append, List.mem_map]
  refine or_congr_left ⟨?_, ?_⟩
  · rintro ⟨e, inside, rfl⟩
    have slot := Table.get?_of_mem_entries amid.agrees.single inside
    rw [amid.agrees.timers] at slot
    obtain ⟨timer, runs, same⟩ := Option.map_eq_some_iff.mp slot
    exact ⟨e.1, timer, runs, by rw [← same]; rfl⟩
  · rintro ⟨a, timer, runs, rfl⟩
    have slot := amid.agrees.timers a
    rw [runs] at slot
    exact ⟨_, Table.mem_entries_of_get? slot, rfl⟩

end Amid

/-- The tasks of all timers have ended. -/
structure Ends (gone : List TaskId) (s s' : Machine ν) : Prop where
  aborts : Aborts gone s s'
  all : ∀ other, other ∈ gone ↔
    (∃ a timer, timer? a s.journal = some timer ∧ timer.task = other) ∨
      other ∈ s.looper.intervals

namespace Ends

variable {gone : List TaskId} {s s' : Machine ν}

/-- The looper has no timers any more, and its end is written down. -/
def stopped (s : Machine ν) : Machine ν :=
  { s with
    looper := { s.looper with trickers := .empty, intervals := [], closed := true } }.record
      .stopped

theorem kept (ends : Ends gone s s') (kept : Kept s) (lawful : Lawful s.journal s.now .stopped) :
    Kept (stopped s') := by
  obtain ⟨aborts, all⟩ := ends
  refine kept.turnover (e := .stopped) rfl lawful
    (by simp [stopped, Machine.record, aborts.now, aborts.journal]) aborts.fresh.ge
    (fun other late => ?_) (fun other old => ?_) (fun given old => .inl ?_)
    (fun timer old => .inl ?_) (fun a timer runs => ?_)
    (fun _ inside => absurd inside List.not_mem_nil) aborts.sink
  · have none := (kept.fresh other (aborts.fresh ▸ late)).1
    refine (aborts.origins other).trans ?_
    rw [none, ite_self]
  · have origins := aborts.origins other
    by_cases named : other ∈ gone
    · rw [if_pos named] at origins
      rcases (all other).mp named with ⟨a, timer, runs, rfl⟩ | interval
      · exact .inr ⟨origins, .inl (kept.running a timer runs).2.2.1⟩
      · cases works : s.origin? other with
        | none => exact .inl origins
        | some own =>
            rw [(kept.intervals other interval).2 own works]
            exact .inr ⟨origins, .inr rfl⟩
    · exact .inl (by rwa [if_neg named] at origins)
  · simpa [stopped, Machine.record, aborts.journal, handed] using old
  · simpa [stopped, Machine.record, aborts.journal, armed] using old
  · simp [stopped, Machine.record, timer?] at runs

/-- Whoever is left is spared: no timer of theirs was stopped. -/
theorem spares (ends : Ends gone s s') (but : Option TaskId) : Spares but s (stopped s') := by
  obtain ⟨aborts, all⟩ := ends
  have before := aborts.spares but
  refine ⟨before.now, before.fresh, before.handed, before.armed, before.served,
    fun other t foreign old found => ?_⟩
  have spared := before.others other t foreign old found
  have alive : other ∉ gone := fun named => by
    have none := aborts.origins other
    have exist : s'.tasks.get? other = some t := found
    rw [if_pos named, Machine.origin?, exist] at none
    cases none
  exact ⟨spared.was, spared.deeds,
    fun a timer runs same => absurd ((all other).mpr (.inl ⟨a, timer, runs, same⟩)) alive,
    fun interval => absurd ((all other).mpr (.inr interval)) alive,
    spared.ready, spared.rings, spared.waits, spared.heard⟩

end Ends

namespace Amid

variable {s s' : Machine ν} {task : TaskId} {origin : Origin}

/-- Once the mailbox is closed, the timers end, and the looper has stopped. -/
theorem stopTimers (amid : Amid s task origin) (shut : s.looper.mailbox.closed = true)
    (served : s.looper.server.isSome = true)
    (user : origin ≠ .interval ∧ ∀ action generation, origin ≠ .tricker action generation)
    (reason : Over s.journal ∨ ∃ m, s.journal.head? = some (s.now, .taken m .last))
    {gone : List TaskId} (ends : Ends gone s s') : Amid (Ends.stopped s') task origin := by
  obtain ⟨mailbox, looper, closed, queue, waiting⟩ := ends.aborts.mailbox
  obtain ⟨empty, nobody⟩ := amid.agrees.shut shut
  have agrees : Agrees { s'.looper with trickers := .empty, intervals := [], closed := true }
      ((s'.now, .stopped) :: s'.journal) := by
    rw [looper, ends.aborts.journal]
    exact amid.agrees.stop (closed.trans shut) (queue.trans empty) (waiting nobody) served
  have foreign : task ∉ gone := by
    rw [ends.all]
    rintro (⟨a, timer, runs, rfl⟩ | interval)
    · obtain ⟨-, -, -, works⟩ := amid.kept.running a timer runs
      rw [amid.works] at works
      exact user.2 _ _ (Option.some.inj works)
    · exact user.1 ((amid.kept.intervals task interval).2 origin amid.works)
  refine amid.of_spares (ends.spares _) agrees (ends.kept amid.kept reason) ?_
    fun _ _ old new => absurd (ends.aborts.fresh ▸ new) (not_lt.mpr old)
  refine (ends.aborts.origins task).trans ?_
  rw [if_neg foreign, amid.works]

theorem stop (amid : Amid s task origin) (served : s.looper.server.isSome = true)
    (user : origin ≠ .interval ∧ ∀ action generation, origin ≠ .tricker action generation)
    (reason : Over s.journal ∨ ∃ m, s.journal.head? = some (s.now, .taken m .last)) :
    Amid s.stop task origin := by
  have closing : Amid s.closeMailbox task origin := amid.closeMailbox
  have shut := s.closeMailbox_eq
  have timers : s.looper.trickers.entries.map (fun e => e.2.task) ++ s.looper.intervals =
      s.closeMailbox.looper.trickers.entries.map (fun e => e.2.task) ++
        s.closeMailbox.looper.intervals := by rw [shut]
  have ends := Ends.mk (aborts _ s.closeMailbox) fun other => closing.mem_timers
  rw [← timers] at ends
  have closed : s.closeMailbox.looper.mailbox.closed = true := by rw [shut]; rfl
  have serving : s.closeMailbox.looper.server.isSome = true := by rw [shut]; exact served
  refine closing.stopTimers closed serving user ?_ ends
  rw [shut]
  exact reason

end Amid

/-! ### One turn -/

/-- What holds after a turn of the event loop: it may have done nothing. -/
def Turned (s : Machine ν) (task : TaskId) (origin : Origin) :
    Machine ν × Machine.Turn → Prop
  | (s', .tookMessage) => Free s' task origin ∧ Spares none s s'
  | (s', .stopped) => Free s' task origin
  | (s', .idle) => s' = s

namespace Free

variable {s s' : Machine ν} {task : TaskId} {origin : Origin} {m : Message}

theorem noTimer (free : Free s task origin) :
    origin ≠ .interval ∧ ∀ action generation, origin ≠ .tricker action generation := by
  obtain rfl | ⟨m, rfl⟩ := free.user <;> simp

theorem stop (free : Free s task origin) (served : s.looper.server.isSome = true)
    (ends : Over s.journal ∨ ∃ m, s.journal.head? = some (s.now, .taken m .last)) :
    Free s.stop task origin := by
  refine free.next (free.toAmid.stop served free.noTimer ends)
    (.inr ⟨_, .stopped, congrArg (List.cons _) ?_, rfl⟩)
  obtain ⟨-, journal, -⟩ := aborts (s.looper.trickers.entries.map (fun e => e.2.task) ++
    s.looper.intervals) s.closeMailbox
  exact journal.trans (by rw [s.closeMailbox_eq])

theorem dispatch (free : Free s task origin) (opened : s.looper.closed = false)
    (took : Took s s' m) (goes : m.action ≠ .terminate) {a : Action}
    (some : handler? a s.journal ≠ none) :
    Free ((s'.dispatch m).1.record (.taken m (s'.dispatch m).2)) task origin ∧
      Spares none s ((s'.dispatch m).1.record (.taken m (s'.dispatch m).2)) := by
  obtain ⟨mailbox, rest, looper, -⟩ := took.looper
  have handlers : s'.looper.handlers.get? m.action = handler? m.action s.journal := by
    rw [looper]
    exact free.agrees.handlers m.action
  cases known : handler? m.action s.journal with
  | none =>
      have skips : s'.dispatch m = (s', .skipped) := by
        simp [Machine.dispatch, handlers, known]
      rw [skips]
      obtain ⟨amid, spares⟩ : Amid (s'.record (.taken m .skipped)) task origin ∧
          Spares none s (s'.record (.taken m .skipped)) :=
        free.toAmid.take opened took trivial (.skipped goes some known)
      exact ⟨free.next amid (.inr ⟨_, _, congrArg (List.cons _) took.journal, rfl⟩), spares⟩
  | some h =>
      cases timing : s'.time m h.deadline with
      | mk s'' change =>
          have hands : s'.dispatch m = ((s''.spawn (.handler m) (h.body m)).1,
              .handed s''.fresh (h.body m) change) := by
            simp only [Machine.dispatch, handlers, known, timing]
            rfl
          rw [hands]
          obtain ⟨amid, spares⟩ := free.toAmid.hand opened took goes known free.noTimer.2 timing
          refine ⟨free.next amid (.inr ⟨_, _, congrArg (List.cons _) ?_, rfl⟩), spares⟩
          have timed := (Timed.time (free.toAmid.kept_of_took took)
            (free.toAmid.slots_of_took took) m h.deadline).2
          rw [timing] at timed
          exact timed.journal.trans took.journal

theorem turn (free : Free s task origin) (served : s.looper.server.isSome = true) :
    Turned s task origin s.turn := by
  unfold Machine.turn
  split
  · rename_i closed
    exact free.stop served (.inl (free.agrees.closed.mp closed))
  rename_i goesOn
  have opened : s.looper.closed = false := by simpa using goesOn
  cases front : s.looper.mailbox.take? with
  | none => exact rfl
  | some front' =>
      obtain ⟨m, mailbox, next⟩ := front'
      have took := free.toAmid.took front
      dsimp only
      generalize ({ s with looper := { s.looper with mailbox } }.wakeAll next.toList) = s' at took ⊢
      obtain ⟨mailbox', rest, looper, -⟩ := took.looper
      have nobody : s'.looper.handlers.isEmpty = true ↔ ∀ a, handler? a s.journal = none := by
        rw [looper, Table.isEmpty_eq_true_iff]
        simp only [free.agrees.handlers]
      split
      · rename_i ends
        have decides : m.action = .terminate ∨ ∀ a, handler? a s.journal = none := by
          simpa [nobody] using ends
        obtain ⟨amid, spares⟩ : Amid (s'.record (.taken m .last)) task origin ∧
            Spares none s (s'.record (.taken m .last)) :=
          free.toAmid.take opened took trivial (.last decides)
        have free' : Free (s'.record (.taken m .last)) task origin :=
          free.next amid (.inr ⟨_, _, congrArg (List.cons _) took.journal, rfl⟩)
        exact free'.stop (spares.served served) (.inr ⟨m, rfl⟩)
      · rename_i goesOn
        have goes : m.action ≠ .terminate ∧ ∃ a, handler? a s.journal ≠ none := by
          simpa [nobody, not_or] using goesOn
        obtain ⟨goes, a, some⟩ := goes
        exact free.dispatch opened took goes some

end Free
end TreeCluster.Looper
