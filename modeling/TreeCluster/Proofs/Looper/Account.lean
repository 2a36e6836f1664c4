import TreeCluster.Proofs.Looper.Spares

/-! # The history accounts for every task

What a change of the machine has to do so that its history still accounts for every task
(`Kept.next`), and the changes that do so: a deed of the task that acts, an event that concerns no
task, a task that starts and one that ends. -/

namespace TreeCluster.Looper

open History

variable {ν : Type}

/-- A deed that begins nothing. -/
def Event.Plain (task : TaskId) : Event ν → Prop
  | .accepted other _ _ => other = task
  | .refused other _ _ _ => other = task
  | .reported other _ _ => other = task
  | _ => False

/-- Something that happens to the looper alone. -/
def Event.Apart : Event ν → Prop
  | .registered _ _ => True
  | .taken _ .last => True
  | .taken _ .skipped => True
  | .termed => True
  | _ => False

namespace Accounted

variable {timers more : List Timer} {task : TaskId} {own : List (Event ν)}

theorem mono {origin : Option Origin} (accounted : Accounted timers task origin own)
    (known : ∀ timer ∈ timers, timer ∈ more) : Accounted more task origin own := by
  refine ⟨fun action generation did => ?_, accounted.failed⟩
  refine (accounted.fired action generation did).imp_right fun ⟨gone, timer, inside, rest⟩ => ?_
  exact ⟨gone, timer, known timer inside, rest⟩

theorem plain {origin : Origin} (accounted : Accounted timers task (some origin) own)
    {e : Event ν} (plain : e.Plain task) : Accounted more task (some origin) (e :: own) := by
  refine ⟨fun action generation did => ?_, fun m failure did => ?_⟩
  · rcases List.mem_cons.mp did with rfl | did
    · exact plain.elim
    · exact .inl ((accounted.fired action generation did).resolve_right (by simp))
  · rcases List.mem_cons.mp did with rfl | did
    · exact plain.elim
    · exact .inl ((accounted.failed m failure did).resolve_right (by simp))

/-- A task that has neither fired nor failed may end, or not have begun. -/
theorem of_none {origin : Option Origin} (silent : ∀ e ∈ own, (∀ action generation,
    e ≠ .fired task action generation) ∧ ∀ m failure, e ≠ .failed task m failure) :
    Accounted timers task origin own :=
  ⟨fun action generation did => absurd rfl ((silent _ did).1 action generation),
    fun m failure did => absurd rfl ((silent _ did).2 m failure)⟩

end Accounted

namespace Kept

variable {s s' : Machine ν} {task : TaskId} {origin : Origin}

/-- A task that works for somebody was started before. -/
theorem lt_fresh (kept : Kept s) (works : s.origin? task = some origin) : task < s.fresh := by
  by_contra late
  rw [(kept.fresh task (not_lt.mp late)).1] at works
  cases works

/-- The task of a timer that runs is not one that works for somebody else or has done something. -/
theorem not_running (kept : Kept s) (works : s.origin? task = some origin)
    (begun : ∀ action generation, origin = .tricker action generation →
      deeds task s.journal ≠ []) :
    ∀ a timer, timer? a s.journal = some timer → timer.task ≠ task := by
  rintro a timer runs rfl
  obtain ⟨-, -, idle, own⟩ := kept.running a timer runs
  rw [works] at own
  exact begun _ _ (Option.some.inj own) idle

/-- What a change has to do so that the history still accounts for every task. -/
theorem next (kept : Kept s) (chronicle : Chronicle s'.journal) (later : s.fresh ≤ s'.fresh)
    (fresh : ∀ task, s'.fresh ≤ task →
      s'.origin? task = none ∧ deeds task s'.journal = deeds task s.journal)
    (handed : ∀ given ∈ handed s'.journal, given ∈ handed s.journal ∨ given.1 < s'.fresh)
    (armed : ∀ timer ∈ armed s'.journal, timer ∈ armed s.journal ∨ timer.task < s'.fresh)
    (known : ∀ timer ∈ History.armed s.journal, timer ∈ History.armed s'.journal)
    (running : ∀ a timer, timer? a s'.journal = some timer →
      timer? a s.journal = some timer ∧ s'.origin? timer.task = s.origin? timer.task ∧
        deeds timer.task s'.journal = deeds timer.task s.journal ∨
      timer.probe.action = a ∧ timer ∈ History.armed s'.journal ∧
        deeds timer.task s'.journal = [] ∧ s'.origin? timer.task = some timer.origin)
    (account : ∀ task, s'.origin? task = s.origin? task ∧
        deeds task s'.journal = deeds task s.journal ∨
      Accounted (History.armed s'.journal) task (s'.origin? task) (deeds task s'.journal))
    (intervals : ∀ task ∈ s'.looper.intervals, task < s'.fresh ∧
      ∀ origin, s'.origin? task = some origin → origin = .interval)
    (sink : s'.sink.lines = reports s'.journal) : Kept s' where
  chronicle := chronicle
  fresh task late := by
    obtain ⟨-, idle, notHanded, notArmed⟩ := kept.fresh task (later.trans late)
    obtain ⟨none, same⟩ := fresh task late
    refine ⟨none, same.trans idle, fun inside => ?_, fun inside => ?_⟩
    · obtain ⟨given, listed, rfl⟩ := List.mem_map.mp inside
      rcases handed given listed with old | new
      · exact notHanded (List.mem_map_of_mem old)
      · exact absurd late (not_le.mpr new)
    · obtain ⟨timer, listed, rfl⟩ := List.mem_map.mp inside
      rcases armed timer listed with old | new
      · exact notArmed (List.mem_map_of_mem old)
      · exact absurd late (not_le.mpr new)
  running a timer runs := by
    rcases running a timer runs with ⟨ran, origin, did⟩ | new
    · obtain ⟨action, inside, idle, works⟩ := kept.running a timer ran
      exact ⟨action, known timer inside, did.trans idle, origin.trans works⟩
    · exact new
  account task := by
    rcases account task with ⟨origin, did⟩ | new
    · rw [origin, did]
      exact (kept.account task).mono known
    · exact new
  intervals := intervals
  sink := sink

theorem congr (kept : Kept s) (journal : s'.journal = s.journal) (fresh : s'.fresh = s.fresh)
    (origins : ∀ task, s'.origin? task = s.origin? task)
    (intervals : s'.looper.intervals = s.looper.intervals) (sink : s'.sink = s.sink) : Kept s' where
  chronicle := journal ▸ kept.chronicle
  fresh task late := by
    rw [origins, journal]
    exact kept.fresh task (fresh ▸ late)
  running a timer runs := by
    rw [origins, journal]
    exact kept.running a timer (journal ▸ runs)
  account task := by
    rw [origins, journal]
    exact kept.account task
  intervals task inside := by
    rw [origins, fresh]
    exact kept.intervals task (intervals ▸ inside)
  sink := by rw [sink, journal, kept.sink]

/-! ### Events -/

theorem act (kept : Kept s) {e : Event ν} (plain : e.Plain task)
    (works : s.origin? task = some origin)
    (begun : ∀ action generation, origin = .tricker action generation →
      deeds task s.journal ≠ [])
    (lawful : Lawful s.journal s.now e) (sink : Sink)
    (lines : sink.lines = reports ((s.now, e) :: s.journal)) :
    Kept ({ s with sink }.record e) := by
  have readings : e.task? = some task ∧
      (∀ a, timer? a ((s.now, e) :: s.journal) = timer? a s.journal) ∧
      handed ((s.now, e) :: s.journal) = handed s.journal ∧
      armed ((s.now, e) :: s.journal) = armed s.journal := by
    cases e <;> first
      | exact ⟨congrArg some plain, fun _ => rfl, rfl, rfl⟩
      | exact plain.elim
  obtain ⟨mine, timers, handed, armed⟩ := readings
  have others : ∀ other ≠ task, deeds other ((s.now, e) :: s.journal) = deeds other s.journal :=
    fun other foreign => by simp [deeds, mine, Ne.symm foreign]
  refine kept.next ⟨lawful, kept.chronicle⟩ le_rfl (fun other late => ?_) ?_ ?_ ?_ ?_ ?_
    kept.intervals lines
  · have foreign : other ≠ task := fun same => absurd (kept.lt_fresh works) (by
      rw [not_lt, ← same]; exact late)
    exact ⟨(kept.fresh other late).1, others other foreign⟩
  · exact fun given inside => .inl (handed ▸ inside)
  · exact fun timer inside => .inl (armed ▸ inside)
  · exact fun timer => mem_armed_cons
  · intro a timer runs
    have ran : timer? a s.journal = some timer := (timers a).symm.trans runs
    exact .inl ⟨ran, rfl, others _ (kept.not_running works begun a timer ran)⟩
  · intro other
    by_cases same : other = task
    · subst same
      refine .inr ?_
      have own : deeds other ((s.now, e) :: s.journal) = e :: deeds other s.journal := by
        simp [deeds, mine]
      have account := kept.account other
      rw [works] at account
      change Accounted _ other (s.origin? other) (deeds other ((s.now, e) :: s.journal))
      rw [works, own]
      exact account.plain plain
    · exact .inl ⟨rfl, others other same⟩

/-- An event in which no task had a part, with which tasks may start and end.  Tasks that end have
done nothing, or belong to an interval. -/
theorem turnover (kept : Kept s) {e : Event ν} (nobody : e.task? = none)
    (lawful : Lawful s.journal s.now e) (journal : s'.journal = (s.now, e) :: s.journal)
    (later : s.fresh ≤ s'.fresh) (fresh : ∀ task, s'.fresh ≤ task → s'.origin? task = none)
    (origins : ∀ task < s.fresh, s'.origin? task = s.origin? task ∨ s'.origin? task = none ∧
      (deeds task s.journal = [] ∨ s.origin? task = some .interval))
    (handed : ∀ given ∈ handed s'.journal, given ∈ handed s.journal ∨ given.1 < s'.fresh)
    (armed : ∀ timer ∈ armed s'.journal, timer ∈ armed s.journal ∨ timer.task < s'.fresh)
    (running : ∀ a timer, timer? a s'.journal = some timer →
      timer? a s.journal = some timer ∧ s'.origin? timer.task = s.origin? timer.task ∨
      timer.probe.action = a ∧ timer ∈ History.armed s'.journal ∧ s.fresh ≤ timer.task ∧
        s'.origin? timer.task = some timer.origin)
    (intervals : ∀ task ∈ s'.looper.intervals, task ∈ s.looper.intervals)
    (sink : s'.sink = s.sink) : Kept s' := by
  have did : ∀ task, deeds task s'.journal = deeds task s.journal := fun task => by
    simp [journal, deeds, nobody]
  have known : ∀ timer ∈ History.armed s.journal, timer ∈ History.armed s'.journal := by
    rw [journal]
    exact fun timer => mem_armed_cons
  have lines : reports s'.journal = reports s.journal := by
    rw [journal]
    cases e <;> first | rfl | cases nobody
  refine kept.next ?_ later (fun task late => ⟨fresh task late, did task⟩) handed armed known
    (fun a timer runs => ?_) (fun task => ?_) (fun task inside => ?_) ?_
  · rw [journal]
    exact ⟨lawful, kept.chronicle⟩
  · rcases running a timer runs with ⟨ran, same⟩ | ⟨action, inside, new, works⟩
    · exact .inl ⟨ran, same, did _⟩
    · exact .inr ⟨action, inside, (did _).trans (kept.fresh _ new).2.1, works⟩
  · have account := kept.account task
    by_cases new : s.fresh ≤ task
    · exact .inr (.of_none (by simp [did, (kept.fresh task new).2.1]))
    · rcases origins task (not_le.mp new) with same | ⟨gone, idle | interval⟩
      · exact .inl ⟨same, did task⟩
      · exact .inr (.of_none (by simp [did, idle]))
      · refine .inr (.of_none fun e done => ⟨?_, ?_⟩)
        · rintro action generation rfl
          simpa [interval] using account.fired action generation (did task ▸ done)
        · rintro m failure rfl
          simpa [interval] using account.failed m failure (did task ▸ done)
  · obtain ⟨old, only⟩ := kept.intervals task (intervals task inside)
    refine ⟨old.trans_le later, fun origin works => ?_⟩
    rcases origins task old with same | ⟨gone, -⟩
    · exact only origin (same.symm.trans works)
    · rw [gone] at works
      cases works
  · rw [sink, lines, kept.sink]

theorem apart (kept : Kept s) {e : Event ν} (apart : e.Apart)
    (lawful : Lawful s.journal s.now e) : Kept (s.record e) := by
  have readings : e.task? = none ∧
      (∀ a, timer? a ((s.now, e) :: s.journal) = timer? a s.journal) ∧
      handed ((s.now, e) :: s.journal) = handed s.journal ∧
      armed ((s.now, e) :: s.journal) = armed s.journal := by
    rcases e with _ | _ | _ | _ | ⟨_, _ | _ | _⟩ | _ | _ | _ | _ | _ <;> first
      | exact ⟨rfl, fun _ => rfl, rfl, rfl⟩
      | exact apart.elim
  obtain ⟨nobody, timers, handed, armed⟩ := readings
  exact kept.turnover nobody lawful rfl le_rfl (fun task late => (kept.fresh task late).1)
    (fun _ _ => .inl rfl) (fun given inside => .inl (handed ▸ inside))
    (fun timer inside => .inl (armed ▸ inside))
    (fun a timer runs => .inl ⟨(timers a).symm.trans runs, rfl⟩) (fun _ => id) rfl

theorem fail (kept : Kept s) {m : Message} {failure : Failure} {program : Program ν}
    (works : s.origin? task = some (.handler m))
    (lawful : Lawful s.journal s.now (.failed task m failure)) :
    Kept ((s.record (.failed task m failure)).become task (.report m) program) := by
  have others : ∀ other ≠ task, deeds other ((s.now, .failed task m failure) :: s.journal) =
      deeds other s.journal :=
    fun other foreign => by simp [deeds, Event.task?, Ne.symm foreign]
  have stay : ∀ other ≠ task,
      ((s.record (.failed task m failure)).become task (.report m) program).origin? other =
        s.origin? other := fun other foreign => by
    simp [Machine.origin?, Machine.become, Machine.record, Table.get?_insert, foreign]
  have idle := kept.not_running works (by simp)
  refine kept.next ⟨lawful, kept.chronicle⟩ le_rfl (fun other late => ?_) (fun _ => .inl)
    (fun _ => .inl) (fun _ => id) (fun a timer runs => ?_) (fun other => ?_)
    (fun other inside => ?_) kept.sink
  · have foreign : other ≠ task := (lt_of_lt_of_le (kept.lt_fresh works) late).ne'
    exact ⟨(stay other foreign).trans (kept.fresh other late).1, others other foreign⟩
  · exact .inl ⟨runs, stay _ (idle a timer runs), others _ (idle a timer runs)⟩
  · by_cases same : other = task
    · subst same
      have account := kept.account other
      rw [works] at account
      refine .inr ⟨fun action generation did => ?_, fun m' failure' did => .inl ?_⟩
      · have did : .fired other action generation ∈ deeds other s.journal := by
          simpa [Machine.become, Machine.record, deeds, Event.task?] using did
        simpa using account.fired action generation did
      · have did : m' = m ∧ failure' = failure ∨
            .failed other m' failure' ∈ deeds other s.journal := by
          simpa [Machine.become, Machine.record, deeds, Event.task?] using did
        rcases did with ⟨rfl, -⟩ | did
        · simp [Machine.origin?, Machine.become]
        · cases lawful.2 _ did
    · exact .inl ⟨stay other same, others other same⟩
  · have foreign : other ≠ task := by
      rintro rfl
      cases (kept.intervals other inside).2 _ works
    exact ⟨(kept.intervals other inside).1, fun origin goes =>
      (kept.intervals other inside).2 origin ((stay other foreign).symm.trans goes)⟩

theorem fire (kept : Kept s) {action : Action} {generation : ℕ} (looper : Looper ν)
    (works : s.origin? task = some (.tricker action generation))
    (idle : deeds task s.journal = [])
    (lawful : Lawful s.journal s.now (.fired task action generation))
    (intervals : looper.intervals = s.looper.intervals) :
    Kept ({ s with looper }.record (.fired task action generation)) := by
  have others : ∀ other ≠ task, deeds other ((s.now, .fired task action generation) :: s.journal) =
      deeds other s.journal :=
    fun other foreign => by simp [deeds, Event.task?, Ne.symm foreign]
  refine kept.next ⟨lawful, kept.chronicle⟩ le_rfl (fun other late => ?_) (fun _ => .inl)
    (fun _ => .inl) (fun _ => id) (fun a timer runs => ?_) (fun other => ?_)
    (fun other inside => kept.intervals other (intervals ▸ inside)) kept.sink
  · have foreign : other ≠ task := (lt_of_lt_of_le (kept.lt_fresh works) late).ne'
    exact ⟨(kept.fresh other late).1, others other foreign⟩
  · have ran : action ≠ a ∧ timer? a s.journal = some timer := by
      by_cases same : action = a
      · simp [Machine.record, timer?, same] at runs
      · exact ⟨same, by simpa [Machine.record, timer?, same] using runs⟩
    obtain ⟨foreign, ran⟩ := ran
    refine .inl ⟨ran, rfl, others _ ?_⟩
    -- The task of another timer works for another action.
    rintro rfl
    obtain ⟨own, -, -, origin⟩ := kept.running a timer ran
    rw [works] at origin
    exact foreign ((Origin.tricker.inj (Option.some.inj origin)).1.trans own)
  · by_cases same : other = task
    · subst same
      refine .inr ⟨fun action' generation' did => .inl ?_, fun m failure did => ?_⟩
      · have same : action' = action ∧ generation' = generation := by
          simpa [Machine.record, deeds, Event.task?, idle] using did
        rw [same.1, same.2]
        exact works
      · simp [Machine.record, deeds, Event.task?, idle] at did
    · exact .inl ⟨rfl, others other same⟩

/-! ### Tasks -/

theorem spawn (kept : Kept s) (looper : Looper ν) (program : Program ν)
    (intervals : ∀ task ∈ looper.intervals,
      task ∈ s.looper.intervals ∨ task = s.fresh ∧ origin = .interval) :
    Kept { (s.spawn origin program).1 with looper } := by
  have stay : ∀ other ≠ s.fresh,
      ({ (s.spawn origin program).1 with looper } : Machine ν).origin? other = s.origin? other :=
    fun other foreign => by simp [Machine.origin?, Machine.spawn, Table.get?_insert, foreign]
  refine kept.next kept.chronicle (Nat.le_succ _) (fun other late => ?_) (fun _ => .inl)
    (fun _ => .inl) (fun _ => id) (fun a timer runs => ?_) (fun other => ?_)
    (fun other inside => ?_) kept.sink
  · exact ⟨(stay other (Nat.lt_of_succ_le late).ne').trans
      (kept.fresh other (Nat.le_of_succ_le late)).1, rfl⟩
  · obtain ⟨-, -, -, works⟩ := kept.running a timer runs
    exact .inl ⟨runs, stay _ (kept.lt_fresh works).ne, rfl⟩
  · by_cases new : other = s.fresh
    · have idle : deeds other s.journal = [] := (kept.fresh other new.ge).2.1
      exact .inr (.of_none (by simp [Machine.spawn, idle]))
    · exact .inl ⟨stay other new, rfl⟩
  · rcases intervals other inside with old | ⟨rfl, rfl⟩
    · obtain ⟨begun, only⟩ := kept.intervals other old
      exact ⟨begun.trans (Nat.lt_succ_self _), fun origin works =>
        only origin ((stay other begun.ne).symm.trans works)⟩
    · exact ⟨Nat.lt_succ_self _, fun origin works => by
        simpa [Machine.origin?, Machine.spawn, eq_comm] using works⟩

theorem finish (kept : Kept s) (works : s.origin? task = some origin)
    (begun : ∀ action generation, origin = .tricker action generation →
      deeds task s.journal ≠ [])
    (complete : Accounted (armed s.journal) task none (deeds task s.journal)) (result : Outcome) :
    Kept (s.finish task origin result) := by
  obtain ⟨results, finished⟩ := s.finish_eq task origin result
  have origins : ∀ other, (s.finish task origin result).origin? other =
      if other = task then none else s.origin? other := fun other => by
    rw [finished]
    by_cases same : other = task <;>
      simp [Machine.origin?, Machine.remove, Machine.cancel, Table.get?_erase, same]
  have journal : (s.finish task origin result).journal = s.journal := by rw [finished]; rfl
  have looper : (s.finish task origin result).looper = s.looper := by rw [finished]; rfl
  have fresh : (s.finish task origin result).fresh = s.fresh := by rw [finished]; rfl
  have sink : (s.finish task origin result).sink = s.sink := by rw [finished]; rfl
  refine kept.next (journal ▸ kept.chronicle) fresh.ge (fun other late => ?_)
    (journal ▸ fun _ => .inl) (journal ▸ fun _ => .inl) (journal ▸ fun _ => id)
    (fun a timer runs => ?_) (fun other => ?_) (fun other inside => ?_) ?_
  · rw [origins, journal]
    have none := (kept.fresh other (fresh ▸ late)).1
    exact ⟨by simp [none], rfl⟩
  · rw [journal] at runs
    rw [origins, journal, if_neg (kept.not_running works begun a timer runs)]
    exact .inl ⟨runs, rfl, rfl⟩
  · rw [origins, journal]
    by_cases same : other = task
    · rw [if_pos same, same]
      exact .inr complete
    · exact .inl ⟨if_neg same, rfl⟩
  · rw [looper] at inside
    rw [origins, fresh]
    refine ⟨(kept.intervals other inside).1, fun origin goes => ?_⟩
    by_cases same : other = task
    · rw [if_pos same] at goes
      cases goes
    · exact (kept.intervals other inside).2 origin (by simpa [same] using goes)
  · rw [sink, journal, kept.sink]

end Kept
end TreeCluster.Looper
