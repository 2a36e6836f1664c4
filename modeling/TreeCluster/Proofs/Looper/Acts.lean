import TreeCluster.Proofs.Looper.Account

/-! # In the middle of an act

Each thing that an act does to the machine leaves all but the acting task in order (`Amid`).  An
act ends with the acting task in order, too: it goes on, it waits, or it has ended. -/

namespace TreeCluster.Looper

open History

variable {ν : Type}

/-- A task whose turn it is not may act, or something will wake it. -/
theorem Heeded.elsewhere {s : Machine ν} {task other : TaskId} {activity : Activity ν}
    {current : Option TaskId} (heeded : Heeded s (some task) other activity)
    (foreign : other ≠ task) : Heeded s current other activity := by
  obtain ⟨arranged, turn | later⟩ := heeded
  · exact absurd (Option.some.inj turn).symm foreign
  · exact ⟨arranged, .inr later⟩

namespace Amid

variable {s s' : Machine ν} {task : TaskId} {origin origin' : Origin}

theorem spared (amid : Amid s task origin) (spares : Spares (some task) s s') {other : TaskId}
    {t : Task ν} (foreign : other ≠ task) (old : other < s.fresh)
    (found : s'.tasks.get? other = some t) :
    Fits s' other t.activity t.origin ∧ Heeded s' (some task) other t.activity := by
  have spared := spares.others other t (by simp [Ne.symm foreign]) old found
  exact ⟨spared.fits spares (amid.fits other t foreign spared.was),
    spared.heeded spares id (amid.heeded other t foreign spared.was)⟩

/-- A change that spares the others and keeps the history in order, if new tasks are in order. -/
theorem of_spares (amid : Amid s task origin) (spares : Spares (some task) s s')
    (agrees : Agrees s'.looper s'.journal) (kept : Kept s') (works : s'.origin? task = some origin')
    (new : ∀ other t, s.fresh ≤ other → other < s'.fresh → s'.tasks.get? other = some t →
      Fits s' other t.activity t.origin ∧ Heeded s' (some task) other t.activity) :
    Amid s' task origin' := by
  have parts : ∀ other t, other ≠ task → s'.tasks.get? other = some t →
      Fits s' other t.activity t.origin ∧ Heeded s' (some task) other t.activity := by
    intro other t foreign found
    by_cases old : other < s.fresh
    · exact amid.spared spares foreign old found
    · have exist : s'.origin? other = some t.origin := by simp [Machine.origin?, found]
      exact new other t (not_lt.mp old) (kept.lt_fresh exist) found
  exact ⟨agrees, kept, works, fun other t foreign found => (parts other t foreign found).1,
    fun other t foreign found => (parts other t foreign found).2⟩

/-- Once the acting task is in order, all are. -/
theorem sound (amid : Amid s task origin) {current : Option TaskId} {t : Task ν}
    (found : s.tasks.get? task = some t) (fits : Fits s task t.activity t.origin)
    (heeded : Heeded s current task t.activity) : Sound s current := by
  refine ⟨amid.agrees, amid.kept, fun other u known => ?_, fun other u known => ?_⟩
  all_goals
    by_cases same : other = task
    · subst same
      obtain rfl : t = u := Option.some.inj (found.symm.trans known)
      assumption
  · exact amid.fits other u same known
  · exact (amid.heeded other u same known).elsewhere same

/-! ### Ends of acts -/

theorem goOn (amid : Amid s task origin) {program : Program ν}
    (fits : Fits s task (.active program) origin) : Sound (s.resume task program) (some task) := by
  obtain ⟨t, found, rfl⟩ := Option.map_eq_some_iff.mp amid.works
  have spares : Spares (some task) s (s.resume task program) := .resume task program
  rw [Machine.resume_eq] at spares ⊢
  have works : ∀ other, ({ s with
      tasks := s.tasks.adjust task fun t => { t with activity := .active program }
      timers := s.timers.filter fun timer => timer.2 ≠ task } : Machine ν).origin? other =
      s.origin? other := fun other => by
    by_cases same : other = task <;> simp [Machine.origin?, Table.get?_adjust, same, found]
  have resumed := amid.of_spares spares amid.agrees (amid.kept.congr rfl rfl works rfl rfl)
    ((works task).trans amid.works) fun _ _ old new => absurd new (not_lt.mpr old)
  exact resumed.sound (t := { t with activity := .active program })
    (by simp [Table.get?_adjust, found]) fits ⟨trivial, .inl rfl⟩

theorem turnTo (amid : Amid s task origin) {activity : Activity ν} {due : Option ℕ}
    {current : Option TaskId} (fits : Fits s task activity origin)
    (heeded : Heeded (s.suspend task activity due) current task activity) :
    Sound (s.suspend task activity due) current := by
  obtain ⟨t, found, rfl⟩ := Option.map_eq_some_iff.mp amid.works
  have spares : Spares (some task) s (s.suspend task activity due) := .suspend task activity due
  rw [Machine.suspend_eq] at spares heeded ⊢
  have works : ∀ other, ({ s with
      tasks := s.tasks.adjust task fun t => { t with activity }
      timers := s.timers ++ (due.map fun due => (due, task)).toList } : Machine ν).origin? other =
      s.origin? other := fun other => by
    by_cases same : other = task <;> simp [Machine.origin?, Table.get?_adjust, same, found]
  have suspended := amid.of_spares spares amid.agrees (amid.kept.congr rfl rfl works rfl rfl)
    ((works task).trans amid.works) fun _ _ old new => absurd new (not_lt.mpr old)
  exact suspended.sound (t := { t with activity }) (by simp [Table.get?_adjust, found]) fits heeded

theorem sleep (amid : Amid s task origin) {due : ℕ} {next : Program ν}
    (fits : Fits s task (.sleeping due next) origin) :
    Sound (s.suspend task (.sleeping due next) (some due)) none := by
  have set : (due, task) ∈ (s.suspend task (.sleeping due next) (some due)).timers := by
    simp [Machine.suspend_eq]
  exact amid.turnTo fits ⟨.inl set, .inr (.inr set)⟩

theorem ended (amid : Amid s task origin)
    (begun : ∀ action generation, origin = .tricker action generation →
      deeds task s.journal ≠ [])
    (complete : Accounted (armed s.journal) task none (deeds task s.journal)) (result : Outcome) :
    Sound (s.finish task origin result) none := by
  have kept := amid.kept.finish amid.works begun complete result
  obtain ⟨results, finished⟩ := s.finish_eq task origin result
  have spares : Spares (some task) s (s.finish task origin result) := by
    have removed : Spares (some task) s (s.remove task) := .remove task
    refine (removed.trans (.wakeAll (s.joiners task))).trans ?_
    rw [finished, Machine.wakeAll_eq]
    exact ⟨le_rfl, le_rfl, fun _ => id, fun _ => id, id, fun _ _ _ _ found =>
      ⟨found, rfl, fun _ _ runs _ => runs, id, id, fun _ => .inl, .inl, id⟩⟩
  have gone : (s.finish task origin result).tasks.get? task = none := by
    rw [finished]
    simp [Machine.remove, Machine.cancel, Table.get?_erase]
  have agrees : Agrees (s.finish task origin result).looper
      (s.finish task origin result).journal := by
    rw [finished]
    exact amid.agrees
  have old : ∀ other t, (s.finish task origin result).tasks.get? other = some t →
      other ≠ task ∧ other < s.fresh := by
    intro other t found
    refine ⟨?_, ?_⟩
    · rintro rfl
      rw [gone] at found
      cases found
    · have exist : (s.finish task origin result).origin? other = some t.origin := by
        simp [Machine.origin?, found]
      have begun := kept.lt_fresh exist
      rwa [finished] at begun
  refine ⟨agrees, kept, fun other t found => ?_, fun other t found => ?_⟩
  · exact (amid.spared spares (old other t found).1 (old other t found).2 found).1
  · exact (amid.spared spares (old other t found).1 (old other t found).2 found).2.elsewhere
      (old other t found).1

theorem fail {m : Message} (amid : Amid s task (.handler m))
    (fits : ∀ activity, Fits s task activity (.handler m)) (failure : Failure) :
    Sound ((s.record (.failed task m failure)).become task (.report m) (.ofFailure m failure))
      (some task) := by
  obtain ⟨given, sound⟩ := fits (.active (.done (.ok ())))
  have kept : Kept ((s.record (.failed task m failure)).become task (.report m)
      (.ofFailure m failure)) := amid.kept.fail amid.works ⟨given, sound⟩
  have recorded : Spares (some task) s (s.record (.failed task m failure)) :=
    .record (by simp [Event.task?]) fun _ _ _ runs _ _ => runs
  have spares := recorded.trans (.become task (.report m) (.ofFailure m failure))
  have own : ((s.record (.failed task m failure)).become task (.report m)
      (.ofFailure m failure)).tasks.get? task =
        some ⟨.report m, .active (.ofFailure m failure)⟩ := Table.get?_insert_self ..
  have works : ((s.record (.failed task m failure)).become task (.report m)
      (.ofFailure m failure)).origin? task = some (.report m) := by simp [Machine.origin?, own]
  have failed := amid.of_spares spares (amid.agrees.idle trivial) kept works
    fun _ _ old new => absurd new (not_lt.mpr old)
  refine failed.sound own ⟨failure, [], deeds task s.journal, ?_, sound, .begun⟩
    ⟨trivial, .inl rfl⟩
  simp [Machine.become, Machine.record, deeds, Event.task?]

end Amid
end TreeCluster.Looper
