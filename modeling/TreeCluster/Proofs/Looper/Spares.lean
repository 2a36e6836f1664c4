import TreeCluster.Proofs.Looper.Agreement

/-! # What a change spares

While one task acts, the others wait their turn.  A change of the machine `Spares` them if it
leaves to each one that goes on what it needs in order to go on: what it has done, its timer, and
whatever is to wake it.  Each piece of bookkeeping spares the others, and so do they one after the
other (`Spares.trans`). -/

namespace TreeCluster

/-! ### Mailboxes -/

namespace Mailbox

/-- Those who waited for a place still do or are told, and nobody who was told forgets it. -/
structure Keeps (but : Option TaskId) (told : List TaskId) (b b' : Mailbox) : Prop where
  waits : ∀ task, but ≠ some task → task ∈ b.waiting → task ∈ b'.waiting ∨ task ∈ told
  heard : ∀ task, but ≠ some task → b.closed = true ∨ task ∈ b.waiting ∨ task ∈ b.granted →
    b'.closed = true ∨ task ∈ b'.waiting ∨ task ∈ b'.granted

variable (b : Mailbox) (task : TaskId) (m : Message) {but : Option TaskId}

theorem grant_eq : b.grant =
    ({ b with
        waiting := b.waiting.tail
        granted := b.granted ++ b.waiting.head?.toList }, b.waiting.head?) := by
  obtain ⟨capacity, queue, waiting, granted, closed⟩ := b
  cases waiting <;> simp [grant]

theorem withdraw_eq : b.withdraw task =
    if task ∈ b.granted then
      ({ b with
          waiting := b.waiting.tail
          granted := b.granted.erase task ++ b.waiting.head?.toList }, b.waiting.head?)
    else ({ b with waiting := b.waiting.erase task }, none) := by
  simp [withdraw, grant_eq]

theorem queue_withdraw : (b.withdraw task).1.queue = b.queue := by
  rw [withdraw_eq]
  split <;> rfl

theorem closed_withdraw : (b.withdraw task).1.closed = b.closed := by
  rw [withdraw_eq]
  split <;> rfl

theorem waiting_withdraw (nobody : b.waiting = []) : (b.withdraw task).1.waiting = [] := by
  rw [withdraw_eq]
  split <;> simp [nobody]

theorem take?_eq : b.take? = b.queue.head?.map fun m =>
    (m, { b with
      queue := b.queue.tail
      waiting := b.waiting.tail
      granted := b.granted ++ b.waiting.head?.toList }, b.waiting.head?) := by
  obtain ⟨capacity, queue, waiting, granted, closed⟩ := b
  cases queue <;> simp [take?, grant_eq]

theorem keeps_of_grant {b' : Mailbox} (closed : b'.closed = b.closed)
    (waiting : b'.waiting = b.waiting.tail)
    (granted : ∀ other, but ≠ some other → other ∈ b.granted → other ∈ b'.granted)
    (next : ∀ other ∈ b.waiting.head?, other ∈ b'.granted) :
    Keeps but b.waiting.head?.toList b b' := by
  have waits : ∀ other ∈ b.waiting, other ∈ b'.waiting ∨ other ∈ b.waiting.head? := by
    rw [waiting]
    intro other inside
    cases line : b.waiting with
    | nil => rw [line] at inside; cases inside
    | cons first rest =>
        rw [line] at inside
        rcases List.mem_cons.mp inside with rfl | inside
        · exact .inr rfl
        · exact .inl inside
  refine ⟨fun other _ inside => (waits other inside).imp_right (by simp), fun other foreign => ?_⟩
  rintro (shut | inside | own)
  · exact .inl (closed.trans shut)
  · rcases waits other inside with still | first
    · exact .inr (.inl still)
    · exact .inr (.inr (next other first))
  · exact .inr (.inr (granted other foreign own))

theorem take?_eq_some {b' : Mailbox} {next : Option TaskId} (took : b.take? = some (m, b', next)) :
    ∃ rest, b.queue = m :: rest ∧ b'.queue = rest ∧ b'.closed = b.closed ∧
      Keeps but next.toList b b' := by
  rw [take?_eq] at took
  obtain ⟨first, front, same⟩ := Option.map_eq_some_iff.mp took
  cases same
  obtain ⟨rest, queue⟩ := List.head?_eq_some_iff.mp front
  exact ⟨rest, queue, by simp [queue], rfl, keeps_of_grant b rfl rfl
    (fun _ _ own => List.mem_append_left _ own)
    fun _ own => List.mem_append_right _ (Option.mem_toList.mpr own)⟩

theorem keeps_withdraw :
    Keeps (some task) (b.withdraw task).2.toList b (b.withdraw task).1 := by
  rw [withdraw_eq]
  split
  · refine keeps_of_grant b rfl rfl (fun other foreign own => ?_) fun other first => ?_
    · have : other ≠ task := fun same => foreign (same ▸ rfl)
      simp [List.mem_erase_of_ne this, own]
    · simp_all
  · have stays : ∀ other, some task ≠ some other → other ∈ b.waiting →
        other ∈ b.waiting.erase task := fun other foreign =>
      (List.mem_erase_of_ne fun same : other = task => foreign (same ▸ rfl)).mpr
    exact ⟨fun other foreign inside => .inl (stays other foreign inside),
      fun other foreign => Or.imp_right (Or.imp_left (stays other foreign))⟩

theorem keeps_wait : Keeps but [] b (b.wait task) :=
  ⟨fun _ _ inside => .inl (List.mem_append_left _ inside),
    fun _ _ => Or.imp_right (Or.imp_left (List.mem_append_left _))⟩

theorem closed_of_put {b b' : Mailbox} {m : Message} (put : b.put m = .ok b') :
    b.closed = false ∧ b'.closed = false := by
  unfold Mailbox.put at put
  split at put
  · cases put
  · rename_i opened
    split at put
    · cases put
    · rw [← Except.ok.inj put]
      simpa using opened

theorem closed_of_full {b : Mailbox} {m : Message} (put : b.put m = .error .full) :
    b.closed = false := by
  unfold Mailbox.put at put
  split at put
  · cases put
  · rename_i opened
    simpa using opened

theorem keeps_put {b' : Mailbox} (put : b.put m = .ok b') : Keeps but [] b b' := by
  obtain rfl : b' = { b with queue := b.queue ++ [m] } := by
    unfold Mailbox.put at put
    split at put
    · cases put
    · split at put
      · cases put
      · exact (Except.ok.inj put).symm
  exact ⟨fun _ _ => .inl, fun _ _ => id⟩

theorem keeps_fill : Keeps (some task) [] b (b.fill task m) := by
  refine ⟨fun _ _ => .inl, fun other foreign => Or.imp_right (Or.imp_right fun own => ?_)⟩
  exact (List.mem_erase_of_ne fun same : other = task => foreign (same ▸ rfl)).mpr own

theorem keeps_close : Keeps but b.close.2 b b.close.1 :=
  ⟨fun _ _ inside => .inr (List.mem_append_right _ inside), fun _ _ _ => .inl rfl⟩

end Mailbox

namespace Looper

open History

variable {ν : Type}

/-- What a change leaves to a task. -/
structure SparesTask (s s' : Machine ν) (task : TaskId) (t : Task ν) : Prop where
  was : s.tasks.get? task = some t
  deeds : deeds task s'.journal = deeds task s.journal
  timer : ∀ a timer, timer? a s.journal = some timer → timer.task = task →
    timer? a s'.journal = some timer
  interval : task ∈ s.looper.intervals → task ∈ s'.looper.intervals
  ready : task ∈ s.ready → task ∈ s'.ready
  rings : ∀ due, (due, task) ∈ s.timers →
    (due, task) ∈ s'.timers ∨ due ≤ s'.now ∧ task ∈ s'.ready
  waits : task ∈ s.looper.mailbox.waiting →
    task ∈ s'.looper.mailbox.waiting ∨ task ∈ s'.ready
  heard : s.looper.mailbox.closed = true ∨ task ∈ s.looper.mailbox.waiting ∨
      task ∈ s.looper.mailbox.granted →
    s'.looper.mailbox.closed = true ∨ task ∈ s'.looper.mailbox.waiting ∨
      task ∈ s'.looper.mailbox.granted

/-- A change spares all tasks that were there, but perhaps one. -/
structure Spares (but : Option TaskId) (s s' : Machine ν) : Prop where
  now : s.now ≤ s'.now
  fresh : s.fresh ≤ s'.fresh
  handed : ∀ e ∈ handed s.journal, e ∈ handed s'.journal
  armed : ∀ timer ∈ armed s.journal, timer ∈ armed s'.journal
  served : s.looper.server.isSome = true → s'.looper.server.isSome = true
  others : ∀ task t, but ≠ some task → task < s.fresh → s'.tasks.get? task = some t →
    SparesTask s s' task t

/-! ### One change after the other -/

namespace SparesTask

variable {s s' s'' : Machine ν} {task : TaskId} {t : Task ν}

theorem trans (now : s'.now ≤ s''.now) (first : SparesTask s s' task t)
    (second : SparesTask s' s'' task t) : SparesTask s s'' task t where
  was := first.was
  deeds := second.deeds.trans first.deeds
  timer a timer runs own := second.timer a timer (first.timer a timer runs own) own
  interval := second.interval ∘ first.interval
  ready := second.ready ∘ first.ready
  rings due set := by
    rcases first.rings due set with still | ⟨passed, rung⟩
    · exact second.rings due still
    · exact .inr ⟨passed.trans now, second.ready rung⟩
  waits waiting := by
    rcases first.waits waiting with still | woken
    · exact second.waits still
    · exact .inr (second.ready woken)
  heard := second.heard ∘ first.heard

theorem fits {but : Option TaskId} (spares : Spares but s s') (spared : SparesTask s s' task t)
    (fits : Fits s task t.activity t.origin) : Fits s' task t.activity t.origin := by
  obtain ⟨origin, activity⟩ := t
  cases origin with
  | caller => trivial
  | handler m =>
      obtain ⟨given, sound⟩ := fits
      exact ⟨spares.handed _ given, spared.deeds ▸ sound⟩
  | report m =>
      obtain ⟨failure, later, own, all, sound, reporting⟩ := fits
      exact ⟨failure, later, own, spared.deeds.trans all, sound, reporting⟩
  | tricker action generation =>
      obtain ⟨timer, known, same, origin, ringing, runs⟩ := fits
      refine ⟨timer, spares.armed _ known, same, origin, ?_, fun none => ?_⟩
      · rw [spared.deeds]
        generalize History.deeds task s.journal = own at ringing
        cases ringing with
        | rung passed => exact .rung (passed.trans spares.now)
        | begun => exact .begun
        | asleep => exact .asleep
        | escalates => exact .escalates
        | waits => exact .waits
        | ends ended => exact .ends ended
      · exact spared.timer _ timer (runs (spared.deeds ▸ none)) same
  | interval => exact ⟨spared.interval fits.1, fits.2⟩
  | stopRequest => exact fits

/-- A task that was spared is still heeded, unless it was its turn and no longer is. -/
theorem heeded {but current current' : Option TaskId} (spares : Spares but s s')
    (spared : SparesTask s s' task t) (turn : current = some task → current' = some task)
    (heeded : Heeded s current task t.activity) : Heeded s' current' task t.activity := by
  obtain ⟨origin, activity⟩ := t
  refine ⟨?_, ?_⟩
  · cases activity with
    | active program => trivial
    | joining other limit next => trivial
    | sleeping due next =>
        rcases heeded.arranged with set | passed
        · exact (spared.rings due set).imp_right And.left
        · exact .inr (passed.trans spares.now)
    | pushing m limit next => exact spared.heard heeded.arranged
    | serving limit next => exact spares.served heeded.arranged
  · rcases heeded.awaited with now | inLine | parked
    · exact .inl (turn now)
    · exact .inr (.inl (spared.ready inLine))
    · cases activity with
      | active program => exact parked.elim
      | sleeping due next =>
          rcases spared.rings due parked with set | ⟨_, rung⟩
          · exact .inr (.inr set)
          · exact .inr (.inl rung)
      | pushing m limit next =>
          rcases spared.waits parked with waiting | woken
          · exact .inr (.inr waiting)
          · exact .inr (.inl woken)
      | serving limit next => exact .inr (.inr trivial)
      | joining other limit next => exact .inr (.inr trivial)

end SparesTask

namespace Spares

variable {but : Option TaskId} {s s' s'' : Machine ν}

theorem trans (first : Spares but s s') (second : Spares but s' s'') : Spares but s s'' where
  now := first.now.trans second.now
  fresh := first.fresh.trans second.fresh
  handed e given := second.handed e (first.handed e given)
  armed timer known := second.armed timer (first.armed timer known)
  served := second.served ∘ first.served
  others task t other old found :=
    have later := second.others task t other (old.trans_le first.fresh) found
    (first.others task t other old later.was).trans second.now later

/-! ### Pieces of bookkeeping -/

/-- The looper may change, if those whose waiting is over are woken. -/
theorem change (looper : Looper ν) (notes : List (ℕ × ν)) (sink : Sink) (woken : List TaskId)
    (intervals : ∀ task ∈ s.looper.intervals, task ∈ looper.intervals)
    (served : s.looper.server.isSome = true → looper.server.isSome = true)
    (keeps : Mailbox.Keeps but woken s.looper.mailbox looper.mailbox) :
    Spares but s ({ s with looper, notes, sink }.wakeAll woken) := by
  rw [Machine.wakeAll_eq]
  refine ⟨le_rfl, le_rfl, fun _ => id, fun _ => id, served, fun task t other _ found => ?_⟩
  have exist : ({ s with looper, notes, sink } : Machine ν).tasks.contains task = true :=
    (Table.contains_eq_true_iff ..).mpr ⟨t, found⟩
  refine ⟨found, rfl, fun _ _ runs _ => runs, intervals task, fun inLine => ?_,
    fun _ => .inl, fun waiting => ?_, keeps.heard task other⟩
  · exact (Machine.mem_roused _).mpr (.inl inLine)
  · exact (keeps.waits task other waiting).imp_right fun named =>
      (Machine.mem_roused _).mpr (.inr ⟨named, exist⟩)

theorem looper {looper : Looper ν} (mailbox : looper.mailbox = s.looper.mailbox)
    (intervals : looper.intervals = s.looper.intervals)
    (server : looper.server = s.looper.server) : Spares but s { s with looper } :=
  change looper s.notes s.sink [] (by simp [intervals]) (by simp [server])
    (mailbox ▸ ⟨fun _ _ => .inl, fun _ _ => id⟩)

theorem mailbox {mailbox : Mailbox} {woken : List TaskId}
    (keeps : Mailbox.Keeps but woken s.looper.mailbox mailbox) :
    Spares but s ({ s with looper := { s.looper with mailbox } }.wakeAll woken) :=
  change { s.looper with mailbox } s.notes s.sink woken (fun _ => id) id keeps

theorem wakeAll (woken : List TaskId) : Spares but s (s.wakeAll woken) :=
  mailbox ⟨fun _ _ => .inl, fun _ _ => id⟩

/-- An event spares those who had no part in it and whose timer goes on. -/
theorem record {e : Event ν} (mine : ∀ task, e.task? = some task → but = some task)
    (timers : ∀ a timer t, timer? a s.journal = some timer → but ≠ some timer.task →
      s.tasks.get? timer.task = some t → timer? a ((s.now, e) :: s.journal) = some timer) :
    Spares but s (s.record e) := by
  refine ⟨le_rfl, le_rfl, fun _ => mem_handed_cons, fun _ => mem_armed_cons, id,
    fun task t other _ found => ?_⟩
  have foreign : e.task? ≠ some task := fun own => other (mine task own)
  refine ⟨found, by simp [Machine.record, History.deeds, foreign], fun a timer runs own => ?_,
    id, id, fun _ => .inl, .inl, id⟩
  subst own
  exact timers a timer t runs other found

theorem spawn (origin : Origin) (program : Program ν) :
    Spares but s (s.spawn origin program).1 := by
  refine ⟨le_rfl, Nat.le_succ _, fun _ => id, fun _ => id, id, fun task t _ old found => ?_⟩
  have was : s.tasks.get? task = some t := by
    rwa [Machine.spawn, Table.get?_insert, if_neg (ne_of_lt old)] at found
  exact ⟨was, rfl, fun _ _ runs _ => runs, id, fun inLine => List.mem_append_left _ inLine,
    fun _ => .inl, .inl, id⟩

theorem own {task : TaskId} (tasks : Table TaskId (Task ν)) (ready : List TaskId)
    (timers : List (ℕ × TaskId)) (others : ∀ other ≠ task,
      tasks.get? other = s.tasks.get? other ∧ (other ∈ s.ready → other ∈ ready) ∧
        ∀ due, (due, other) ∈ s.timers → (due, other) ∈ timers) :
    Spares (some task) s { s with tasks, ready, timers } := by
  refine ⟨le_rfl, le_rfl, fun _ => id, fun _ => id, id, fun other t foreign _ found => ?_⟩
  obtain ⟨same, ready, rings⟩ := others other fun own => foreign (own ▸ rfl)
  exact ⟨same ▸ found, rfl, fun _ _ runs _ => runs, id, ready, fun due set => .inl (rings due set),
    .inl, id⟩

theorem resume (task : TaskId) (program : Program ν) :
    Spares (some task) s (s.resume task program) := by
  rw [Machine.resume_eq]
  refine own _ s.ready _ fun other foreign => ⟨?_, id, fun due set => ?_⟩
  · rw [Table.get?_adjust, if_neg foreign]
  · simpa [foreign] using set

theorem suspend (task : TaskId) (activity : Activity ν) (due : Option ℕ) :
    Spares (some task) s (s.suspend task activity due) := by
  rw [Machine.suspend_eq]
  refine own _ s.ready _ fun other foreign => ⟨?_, id, fun due set => ?_⟩
  · rw [Table.get?_adjust, if_neg foreign]
  · exact List.mem_append_left _ set

theorem become (task : TaskId) (origin : Origin) (program : Program ν) :
    Spares (some task) s (s.become task origin program) :=
  own _ s.ready s.timers fun other foreign =>
    ⟨by rw [Table.get?_insert, if_neg foreign], id, fun _ => id⟩

theorem remove (task : TaskId) : Spares (some task) s (s.remove task) :=
  own (s.tasks.erase task) (s.ready.erase task) (s.timers.filter fun timer => timer.2 ≠ task)
    fun other foreign =>
      ⟨by rw [Table.get?_erase, if_neg foreign],
        fun inLine => (List.mem_erase_of_ne foreign).mpr inLine,
        fun due set => by simpa [foreign] using set⟩

theorem weaken (spares : Spares none s s') : Spares but s s' :=
  ⟨spares.now, spares.fresh, spares.handed, spares.armed, spares.served,
    fun task t _ old found => spares.others task t nofun old found⟩

/-- A change that removes a task spares it nothing, but it need not be spared any more. -/
theorem without {task : TaskId} (spares : Spares (some task) s s')
    (gone : s'.tasks.get? task = none) : Spares but s s' := by
  refine ⟨spares.now, spares.fresh, spares.handed, spares.armed, spares.served,
    fun other t _ old found => ?_⟩
  refine spares.others other t (fun same => ?_) old found
  rw [← Option.some.inj same, gone] at found
  cases found

theorem abort (task : TaskId) : Spares but s (s.abort task) := by
  have removed : Spares (some task) s (s.remove task) := remove task
  have told : Spares (some task) (s.remove task) (s.abort task) :=
    mailbox (s.looper.mailbox.keeps_withdraw task)
  refine (removed.trans told).without ?_
  rw [Machine.abort_eq]
  exact (Table.get?_erase ..).trans (if_pos rfl)

end Spares
end Looper
end TreeCluster
