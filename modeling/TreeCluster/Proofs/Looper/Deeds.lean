import TreeCluster.Proofs.Looper.Acts

/-! # What acts do to the looper

Pushing, registering, setting timers, stopping: each deed changes the looper and writes down what
happened, and leaves all but the acting task in order. -/

namespace TreeCluster.Looper

open History

variable {ν : Type}

/-- A task that has something to lose has done something. -/
def Begun (s : Machine ν) (task : TaskId) (origin : Origin) : Prop :=
  ∀ action generation, origin = .tricker action generation → deeds task s.journal ≠ []

namespace Amid

variable {s : Machine ν} {task : TaskId} {origin : Origin}

/-- The looper changes in nothing that the history tells, and those are woken whose waiting is
over. -/
theorem change (amid : Amid s task origin) (looper : Looper ν) (notes : List (ℕ × ν))
    (woken : List TaskId) (agrees : Agrees looper s.journal)
    (intervals : looper.intervals = s.looper.intervals)
    (served : s.looper.server.isSome = true → looper.server.isSome = true)
    (keeps : Mailbox.Keeps (some task) woken s.looper.mailbox looper.mailbox) :
    Amid ({ s with looper, notes }.wakeAll woken) task origin := by
  have spares : Spares (some task) s ({ s with looper, notes }.wakeAll woken) :=
    .change looper notes s.sink woken (by simp [intervals]) served keeps
  rw [Machine.wakeAll_eq] at spares ⊢
  exact amid.of_spares spares agrees (amid.kept.congr rfl rfl (fun _ => rfl) intervals rfl)
    amid.works fun _ _ old new => absurd new (not_lt.mpr old)

theorem mailbox (amid : Amid s task origin) {mailbox : Mailbox} {woken : List TaskId}
    (keeps : Mailbox.Keeps (some task) woken s.looper.mailbox mailbox)
    (stays : s.looper.mailbox.closed = true → mailbox.closed = true)
    (queue : mailbox.closed = false → mailbox.queue = s.looper.mailbox.queue)
    (shut : mailbox.closed = true → mailbox.queue = [] ∧ mailbox.waiting = []) :
    Amid ({ s with looper := { s.looper with mailbox } }.wakeAll woken) task origin :=
  amid.change { s.looper with mailbox } s.notes woken (amid.agrees.withMailbox stays queue shut)
    rfl id keeps

theorem note (amid : Amid s task origin) (notes : List (ℕ × ν)) :
    Amid { s with notes } task origin :=
  amid.change s.looper notes [] amid.agrees rfl id ⟨fun _ _ => .inl, fun _ _ => id⟩

/-- A task that gives up waiting for a place leaves its own to the next one. -/
theorem withdraw (amid : Amid s task origin) :
    Amid ({ s with looper := { s.looper with
      mailbox := (s.looper.mailbox.withdraw task).1 } }.wakeAll
        (s.looper.mailbox.withdraw task).2.toList) task origin := by
  have closed := s.looper.mailbox.closed_withdraw task
  refine amid.mailbox (s.looper.mailbox.keeps_withdraw task) (closed.trans ·)
    (fun _ => s.looper.mailbox.queue_withdraw task) fun shut => ?_
  obtain ⟨queue, waiting⟩ := amid.agrees.shut (closed.symm.trans shut)
  exact ⟨(s.looper.mailbox.queue_withdraw task).trans queue,
    s.looper.mailbox.waiting_withdraw task waiting⟩

theorem closeMailbox (amid : Amid s task origin) : Amid s.closeMailbox task origin :=
  amid.mailbox s.looper.mailbox.keeps_close (fun _ => rfl) nofun fun _ => ⟨rfl, rfl⟩

/-! ### Pushing -/

theorem accept (amid : Amid s task origin) {sender : Origin} {m : Message} {mailbox : Mailbox}
    (begun : Begun s task origin) (may : MayPush s.journal task m sender)
    (wasOpen : s.looper.mailbox.closed = false) (opened : mailbox.closed = false)
    (queue : mailbox.queue = s.looper.mailbox.queue ++ [pushed m])
    (keeps : Mailbox.Keeps (some task) [] s.looper.mailbox mailbox) :
    Amid (s.accept task sender m mailbox) task origin := by
  have goesOn : ¬ Stopped s.journal := fun stopped => by
    rw [(amid.agrees.stopped stopped).1] at wasOpen
    cases wasOpen
  have changed : Spares (some task) s { s with looper := { s.looper with mailbox } } :=
    .mailbox keeps
  have recorded : Spares (some task) s
      (({ s with looper := { s.looper with mailbox } }).record (.accepted task sender m)) :=
    changed.trans (.record (by simp [Event.task?]) fun _ _ _ runs _ _ => runs)
  have spares : Spares (some task) s (s.accept task sender m mailbox) :=
    recorded.trans (.wakeAll _)
  have same : Kept { s with looper := { s.looper with mailbox } } :=
    amid.kept.congr rfl rfl (fun _ => rfl) rfl rfl
  have kept := same.act (e := .accepted task sender m) rfl amid.works begun ⟨goesOn, may⟩ s.sink
    amid.kept.sink
  have agrees : Agrees { s.looper with mailbox }
      ((s.now, .accepted task sender m) :: s.journal) :=
    amid.agrees.accept goesOn wasOpen opened queue
  rw [Machine.accept, Machine.wakeServer_eq] at spares ⊢
  exact amid.of_spares spares agrees (kept.congr rfl rfl (fun _ => rfl) rfl rfl) amid.works
    fun _ _ old new => absurd new (not_lt.mpr old)

theorem act (amid : Amid s task origin) {e : Event ν} (plain : e.Plain task) (idle : e.Idle)
    (begun : Begun s task origin) (lawful : Lawful s.journal s.now e) (sink : Sink)
    (lines : sink.lines = reports ((s.now, e) :: s.journal)) :
    Amid ({ s with sink }.record e) task origin := by
  have known : e.task? = some task := by
    cases e <;> first
      | exact congrArg some plain
      | exact plain.elim
  have changed : Spares (some task) s { s with sink } :=
    .change s.looper s.notes sink [] (fun _ => id) id ⟨fun _ _ => .inl, fun _ _ => id⟩
  have spares : Spares (some task) s ({ s with sink }.record e) :=
    changed.trans (.record (by simp [known]) fun a _ _ runs _ _ =>
      (timer?_of_idle idle a).trans runs)
  exact amid.of_spares spares (amid.agrees.idle idle)
    (amid.kept.act plain amid.works begun lawful sink lines) amid.works
    fun _ _ old new => absurd new (not_lt.mpr old)

theorem refuse (amid : Amid s task origin) {sender : Origin} {m : Message} {e : LooperError}
    (begun : Begun s task origin) (may : MayPush s.journal task m sender)
    (closed : Stopped s.journal → e = .closed) :
    Amid (s.record (.refused task sender m e)) task origin :=
  amid.act (e := .refused task sender m e) rfl trivial begun ⟨closed, may⟩ s.sink amid.kept.sink

theorem report (amid : Amid s task origin) (context message : String)
    (begun : Begun s task origin) :
    Amid ({ s with sink := s.sink.report context message }.record
      (.reported task context message)) task origin :=
  amid.act (e := .reported task context message) rfl trivial begun trivial _
    (by simp [Sink.report, reports, amid.kept.sink])

/-! ### Registering and starting -/

theorem register (amid : Amid s task origin) (action : Action) (handler : Handler ν) :
    Amid ({ s with looper := { s.looper with
      handlers := s.looper.handlers.insert action handler } }.record
        (.registered action handler)) task origin := by
  have changed : Spares (some task) s { s with looper := { s.looper with
      handlers := s.looper.handlers.insert action handler } } := .looper rfl rfl rfl
  have spares := changed.trans (.record (e := .registered action handler) nofun
    fun _ _ _ runs _ _ => runs)
  have same : Kept { s with looper := { s.looper with
      handlers := s.looper.handlers.insert action handler } } :=
    amid.kept.congr rfl rfl (fun _ => rfl) rfl rfl
  exact amid.of_spares spares (amid.agrees.register action handler) (same.apart trivial trivial)
    amid.works fun _ _ old new => absurd new (not_lt.mpr old)

theorem asked (amid : Amid s task origin) (goesOn : s.looper.closed = false) :
    Amid ({ s with looper := { s.looper with closed := true } }.record .termed) task origin := by
  have lawful : ¬ Over s.journal := by
    rw [← amid.agrees.closed, goesOn]
    nofun
  have changed : Spares (some task) s { s with looper := { s.looper with closed := true } } :=
    .looper rfl rfl rfl
  have spares := changed.trans (.record (e := .termed) nofun fun _ _ _ runs _ _ => runs)
  have same : Kept { s with looper := { s.looper with closed := true } } :=
    amid.kept.congr rfl rfl (fun _ => rfl) rfl rfl
  exact amid.of_spares spares amid.agrees.term (same.apart trivial lawful)
    amid.works fun _ _ old new => absurd new (not_lt.mpr old)

theorem spawn (amid : Amid s task origin) (looper : Looper ν) {child : Origin}
    {program : Program ν} (agrees : Agrees looper s.journal)
    (mailbox : looper.mailbox = s.looper.mailbox) (server : looper.server = s.looper.server)
    (more : ∀ other ∈ s.looper.intervals, other ∈ looper.intervals)
    (intervals : ∀ other ∈ looper.intervals,
      other ∈ s.looper.intervals ∨ other = s.fresh ∧ child = .interval)
    (fits : Fits { (s.spawn child program).1 with looper } s.fresh (.active program) child) :
    Amid { (s.spawn child program).1 with looper } task origin := by
  have spawned : Spares (some task) s (s.spawn child program).1 := .spawn child program
  have spares : Spares (some task) s { (s.spawn child program).1 with looper } :=
    spawned.trans (.change looper (s.spawn child program).1.notes (s.spawn child program).1.sink []
      more (by simp [server, Machine.spawn]) (mailbox ▸ ⟨fun _ _ => .inl, fun _ _ => id⟩))
  have foreign : task ≠ s.fresh := (amid.kept.lt_fresh amid.works).ne
  refine amid.of_spares spares agrees (amid.kept.spawn looper program intervals) ?_
    fun other t old new found => ?_
  · rw [← amid.works]
    simp [Machine.origin?, Machine.spawn, Table.get?_insert, foreign]
  · obtain rfl : other = s.fresh := le_antisymm (Nat.le_of_lt_succ new) old
    obtain rfl : ⟨child, .active program⟩ = t := by
      simpa [Machine.spawn] using found
    exact ⟨fits, trivial, .inr (.inl (by simp [Machine.spawn]))⟩

end Amid

/-! ### Tasks that may do anything -/

/-- A machine in the middle of an act of a task that may do anything. -/
structure Free (s : Machine ν) (task : TaskId) (origin : Origin) : Prop extends
    Amid s task origin where
  any : ∀ activity, Fits s task activity origin

namespace Free

variable {s s' : Machine ν} {task : TaskId} {origin : Origin}

theorem user (free : Free s task origin) : origin = .caller ∨ ∃ m, origin = .handler m := by
  cases origin with
  | caller => exact .inl rfl
  | handler m => exact .inr ⟨m, rfl⟩
  | report m =>
      obtain ⟨_, _, _, _, _, reporting⟩ := free.any (.sleeping 0 (.done (.ok ())))
      cases reporting
  | tricker action generation =>
      obtain ⟨_, _, _, _, ringing, _⟩ := free.any (.joining 0 none fun _ => .done (.ok ()))
      cases ringing
  | interval =>
      obtain ⟨_, ticking⟩ := free.any (.joining 0 none fun _ => .done (.ok ()))
      cases ticking
  | stopRequest => exact (free.any (.active (.done (.ok ())))).elim

theorem begun (free : Free s task origin) : Begun s task origin := by
  rintro action generation rfl
  obtain none | ⟨m, none⟩ := free.user <;> cases none

theorem mayPush (free : Free s task origin) (m : Message) : MayPush s.journal task m origin := by
  obtain rfl | ⟨_, rfl⟩ := free.user <;> trivial

/-- A task that did not fail may still do anything. -/
theorem fitsStill (free : Free s task origin) (journal : s'.journal = s.journal ∨
      ∃ now e, s'.journal = (now, e) :: s.journal ∧ e.isFailure = false)
    (activity : Activity ν) : Fits s' task activity origin := by
  obtain rfl | ⟨m, rfl⟩ := free.user
  · trivial
  · obtain ⟨given, sound⟩ := free.any activity
    rcases journal with same | ⟨now, e, same, noFailure⟩
    · exact ⟨same ▸ given, same ▸ sound⟩
    · refine ⟨same ▸ mem_handed_cons given, fun e' done => ?_⟩
      rw [same, deeds] at done
      split at done
      · rcases List.mem_cons.mp done with rfl | before
        · exact noFailure
        · exact sound e' before
      · exact sound e' done

theorem next (free : Free s task origin) (amid : Amid s' task origin)
    (journal : s'.journal = s.journal ∨
      ∃ now e, s'.journal = (now, e) :: s.journal ∧ e.isFailure = false) :
    Free s' task origin :=
  ⟨amid, free.fitsStill journal⟩

end Free
end TreeCluster.Looper
