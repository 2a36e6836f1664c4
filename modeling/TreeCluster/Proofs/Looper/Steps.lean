import TreeCluster.Proofs.Looper.Loop

/-! # Every act keeps order

An act of a task of a machine in order leaves a machine in order (`Sound.step`): by what the task
works for, and then by what it is about to do. -/

namespace TreeCluster.Looper

open History

variable {ν : Type}

/-- An act of a task leaves the machine in order. -/
def Well (task : TaskId) (r : Machine.Stepped ν) : Prop :=
  Sound r.1 (if r.2 then some task else none)

variable {s s' : Machine ν} {task : TaskId} {origin : Origin}

theorem Amid.goesOn (amid : Amid s task origin) {program : Program ν}
    (fits : Fits s task (.active program) origin) : Well task (s.goOn task program) :=
  amid.goOn fits

/-! ### Pushing -/

/-- How the looper answers to a push without end, and what it writes down. -/
inductive Answered (task : TaskId) (origin : Origin) (m : Message) : Outcome → Event ν → Prop
  | accepted : Answered task origin m (.ok ()) (.accepted task origin m)
  | refused : Answered task origin m (.error .closed) (.refused task origin m .closed)

/-- What a task has to be ready for when it pushes a message. -/
structure Pushes (s : Machine ν) (task : TaskId) (origin : Origin) (m : Message)
    (limit : Option ℕ) (next : Option Outcome → Program ν) : Prop where
  begun : Begun s task origin
  may : MayPush s.journal task m origin
  waits : ∀ s', s'.journal = s.journal → s'.now = s.now →
    s'.looper.intervals = s.looper.intervals → Fits s' task (.pushing m limit next) origin
  answered : ∀ s' outcome e, Answered task origin m outcome e →
    s'.journal = (s.now, e) :: s.journal → s'.now = s.now →
    s'.looper.intervals = s.looper.intervals →
    Fits s' task (.active (next (some outcome))) origin
  gaveUp : limit.isSome = true → ∀ s', s'.journal = s.journal →
    Fits s' task (.active (next none)) origin

variable {m : Message} {limit : Option ℕ} {next : Option Outcome → Program ν}

theorem Amid.refused (amid : Amid s task origin) (pushes : Pushes s task origin m limit next) :
    Well task (s.refuse task origin m next) :=
  (amid.refuse pushes.begun pushes.may fun _ => rfl).goesOn
    (pushes.answered _ _ _ .refused rfl rfl rfl)

theorem Amid.accepted (amid : Amid s task origin) (pushes : Pushes s task origin m limit next)
    {mailbox : Mailbox} (wasOpen : s.looper.mailbox.closed = false)
    (opened : mailbox.closed = false)
    (queue : mailbox.queue = s.looper.mailbox.queue ++ [pushed m])
    (keeps : Mailbox.Keeps (some task) [] s.looper.mailbox mailbox) :
    Well task ((s.accept task origin m mailbox).goOn task (next (some (.ok ())))) := by
  refine (amid.accept pushes.begun pushes.may wasOpen opened queue keeps).goesOn ?_
  rw [Machine.accept, Machine.wakeServer_eq]
  exact pushes.answered _ _ _ .accepted rfl rfl rfl

theorem Amid.push (amid : Amid s task origin) (pushes : Pushes s task origin m limit next) :
    Well task (s.push task origin m limit next) := by
  unfold Machine.push
  split
  · exact amid.refused pushes
  · cases put : s.looper.mailbox.put (pushed m) with
    | ok mailbox =>
        obtain ⟨wasOpen, opened⟩ := Mailbox.closed_of_put put
        exact amid.accepted pushes wasOpen opened (Mailbox.queue_put put)
          (Mailbox.keeps_put _ _ put)
    | error e =>
        cases e with
        | full =>
            have opened := Mailbox.closed_of_full put
            have waiting : Amid { s with looper := { s.looper with
                mailbox := s.looper.mailbox.wait task } } task origin :=
              amid.mailbox (s.looper.mailbox.keeps_wait task) id (fun _ => rfl) fun shut =>
                absurd (opened.symm.trans shut) nofun
            have inLine : task ∈ ({ s with looper := { s.looper with
                mailbox := s.looper.mailbox.wait task } }.suspend task
                  (.pushing m limit next) limit).looper.mailbox.waiting := by
              rw [Machine.suspend_eq]
              exact List.mem_append_right _ (List.mem_singleton_self task)
            exact waiting.turnTo (pushes.waits _ rfl rfl rfl)
              ⟨.inr (.inl inLine), .inr (.inr inLine)⟩
        | _ => exact amid.refused pushes

theorem Amid.pushAgain (amid : Amid s task origin) (pushes : Pushes s task origin m limit next)
    (found : s.tasks.get? task = some ⟨origin, .pushing m limit next⟩)
    (arranged : Arranged s task (.pushing m limit next)) :
    Well task (s.pushAgain task origin m limit next) := by
  unfold Machine.pushAgain
  split
  · exact amid.refused pushes
  rename_i shut
  have opened : s.looper.mailbox.closed = false := by simpa using shut
  split
  · exact amid.accepted pushes opened opened rfl (s.looper.mailbox.keeps_fill task _)
  rename_i foreign
  split
  · rename_i passed
    refine amid.withdraw.goesOn (pushes.gaveUp ?_ _ ?_)
    · cases limit with
      | none => cases passed
      | some due => rfl
    · rw [Machine.wakeAll_eq]
  · have inLine : task ∈ s.looper.mailbox.waiting := by
      rcases arranged with closed | waiting | granted
      · exact absurd closed shut
      · exact waiting
      · exact absurd (by simpa using granted) foreign
    exact amid.sound found (pushes.waits s rfl rfl rfl) ⟨arranged, .inr (.inr inLine)⟩

/-! ### Tasks that may do anything -/

namespace Free

theorem goesOn (free : Free s task origin) (program : Program ν) :
    Well task (s.goOn task program) :=
  free.toAmid.goOn (free.any _)

theorem pushes (free : Free s task origin) (m : Message) (limit : Option ℕ)
    (next : Option Outcome → Program ν) : Pushes s task origin m limit next := by
  have fits : ∀ (s' : Machine ν) (activity : Activity ν), (s'.journal = s.journal ∨
      ∃ now e, s'.journal = (now, e) :: s.journal ∧ e.isFailure = false) →
      Fits s' task activity origin := fun s' activity journal => free.fitsStill journal activity
  refine ⟨free.begun, free.mayPush m, fun s' journal _ _ => fits s' _ (.inl journal),
    fun s' outcome e answered journal _ _ => fits s' _ (.inr ⟨_, e, journal, ?_⟩),
    fun _ s' journal => fits s' _ (.inl journal)⟩
  cases answered <;> rfl

theorem ended (free : Free s task origin) (result : Outcome) :
    Well task (s.ended task origin result) := by
  refine free.toAmid.ended free.begun (.of_none fun e done => ⟨?_, ?_⟩) result
  all_goals
    have account := free.kept.account task
    rw [free.works] at account
  · rintro action generation rfl
    obtain rfl | ⟨_, rfl⟩ := free.user <;> simpa using account.fired action generation done
  · rintro m failure rfl
    obtain rfl | ⟨_, rfl⟩ := free.user <;> simpa using account.failed m failure done

theorem suspend (free : Free s task origin) {activity : Activity ν} {due : Option ℕ}
    (arranged : Arranged (s.suspend task activity due) task activity) :
    Sound (s.suspend task activity due) (some task) :=
  free.toAmid.turnTo (free.any activity) ⟨arranged, .inl rfl⟩

theorem accept (free : Free s task origin) (sender : Origin) {mailbox : Mailbox}
    (may : MayPush s.journal task m sender) (put : s.looper.mailbox.put (pushed m) = .ok mailbox) :
    Free (s.accept task sender m mailbox) task origin := by
  obtain ⟨wasOpen, opened⟩ := Mailbox.closed_of_put put
  refine free.next (free.toAmid.accept free.begun may wasOpen opened (Mailbox.queue_put put)
    (Mailbox.keeps_put _ _ put)) (.inr ⟨s.now, .accepted task sender m, ?_, rfl⟩)
  rw [Machine.accept, Machine.wakeServer_eq]
  rfl

theorem tryPush (free : Free s task origin) (m : Message) :
    Free (s.tryPush task origin m).1 task origin := by
  unfold Machine.tryPush
  split
  · exact free.next (free.toAmid.refuse free.begun (free.mayPush m) fun _ => rfl)
      (.inr ⟨_, _, rfl, rfl⟩)
  · rename_i goesOn
    cases put : s.looper.mailbox.put (pushed m) with
    | ok mailbox => exact free.accept origin (free.mayPush m) put
    | error e =>
        refine free.next (free.toAmid.refuse free.begun (free.mayPush m) fun stopped => ?_)
          (.inr ⟨_, _, rfl, rfl⟩)
        exact absurd (free.agrees.closed.mpr stopped.over) goesOn

theorem setInterval (free : Free s task origin) (period : ℕ) (tick : ℕ → Option Message) :
    Free (s.setInterval period tick).1 task origin := by
  unfold Machine.setInterval
  split
  · exact free
  split
  · exact free
  · rename_i goesOn
    let looper : Looper ν := { s.looper with intervals := s.looper.intervals ++ [s.fresh] }
    have agrees : Agrees looper s.journal :=
      { free.agrees with
        stopped := fun stopped => absurd (free.agrees.closed.mpr stopped.over) goesOn }
    refine free.next (free.toAmid.spawn looper agrees rfl rfl
      (fun _ => List.mem_append_left _) (fun other inside => ?_) ⟨?_, .ticks⟩) (.inl rfl)
    · exact (List.mem_append.mp inside).imp_right fun own => ⟨List.mem_singleton.mp own, rfl⟩
    · exact List.mem_append_right _ (List.mem_singleton_self _)

theorem spawn (free : Free s task origin) (child : Program ν) :
    Free (s.spawn .caller child).1 task origin := by
  have fits : Fits (s.spawn .caller child).1 s.fresh (.active child) .caller := trivial
  exact free.next (free.toAmid.spawn s.looper free.agrees rfl rfl (fun _ => id) (fun _ => .inl)
    fits) (.inl rfl)

theorem wakeServer (free : Free s task origin) : Free s.wakeServer task origin := by
  refine free.next (free.toAmid.change s.looper s.notes s.looper.server.toList free.agrees rfl id
    ⟨fun _ _ => .inl, fun _ _ => id⟩) (.inl ?_)
  rw [Machine.wakeServer_eq]

theorem term (free : Free s task origin) : Free (s.term task) task origin := by
  unfold Machine.term
  split
  · exact free
  · rename_i goesOn
    have asked : Free ({ s with looper := { s.looper with closed := true } }.record .termed)
        task origin :=
      free.next (free.toAmid.asked (by simpa using goesOn)) (.inr ⟨_, _, rfl, rfl⟩)
    dsimp only
    generalize ({ s with looper := { s.looper with closed := true } }.record .termed) = s' at asked
    split
    · rename_i mailbox put
      exact asked.accept .stopRequest ⟨rfl, rfl⟩ put
    · exact asked.wakeServer

theorem takeLoop (free : Free s task origin) :
    Free { s with looper := { s.looper with server := some task } } task origin := by
  have agrees : Agrees { s.looper with server := some task } s.journal :=
    { free.agrees with
      stopped := fun stopped => by
        obtain ⟨closed, intervals, -⟩ := free.agrees.stopped stopped
        exact ⟨closed, intervals, rfl⟩ }
  exact free.next (free.toAmid.change { s.looper with server := some task } s.notes [] agrees rfl
    (fun _ => rfl) ⟨fun _ _ => .inl, fun _ _ => id⟩) (.inl rfl)

/-- One act of a program. -/
theorem act (free : Free s task origin)
    (program : Program ν) : Well task (s.act task origin program) := by
  cases program with
  | done result => exact free.ended result
  | fail failure =>
      obtain rfl | ⟨m, rfl⟩ := free.user
      · exact free.ended (.ok ())
      · exact free.toAmid.fail free.any failure
  | note entry next =>
      have noted : Free { s with notes := (s.now, entry) :: s.notes } task origin :=
        free.next (free.toAmid.note _) (.inl rfl)
      exact noted.goesOn next
  | look next => exact free.goesOn _
  | sleepUntil due next =>
      rw [Machine.act]
      split
      · exact free.goesOn next
      · exact free.toAmid.sleep (free.any _)
  | push m patience next => exact free.toAmid.push (free.pushes m _ next)
  | tryPush m next => exact (free.tryPush m).goesOn _
  | addHandler action deadline body next =>
      have registered := free.next (free.toAmid.register action ⟨deadline, body⟩)
        (.inr ⟨_, _, rfl, rfl⟩)
      exact registered.goesOn next
  | removeHandler action next =>
      refine Free.goesOn (free.next (free.toAmid.removeHandler action free.noTimer.2)
        (.inr ⟨_, _, congrArg (List.cons _) ?_, rfl⟩)) _
      exact (Timed.disarm free.kept free.agrees.timers action).2.journal
  | setInterval period tick next => exact (free.setInterval period tick).goesOn _
  | every period due count tick =>
      rw [Machine.act]
      split
      · exact free.toAmid.sleep (free.any _)
      · cases tick count <;> exact free.goesOn _
  | expire next =>
      obtain rfl | ⟨m, rfl⟩ := free.user <;> exact free.goesOn next
  | term next => exact free.term.goesOn next
  | serve patience next =>
      rw [Machine.act]
      cases served : s.looper.server with
      | some other => exact free.goesOn _
      | none =>
          refine free.takeLoop.suspend ?_
          rw [Machine.suspend_eq]
          rfl
  | spawn child next => exact (free.spawn child).goesOn _
  | join other patience next => exact free.suspend trivial
  | report context message next =>
      have reported := free.next (free.toAmid.report context message free.begun)
        (.inr ⟨_, _, rfl, rfl⟩)
      exact reported.goesOn next

theorem serve (free : Free s task origin) {limit : Option ℕ}
    {next : Option Outcome → Program ν}
    (found : s.tasks.get? task = some ⟨origin, .serving limit next⟩)
    (served : s.looper.server.isSome = true) : Well task (s.serve task limit next) := by
  have turned := free.turn served
  unfold Machine.serve
  split
  · rename_i s' took
    rw [took] at turned
    obtain ⟨free', spares⟩ := turned
    obtain ⟨t, known, works⟩ := Option.map_eq_some_iff.mp free'.works
    have spared := spares.others task t nofun (free.kept.lt_fresh free.works) known
    obtain rfl : t = ⟨origin, .serving limit next⟩ :=
      Option.some.inj (spared.was.symm.trans found)
    exact free'.toAmid.sound known (free'.any _) ⟨spares.served served, .inl rfl⟩
  · rename_i s' stopped
    rw [stopped] at turned
    exact Free.goesOn turned _
  · rename_i s' idle
    rw [idle] at turned
    obtain rfl : s' = s := turned
    split
    · refine (free.next free.toAmid.closeMailbox (.inl ?_)).goesOn _
      rw [Machine.closeMailbox_eq]
    · exact free.toAmid.sound found (free.any _) ⟨served, .inr (.inr trivial)⟩

/-- One act of a task that may do anything. -/
theorem step (free : Free s task origin) {activity : Activity ν}
    (found : s.tasks.get? task = some ⟨origin, activity⟩) (arranged : Arranged s task activity) :
    Well task (s.step task) := by
  unfold Machine.step
  rw [found]
  have waits : Parked s task activity → Well task ((s, false) : Machine.Stepped ν) := fun parked =>
    free.toAmid.sound found (free.any _) ⟨arranged, .inr (.inr parked)⟩
  cases activity with
  | active program => exact free.act program
  | sleeping due next =>
      dsimp only
      split
      · exact free.goesOn next
      · rename_i early
        exact waits (arranged.resolve_right early)
  | pushing m limit next => exact free.toAmid.pushAgain (free.pushes m limit next) found arranged
  | serving limit next => exact free.serve found arranged
  | joining other limit next =>
      dsimp only [Machine.join]
      split
      · exact free.goesOn _
      · split
        · exact free.goesOn _
        · exact waits trivial

end Free

/-! ### Intervals -/

namespace Amid

theorem tick (amid : Amid s task .interval) {activity : Activity ν}
    (found : s.tasks.get? task = some ⟨.interval, activity⟩) (fits : Fits s task activity .interval)
    (arranged : Arranged s task activity) : Well task (s.step task) := by
  obtain ⟨inside, ticking⟩ := fits
  have pushes : ∀ m {next : Option Outcome → Program ν},
      (∀ answer, Ticking (.active (next answer))) → Pushes s task .interval m none next :=
    fun m next goes => ⟨nofun, trivial, fun _ _ _ intervals => ⟨intervals ▸ inside, .waits goes⟩,
      fun _ _ _ _ _ _ intervals => ⟨intervals ▸ inside, goes _⟩, nofun⟩
  unfold Machine.step
  rw [found]
  cases ticking with
  | @ticks period due count tick =>
      dsimp only [Machine.act]
      split
      · exact amid.sleep ⟨inside, .asleep⟩
      · cases tick count with
        | none => exact amid.goesOn ⟨inside, .ticks⟩
        | some m =>
            refine amid.goesOn ⟨inside, .pushes fun answer => ?_⟩
            split
            · exact .ticks
            · exact .ends
  | @asleep period due count wake tick =>
      dsimp only
      split
      · exact amid.goesOn ⟨inside, .ticks⟩
      · rename_i early
        exact amid.sound found ⟨inside, .asleep⟩
          ⟨arranged, .inr (.inr (arranged.resolve_right early))⟩
  | pushes goes => exact amid.push (pushes _ goes)
  | waits goes => exact amid.pushAgain (pushes _ goes) found arranged
  | ends =>
      refine amid.ended nofun (.of_none fun e done => ⟨?_, ?_⟩) _
      all_goals
        have account := amid.kept.account task
        rw [amid.works] at account
      · rintro action generation rfl
        simpa using account.fired action generation done
      · rintro m failure rfl
        simpa using account.failed m failure done

/-! ### Timers -/

theorem fires {timer : Timer} (amid : Amid s task timer.origin) (same : timer.task = task)
    (runs : timer? timer.probe.action s.journal = some timer) (due : timer.due ≤ s.now) :
    Well task (s.act task timer.origin (.expire (.escalation timer.copy))) := by
  subst same
  obtain ⟨-, known, idle, -⟩ := amid.kept.running _ timer runs
  have slot := amid.agrees.timers timer.probe.action
  rw [runs] at slot
  have frees : s.vacate timer.probe.action timer.generation = { s with looper := { s.looper with
      trickers := s.looper.trickers.erase timer.probe.action } } := by
    simp [Machine.vacate, slot, Timer.slot]
  have changed : Spares (some timer.task) s { s with looper := { s.looper with
      trickers := s.looper.trickers.erase timer.probe.action } } := .looper rfl rfl rfl
  have spares : Spares (some timer.task) s (({ s with looper := { s.looper with
      trickers := s.looper.trickers.erase timer.probe.action } }).record timer.firing) :=
    changed.trans (.record (by simp [Timer.firing, Event.task?]) fun a other t ran foreign _ => by
      have different : timer.probe.action ≠ a := by
        rintro rfl
        exact foreign (congrArg (fun timer => some timer.task)
          (Option.some.inj (runs.symm.trans ran)))
      simpa [Timer.firing, timer?, different] using ran)
  have kept := amid.kept.fire { s.looper with
      trickers := s.looper.trickers.erase timer.probe.action } amid.works idle
    ⟨timer, runs, rfl, rfl, due, idle⟩ rfl
  have fired := amid.of_spares spares (amid.agrees.fire _ _ _) kept amid.works
    fun _ _ old new => absurd new (not_lt.mpr old)
  simp only [Machine.act, Timer.origin, frees]
  refine fired.goesOn ⟨timer, known, rfl, rfl, ?_, ?_⟩
  all_goals
    have did : deeds timer.task ((({ s with looper := { s.looper with
        trickers := s.looper.trickers.erase timer.probe.action } }).record timer.firing)).journal =
        [timer.firing] := by
      simp [Machine.record, deeds, Timer.firing, Event.task?, idle]
  · rw [did]
    exact .escalates
  · rw [did]
    simp [Timer.firing]

theorem escalates {timer : Timer} (known : timer ∈ armed s.journal)
    (did : deeds timer.task s.journal = [timer.firing]) :
    Pushes s timer.task timer.origin timer.copy none fun _ => .done (.ok ()) where
  begun action generation _ := by simp [did, Timer.firing]
  may := ⟨timer, known, rfl, rfl, rfl, did⟩
  waits s' journal now _ := by
    refine ⟨timer, journal ▸ known, rfl, rfl, ?_, ?_⟩ <;> rw [journal, did]
    · exact .waits
    · simp [Timer.firing]
  answered s' outcome e answered journal now _ := by
    have own : deeds timer.task s'.journal = [e, timer.firing] := by
      rw [journal]
      cases answered <;> simp [deeds, Event.task?, did]
    refine ⟨timer, journal ▸ mem_armed_cons known, rfl, rfl, ?_, ?_⟩ <;> rw [own]
    · cases answered with
      | accepted => exact .ends (.inl rfl)
      | refused => exact .ends (.inr rfl)
    · cases answered <;> simp
  gaveUp limited := by simp at limited

theorem ring {action : Action} {generation : ℕ} (amid : Amid s task (.tricker action generation))
    {activity : Activity ν}
    (found : s.tasks.get? task = some ⟨.tricker action generation, activity⟩)
    (fits : Fits s task activity (.tricker action generation))
    (arranged : Arranged s task activity) : Well task (s.step task) := by
  obtain ⟨timer, known, rfl, origin, ringing, runs⟩ := fits
  obtain ⟨rfl, rfl⟩ := Origin.tricker.inj origin
  change Amid s timer.task timer.origin at amid
  unfold Machine.step
  rw [found]
  generalize did : deeds timer.task s.journal = own at ringing runs
  have stay : ∀ {activity : Activity ν}, own = [] → Ringing s.now timer activity [] →
      Fits s timer.task activity timer.origin := fun {activity} idle ringing => by
    refine ⟨timer, known, rfl, rfl, ?_, fun _ => runs idle⟩
    rwa [did, idle]
  cases ringing with
  | begun =>
      dsimp only [Program.tricker, Machine.act]
      split
      · rename_i due
        exact amid.goesOn (stay rfl (.rung due))
      · exact amid.sleep (stay rfl .asleep)
  | asleep =>
      dsimp only
      split
      · rename_i due
        exact amid.goesOn (stay rfl (.rung due))
      · rename_i early
        exact amid.sound found (stay rfl .asleep)
          ⟨arranged, .inr (.inr (arranged.resolve_right early))⟩
  | rung due => exact amid.fires rfl (runs rfl) due
  | escalates => exact amid.push (escalates known did)
  | waits => exact amid.pushAgain (escalates known did) found arranged
  | @ends e ended =>
      refine amid.ended (fun _ _ _ => by rw [did]; nofun) ?_ _
      rw [did]
      refine ⟨fun action generation fired => .inr ⟨rfl, timer, known, rfl, ?_, e, ended, rfl⟩,
        fun m failure failed => ?_⟩
      · have same : action = timer.probe.action ∧ generation = timer.generation := by
          obtain rfl | rfl := ended <;> simpa [Timer.firing] using fired
        rw [same.1, same.2]
        rfl
      · obtain rfl | rfl := ended <;> simp [Timer.firing] at failed

/-! ### Reports -/

theorem reports {m back : Message} {failure : Failure} {own : List (Event ν)}
    (did : deeds task s.journal = .failed task m failure :: own)
    (sound : ∀ e ∈ own, e.isFailure = false) (state : m.state ≠ .error)
    (isReport : IsReport m failure back) :
    Pushes s task (.report m) back none (.afterReport m) where
  begun := nofun
  may := ⟨failure, own, did, sound, state, isReport⟩
  waits s' journal _ _ :=
    ⟨failure, [], own, journal ▸ did, sound, .waits state isReport⟩
  answered s' outcome e answered journal _ _ := by
    refine ⟨failure, [e], own, ?_, sound, ?_⟩
    · rw [journal]
      cases answered <;> simp [deeds, Event.task?, did]
    · cases answered with
      | accepted => exact .ends (.accepted state isReport)
      | refused => exact .refused state isReport
  gaveUp := nofun

theorem tell {m : Message} (amid : Amid s task (.report m)) {failure : Failure}
    {later own : List (Event ν)}
    (did : deeds task s.journal = later ++ .failed task m failure :: own)
    (sound : ∀ e ∈ own, e.isFailure = false) (message : String)
    (reported : Reported task m failure (.reported task m.action.text message :: later)) :
    Well task (s.act task (.report m) (.report m.action.text message (.done (.ok ())))) := by
  refine (amid.report m.action.text message nofun).goesOn
    ⟨failure, .reported task m.action.text message :: later, own, ?_, sound, .ends reported⟩
  simp [Machine.record, deeds, Event.task?, did]

theorem tells {m : Message} (amid : Amid s task (.report m)) {activity : Activity ν}
    (found : s.tasks.get? task = some ⟨.report m, activity⟩)
    (fits : Fits s task activity (.report m)) (arranged : Arranged s task activity) :
    Well task (s.step task) := by
  obtain ⟨failure, later, own, did, sound, reporting⟩ := fits
  unfold Machine.step
  rw [found]
  cases reporting with
  | begun =>
      dsimp only [Program.ofFailure]
      split
      · rename_i state
        exact amid.tell did sound failure.text (.noted state)
      · rename_i state
        exact amid.goesOn ⟨failure, [], own, did, sound, .pushes state ⟨rfl, rfl, rfl, rfl⟩⟩
  | pushes state isReport => exact amid.push (reports did sound state isReport)
  | waits state isReport =>
      exact amid.pushAgain (reports did sound state isReport) found arranged
  | refused state isReport => exact amid.tell did sound _ (.refused state isReport)
  | ends reported =>
      refine amid.ended nofun ?_ _
      have account := amid.kept.account task
      rw [amid.works] at account
      refine ⟨fun action generation fired => ?_, fun m' failure' failed => .inr ⟨rfl, ?_⟩⟩
      · simpa using account.fired action generation fired
      · have same : m' = m ∧ failure' = failure := by
          rw [did, List.mem_append, List.mem_cons] at failed
          obtain inside | same | inside := failed
          · cases reported <;> simp at inside
          · simpa using same
          · cases sound _ inside
        obtain ⟨rfl, rfl⟩ := same
        exact ⟨later, own, did, sound, reported⟩

end Amid

/-! ### Any act -/

theorem Sound.amid (sound : Sound s (some task)) {activity : Activity ν}
    (found : s.tasks.get? task = some ⟨origin, activity⟩) : Amid s task origin :=
  ⟨sound.agrees, sound.kept, by simp [Machine.origin?, found],
    fun other t _ => sound.fits other t, fun other t _ => sound.heeded other t⟩

/-- Only callers and handlers run the event loop. -/
theorem Sound.free_of_serving (sound : Sound s (some task))
    (found : s.tasks.get? task = some ⟨origin, .serving limit next⟩) : Free s task origin := by
  have fits := sound.fits task _ found
  have amid := sound.amid found
  cases origin with
  | caller => exact ⟨amid, fun _ => trivial⟩
  | handler m => exact ⟨amid, fun _ => fits⟩
  | report m =>
      obtain ⟨_, _, _, _, _, reporting⟩ := fits
      cases reporting
  | tricker action generation =>
      obtain ⟨_, _, _, _, ringing, _⟩ := fits
      cases ringing
  | interval => cases fits.2
  | stopRequest => exact fits.elim

/-- An act of the task whose turn it is leaves a machine in order. -/
theorem Sound.step (sound : Sound s (some task)) : Well task (s.step task) := by
  cases found : s.tasks.get? task with
  | none =>
      have gone : s.step task = (s, false) := by simp [Machine.step, found]
      rw [gone]
      refine ⟨sound.agrees, sound.kept, sound.fits, fun other t known => ?_⟩
      refine (sound.heeded other t known).elsewhere ?_
      rintro rfl
      rw [found] at known
      cases known
  | some t =>
      obtain ⟨origin, activity⟩ := t
      have amid := sound.amid found
      have fits := sound.fits task _ found
      have arranged := (sound.heeded task _ found).arranged
      cases origin with
      | caller => exact Free.step ⟨amid, fun _ => trivial⟩ found arranged
      | handler m => exact Free.step ⟨amid, fun _ => fits⟩ found arranged
      | report m => exact amid.tells found fits arranged
      | tricker action generation => exact amid.ring found fits arranged
      | interval => exact amid.tick found fits arranged
      | stopRequest => exact fits.elim

end TreeCluster.Looper
