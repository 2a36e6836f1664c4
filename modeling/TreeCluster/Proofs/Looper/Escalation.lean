import TreeCluster.Proofs.Looper.Moments
import TreeCluster.Proofs.Looper.Timers

/-! # Retry escalation

A probe that is handed to a handler with a deadline arms the timer of its action, unless that timer
runs.  Under a virtual clock, which stands still as long as anybody can act, the timer fires
exactly when it is due, if it has not been stopped; then its slot is free, and its task pushes the
failed copy of the probe once (`Moment.escalated_of_run`).

A timer is due when the deadline has passed, but the clock cuts what is longer than thirty years
(`Moment.fired_before_deadline`). -/

namespace TreeCluster.Looper

open History

variable {ν : Type}

/-! ### On time -/

theorem History.onTime_append {events h : History ν} {now : ℕ} (chronicle : Chronicle (events ++ h))
    (onTime : OnTime h) (inTime : ∀ a timer, timer? a h = some timer → now ≤ timer.due)
    (dated : ∀ e ∈ events, e.1 = now) : OnTime (events ++ h) ∧
      ∀ a timer, timer? a (events ++ h) = some timer → now ≤ timer.due := by
  induction events with
  | nil => exact ⟨onTime, inTime⟩
  | cons x events ih =>
      obtain ⟨t, e⟩ := x
      obtain ⟨lawful, chronicle⟩ := chronicle
      obtain ⟨rfl, dated⟩ := List.forall_mem_cons.mp dated
      obtain ⟨onTime, inTime⟩ := ih chronicle dated
      refine ⟨⟨inTime, onTime⟩, fun a timer runs => ?_⟩
      rcases timer?_cons lawful runs with ran | ⟨m, task, program, -, -, -, due, -⟩
      · exact inTime a timer ran
      · exact due

namespace Moment

/-- Nothing has happened and no time has passed after a timer that ran was due. -/
structure Prompt (q : Moment ν) : Prop where
  onTime : OnTime q.history
  inTime : ∀ a timer, timer? a q.history = some timer → q.machine.now ≤ timer.due

theorem Sound.ringing {q : Moment ν} (sound : q.Sound) {timer : Timer}
    (known : timer ∈ armed q.history) {activity : Activity ν}
    (found : q.machine.tasks.get? timer.task = some ⟨timer.origin, activity⟩) :
    Ringing q.machine.now timer activity (deeds timer.task q.history) := by
  obtain ⟨other, known', same, -, ringing, -⟩ := sound.fits timer.task _ found
  obtain rfl := timer_unique sound.kept.chronicle known' known same
  exact ringing

theorem Sound.running {q : Moment ν} (sound : q.Sound) {a : Action} {timer : Timer}
    (runs : timer? a q.history = some timer) : deeds timer.task q.history = [] ∧
      ∃ activity, q.machine.tasks.get? timer.task = some ⟨timer.origin, activity⟩ ∧
        Ringing q.machine.now timer activity [] := by
  obtain ⟨-, known, idle, works⟩ := sound.kept.running a timer runs
  obtain ⟨⟨origin, activity⟩, found, rfl⟩ := Option.map_eq_some_iff.mp works
  have ringing := sound.ringing known found
  rw [show deeds timer.task q.history = [] from idle] at ringing
  exact ⟨idle, activity, found, ringing⟩

/-- When nobody can act, the task of a timer that runs sleeps until the timer is due. -/
theorem Sound.asleep {q : Moment ν} (sound : q.Sound) (nobody : q.current = none)
    (none : q.machine.ready = []) {a : Action} {timer : Timer}
    (runs : timer? a q.history = some timer) : (timer.due, timer.task) ∈ q.machine.timers := by
  obtain ⟨-, activity, found, ringing⟩ := sound.running runs
  have parked : Parked q.machine timer.task activity := by
    rcases (sound.heeded timer.task _ found).awaited with turn | inLine | parked
    · rw [nobody] at turn
      cases turn
    · rw [none] at inLine
      cases inLine
    · exact parked
  cases ringing with
  | asleep => exact parked
  | _ => exact parked.elim

theorem Prompt.apply {q : Moment ν} (prompt : q.Prompt) (sound : q.Sound) (move : Move ν) :
    (q.apply .virtual move).Prompt := by
  have still : ∀ q' : Moment ν, q'.history = q.history → q'.machine.now = q.machine.now →
      q'.Prompt := fun q' history now =>
    ⟨history ▸ prompt.onTime, fun a timer runs => now ▸ prompt.inTime a timer (history ▸ runs)⟩
  have sound' := sound.apply .virtual move
  obtain ⟨s, current⟩ := q
  cases move with
  | call program => exact still _ rfl rfl
  | turn task =>
      dsimp only [Moment.apply]
      split <;> exact still _ rfl rfl
  | act =>
      cases current with
      | none => exact still _ rfl rfl
      | some task =>
          obtain ⟨now, events, journal, dated⟩ := (Advances.step (s := s) task).journal
          have chronicle : Chronicle (events ++ s.journal) := journal ▸ sound'.kept.chronicle
          obtain ⟨onTime, inTime⟩ :=
            onTime_append chronicle prompt.onTime prompt.inTime dated
          refine ⟨(congrArg OnTime journal).mpr onTime, fun a timer runs => ?_⟩
          change (s.step task).1.now ≤ timer.due
          rw [now]
          exact inTime a timer ((congrArg (timer? a) journal).symm.trans runs)
  | yield =>
      cases current with
      | none => exact still _ rfl rfl
      | some task =>
          dsimp only [Moment.apply]
          rw [s.wake_eq]
          split <;> exact still _ rfl rfl
  | pass millis =>
      dsimp only [Moment.apply]
      split
      · rename_i free
        cases later : s.advance? with
        | none => exact still _ rfl rfl
        | some s' =>
            obtain ⟨due, first, rfl⟩ := Option.map_eq_some_iff.mp later
            rw [Option.getD_some, s.elapse_eq]
            refine ⟨prompt.onTime, fun a timer runs => max_le (prompt.inTime a timer runs) ?_⟩
            have asleep := sound.asleep free.1 free.2 runs
            exact (List.min?_eq_some_iff.mp first).2 _ (List.mem_map_of_mem asleep)
      · exact still _ rfl rfl

/-- Under a virtual clock no timer is ever late. -/
theorem prompt_run (moves : List (Move ν)) (capacity : ℕ) :
    (run .virtual moves (start capacity)).Prompt := by
  induction moves using List.reverseRecOn with
  | nil => exact ⟨trivial, fun a timer runs => by cases runs⟩
  | append_singleton moves move ih =>
      rw [run_concat]
      exact ih.apply (sound_run .virtual moves capacity) move

/-! ### Timers and their tasks -/

/-- The timers of the looper: at most one for an action, which was armed for it.  A task that works
as a timer and has done nothing so far is the one of its action. -/
structure Slots (q : Moment ν) : Prop where
  trickers : ∀ a, q.machine.looper.trickers.get? a = (timer? a q.history).map Timer.slot
  single : q.machine.looper.trickers.keys.Nodup
  armed : ∀ a timer, timer? a q.history = some timer →
    timer.probe.action = a ∧ timer ∈ armed q.history
  tasks : ∀ task t action generation, q.machine.tasks.get? task = some t →
    t.origin = .tricker action generation → deeds task q.history = [] →
      ∃ timer, timer? action q.history = some timer ∧ timer.task = task

/-- The task of a timer that runs will ring in time: it has not slept yet, or is asleep until the
timer is due, or has been woken. -/
structure Waits (q : Moment ν) (timer : Timer) : Prop where
  inTime : q.machine.now ≤ timer.due
  idle : deeds timer.task q.history = []
  rings : ∃ activity, q.machine.tasks.get? timer.task = some ⟨timer.origin, activity⟩ ∧
    Ringing q.machine.now timer activity [] ∧ (q.current = some timer.task ∨
      timer.task ∈ q.machine.ready ∨ (timer.due, timer.task) ∈ q.machine.timers)

/-- What came of a timer that has fired: its push has ended, or its task is at it, and it is its
turn, or it is in line, or it waits for a place. -/
inductive Escalates (q : Moment ν) (timer : Timer) : Prop
  | ended {e : Event ν} : q.machine.tasks.get? timer.task = none → timer.Ends e →
      deeds timer.task q.history = [e, timer.firing] → Escalates q timer
  | goesOn {activity : Activity ν} :
      q.machine.tasks.get? timer.task = some ⟨timer.origin, activity⟩ →
      deeds timer.task q.history ≠ [] →
      Ringing q.machine.now timer activity (deeds timer.task q.history) →
      q.current = some timer.task ∨ timer.task ∈ q.machine.ready ∨
        timer.task ∈ q.machine.looper.mailbox.waiting → Escalates q timer

theorem history_of_expire (clock : Clock) {s : Machine ν} {timer : Timer} {next : Program ν}
    (found : s.tasks.get? timer.task = some ⟨timer.origin, .active (.expire next)⟩) :
    (apply clock ⟨s, some timer.task⟩ .act).history = (s.now, timer.firing) :: s.journal := by
  have still : Still s (s.vacate timer.probe.action timer.generation) := .vacate _ _
  have steps : s.step timer.task = ((s.vacate timer.probe.action timer.generation).record
      timer.firing).goOn timer.task next := by
    simp only [Machine.step, found]
    rfl
  rw [act_of_goOn clock steps, Machine.resume_eq, ← still.now, ← still.journal]
  rfl

namespace Sound

variable {q : Moment ν} {timer : Timer}

theorem slots (sound : q.Sound) : q.Slots where
  trickers := sound.agrees.timers
  single := sound.agrees.single
  armed _ _ := armed_of_timer? sound.kept.chronicle
  tasks task t action generation found tricker idle := by
    obtain ⟨origin, activity⟩ := t
    obtain rfl : origin = .tricker action generation := tricker
    obtain ⟨timer, -, same, -, -, runs⟩ := sound.fits task _ found
    exact ⟨timer, runs idle, same⟩

theorem waits (sound : q.Sound) (prompt : q.Prompt)
    (runs : timer? timer.probe.action q.history = some timer) : q.Waits timer := by
  obtain ⟨idle, activity, found, ringing⟩ := sound.running runs
  refine ⟨prompt.inTime _ timer runs, idle, activity, found, ringing, ?_⟩
  refine (sound.heeded timer.task _ found).awaited.imp_right (.imp_right fun parked => ?_)
  cases ringing with
  | asleep => exact parked
  | _ => exact parked.elim

/-- A timer that runs and is due fires as soon as its task has acted twice. -/
theorem fires_of_due (sound : q.Sound) (runs : timer? timer.probe.action q.history = some timer)
    (turn : q.current = some timer.task) (due : timer.due ≤ q.machine.now) (clock : Clock) :
    (q.machine.now, timer.firing) ∈ (run clock [.act, .act] q).history := by
  obtain ⟨-, activity, found, ringing⟩ := sound.running runs
  obtain ⟨s, current⟩ := q
  obtain rfl : current = some timer.task := turn
  let rest : Program ν := .expire (.escalation timer.copy)
  -- Before it has been woken, its task only goes on to the end of its sleep.
  have wakes : s.step timer.task = s.goOn timer.task rest →
      (s.now, timer.firing) ∈ (run clock [.act, .act] ⟨s, some timer.task⟩).history := by
    intro steps
    have woken : (s.resume timer.task rest).tasks.get? timer.task =
        some ⟨timer.origin, .active rest⟩ := by
      rw [Machine.resume_eq]
      simp [Table.get?_adjust, found]
    have fires := history_of_expire clock woken
    rw [← act_of_goOn clock steps, Machine.resume_eq] at fires
    change _ ∈ (Moment.apply clock (Moment.apply clock ⟨s, some timer.task⟩ .act) .act).history
    rw [fires]
    exact List.mem_cons_self
  cases ringing with
  | begun => exact wakes (by simp [Machine.step, found, Machine.act, Program.tricker, due, rest])
  | asleep => exact wakes (by simp [Machine.step, found, due, rest])
  | rung =>
      obtain ⟨events, grows⟩ :=
        journal_apply (Moment.apply clock ⟨s, some timer.task⟩ .act) clock .act
      change _ ∈ (Moment.apply clock (Moment.apply clock ⟨s, some timer.task⟩ .act) .act).history
      rw [grows, history_of_expire clock found]
      exact List.mem_append_right _ List.mem_cons_self

theorem escalates (sound : q.Sound) (known : timer ∈ armed q.history) {t : ℕ}
    (fired : (t, timer.firing) ∈ q.history) : q.Escalates timer := by
  have did : timer.firing ∈ deeds timer.task q.history := mem_deeds_of_mem fired rfl
  rcases (sound.kept.account timer.task).fired _ _ did with
    works | ⟨gone, other, known', same, -, e, ends, own⟩
  · obtain ⟨⟨origin, activity⟩, found, rfl⟩ := Option.map_eq_some_iff.mp works
    have ringing := sound.ringing known found
    refine .goesOn found (List.ne_nil_of_mem did) ringing
      ((sound.heeded timer.task _ found).awaited.imp_right (.imp_right fun parked => ?_))
    generalize deeds timer.task q.history = own at did ringing
    cases ringing with
    | waits => exact parked
    | asleep => cases did
    | _ => exact parked.elim
  · obtain rfl := timer_unique sound.kept.chronicle known' known same
    exact .ended (Option.map_eq_none_iff.mp gone) ends own

end Sound
end Moment

/-! ### The looper's own pushes -/

/-- An attempt to push a message, as it ended. -/
inductive Event.IsPush (task : TaskId) (origin : Origin) (m : Message) : Event ν → Prop
  | accepted : IsPush task origin m (.accepted task origin m)
  | refused {e : LooperError} : IsPush task origin m (.refused task origin m e)

/-- The looper itself pushes failed messages only as a timer: the copy, once, after it has fired. -/
theorem History.own_of_isPush {past : History ν} {now : ℕ} {task : TaskId} {origin : Origin}
    {m : Message} {e : Event ν} (lawful : Lawful past now e) (push : e.IsPush task origin m) :
    (∀ action generation, origin = .tricker action generation → ∃ timer ∈ armed past,
      timer.task = task ∧ timer.origin = origin ∧ m = timer.copy ∧
        deeds task past = [timer.firing]) ∧
      (∀ m₀, origin = .report m₀ → m.state = .error) ∧
      (origin = .stopRequest → m.state = .probe) := by
  have may : MayPush past task m origin := by
    cases push with
    | accepted => exact lawful.2
    | refused => exact lawful.2
  refine ⟨fun action generation same => ?_, fun m₀ same => ?_, fun same => ?_⟩ <;> subst same
  · obtain ⟨timer, known, rfl, same, copy, did⟩ := may
    obtain ⟨rfl, rfl⟩ := Origin.tricker.inj same
    exact ⟨timer, known, rfl, rfl, copy, did⟩
  · obtain ⟨failure, own, -, -, -, -, error, -⟩ := may
    exact error
  · exact may.2

/-- Whatever callers and handlers do, and however they take turns, under a virtual clock:

* an action has at most one timer, which was armed for it, and a task for this timer;
* a message that is handed to a handler arms the timer of its action if and only if it is a probe,
  its handler has a deadline and no timer runs; the timer is due when this deadline has passed, in
  whole milliseconds and after thirty years at the latest; a success stops the timer that runs if
  its handler has a deadline;
* a timer that was armed runs, with a task that will ring in time and fires it within two acts once
  it is due; or it has fired once, just when it was due; or it has not fired, and before it was due
  came a success for whose handler there was a deadline, the removal of the handler or the end;
* a timer that fires leaves its slot to the next probe, and its task pushes the copy once; the
  removal of a handler leaves no timer for its action;
* the copy is the probe that armed the timer, in state failed, and goes into the mailbox with one
  more visit; the looper itself pushes no other failed message. -/
theorem Moment.escalated_of_run (moves : List (Move ν)) (capacity : ℕ) :
    let q := run .virtual moves (start capacity)
    q.Slots ∧
      (∀ later past t m task program change,
        q.history = later ++ (t, .taken m (.handed task program change)) :: past →
          ∃ handler, handler? m.action past = some handler ∧ program = handler.body m ∧
            ((∃ timer, change = .armed timer) ↔
              m.state = .probe ∧ handler.deadline ≠ .zero ∧ timer? m.action past = none) ∧
            ((∃ generation, change = .disarmed generation) ↔
              m.state = .succeed ∧ handler.deadline ≠ .zero ∧ timer? m.action past ≠ none) ∧
            ∀ timer, change = .armed timer →
              timer.probe = m ∧ timer.due = t + handler.deadline.sleepMillis ∧
                Course timer q.history later ∧
                (timer? m.action q.history = some timer → q.Waits timer ∧
                  (q.current = some timer.task → timer.due ≤ q.machine.now →
                    (timer.due, timer.firing) ∈ (run .virtual [.act, .act] q).history)) ∧
                ((timer.due, timer.firing) ∈ later → q.Escalates timer)) ∧
      (∀ later past t task action generation,
        q.history = later ++ (t, .fired task action generation) :: past →
          ∃ timer, timer? action past = some timer ∧ timer.slot = ⟨generation, task⟩ ∧
            t = timer.due ∧ timer? action ((t, .fired task action generation) :: past) = none) ∧
      (∀ later past t a change, q.history = later ++ (t, .removed a change) :: past →
        timer? a ((t, .removed a change) :: past) = none) ∧
      (∀ timer : Timer, timer.copy = { timer.probe with state := .failed } ∧
        pushed timer.copy = { timer.copy with visits := (pushed timer.copy).visits } ∧
        (pushed timer.copy).visits.toNat = min (timer.probe.visits.toNat + 1) (2 ^ 32 - 1)) ∧
      taken q.history <+: (accepted q.history).map pushed ∧
      ∀ later past t task origin m e, q.history = later ++ (t, e) :: past →
        e.IsPush task origin m →
          (∀ action generation, origin = .tricker action generation → ∃ timer ∈ armed past,
            timer.task = task ∧ timer.origin = origin ∧ m = timer.copy ∧
              deeds task past = [timer.firing]) ∧
            (∀ m₀, origin = .report m₀ → m.state = .error) ∧
            (origin = .stopRequest → m.state = .probe) := by
  intro q
  have sound : q.Sound := sound_run .virtual moves capacity
  have prompt : q.Prompt := prompt_run moves capacity
  have chronicle : Chronicle q.history := chronicle_run .virtual moves capacity
  refine ⟨sound.slots, ?_, ?_, ?_, fun timer => ⟨rfl, (pushed_eq timer.copy).2 rfl⟩,
    sound.agrees.inOrder, ?_⟩
  · intro later past t m task program change split
    obtain ⟨-, -, decides⟩ := (split ▸ chronicle).lawful
    cases decides with
    | @handed handler _ _ goes known new times fresh =>
        refine ⟨handler, known, rfl, times.armed_iff, times.disarmed_iff, ?_⟩
        rintro timer rfl
        obtain ⟨-, -, -, rfl, due⟩ := times.of_armed rfl
        have armed : timer ∈ armed q.history := by
          rw [split]
          exact mem_armed_append later List.mem_cons_self
        have ends : Course timer q.history later := by
          rw [split]
          exact course later (split ▸ chronicle) (split ▸ prompt.onTime) (if_pos rfl)
        refine ⟨rfl, due, ends, fun runs => ⟨sound.waits prompt runs, fun turn late => ?_⟩,
          fun fired => ?_⟩
        · have fires := sound.fires_of_due runs turn late .virtual
          rwa [le_antisymm (prompt.inTime _ timer runs) late] at fires
        · refine sound.escalates (t := timer.due) armed ?_
          rw [split]
          exact List.mem_append_left _ fired
  · intro later past t task action generation split
    obtain ⟨timer, runs, rfl, rfl, due, -⟩ := (split ▸ chronicle).lawful
    have inTime := (split ▸ prompt.onTime).inTime action timer runs
    exact ⟨timer, runs, rfl, le_antisymm inTime due, if_pos rfl⟩
  · intro later past t a change split
    obtain rfl : change = .stopping (timer? a past) := (split ▸ chronicle).lawful
    rw [timer?, if_pos rfl, TimerChange.after_stopping]
  · intro later past t task origin m e split push
    exact own_of_isPush (split ▸ chronicle).lawful push

/-- A deadline of a millisecond more than thirty years: the timer fires a millisecond before it has
passed. -/
theorem Moment.fired_before_deadline :
    let deadline : Duration := .ofMillis 946080000001
    let probe := Message.new .join .probe 7
    let handler : Handler Unit := ⟨deadline, fun _ => .done (.ok ())⟩
    let caller : Program Unit :=
      .addHandler .join deadline handler.body (.push probe none fun _ => .done (.ok ()))
    let moves : List (Move Unit) :=
      [.call .serving, .call caller, .turn 1, .act, .act, .act, .turn 0, .act, .act, .act,
        .turn 2, .act, .turn 3, .act, .pass 0, .turn 2, .act, .act]
    let timer : Timer := ⟨probe, 1, 946080000000, 2⟩
    (run .virtual moves (start 4)).history =
        [(946080000000, timer.firing),
          (0, .taken probe (.handed 3 (handler.body probe) (.armed timer))),
          (0, .accepted 1 .caller probe), (0, .registered .join handler)] ∧
      946080000000 * 1000000 < 0 * 1000000 + handler.deadline.nanos := by
  intro deadline probe handler caller moves timer
  exact ⟨by cbv, by decide⟩

end TreeCluster.Looper
