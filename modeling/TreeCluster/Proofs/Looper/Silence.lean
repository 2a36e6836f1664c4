import TreeCluster.Proofs.Looper.Moments

/-! # A stopped looper is silent

When the event loop has returned, no timer is left, nothing more is accepted or taken, and every
call is refused, whatever is still going on (`Moment.silent_of_run`). -/

namespace TreeCluster.Looper

open History

variable {ν : Type}

namespace History

theorem timer?_of_stopped {h : History ν} (chronicle : Chronicle h) (stopped : Stopped h)
    (a : Action) : timer? a h = none := by
  induction h with
  | nil => rfl
  | cons x past ih =>
      obtain ⟨lawful, chronicle⟩ := chronicle
      obtain ⟨now, e⟩ := x
      rcases stopped_cons.mp stopped with rfl | before
      · rfl
      have none := ih chronicle before
      cases e with
      | removed b change =>
          obtain rfl : change = .stopping (timer? b past) := lawful
          by_cases same : b = a
          · subst same
            simp [timer?, none, TimerChange.stopping, TimerChange.after]
          · simp [timer?, same, none]
      | taken m fate => exact absurd before.over lawful.1
      | fired task b generation => simp [timer?, none]
      | stopped => rfl
      | _ => exact none

end History

/-- What may still happen to a looper that has stopped. -/
def Event.Silent : Event ν → Prop
  | .accepted _ _ _ => False
  | .refused _ _ _ e => e = .closed
  | .taken _ _ => False
  | .fired _ _ _ => False
  | _ => True

/-- How a task goes on that calls a stopped looper, or waited for it. -/
inductive Rebuffed : Activity ν → Program ν → Prop
  | push {m : Message} {patience : Option ℕ} {next : Option Outcome → Program ν} :
      Rebuffed (.active (.push m patience next)) (next (some (.error .closed)))
  | waited {m : Message} {limit : Option ℕ} {next : Option Outcome → Program ν} :
      Rebuffed (.pushing m limit next) (next (some (.error .closed)))
  | tryPush {m : Message} {next : Outcome → Program ν} :
      Rebuffed (.active (.tryPush m next)) (next (.error .closed))
  | zeroPeriod {tick : ℕ → Option Message} {next : Outcome → Program ν} :
      Rebuffed (.active (.setInterval 0 tick next)) (next (.error .zeroPeriod))
  | setInterval {period : ℕ} {tick : ℕ → Option Message} {next : Outcome → Program ν} :
      period ≠ 0 → Rebuffed (.active (.setInterval period tick next)) (next (.error .closed))
  | serve {patience : Option ℕ} {next : Option Outcome → Program ν} :
      Rebuffed (.active (.serve patience next)) (next (some (.error .alreadyRunning)))

/-- A call on a closed looper changes no task but the one that called. -/
theorem Rebuffed.step {s : Machine ν} {task : TaskId} {origin : Origin} {activity : Activity ν}
    {next : Program ν} (rebuffed : Rebuffed activity next)
    (found : s.tasks.get? task = some ⟨origin, activity⟩) (closed : s.looper.closed = true)
    (shut : s.looper.mailbox.closed = true) (served : s.looper.server.isSome = true) :
    ∃ s' : Machine ν, s'.tasks = s.tasks ∧ s.step task = s'.goOn task next := by
  cases rebuffed with
  | @push m =>
      refine ⟨s.record (.refused task origin m .closed), rfl, ?_⟩
      simp [Machine.step, found, Machine.act, Machine.push, closed, Machine.refuse]
  | @waited m =>
      refine ⟨s.record (.refused task origin m .closed), rfl, ?_⟩
      simp [Machine.step, found, Machine.pushAgain, shut, Machine.refuse]
  | @tryPush m =>
      refine ⟨s.record (.refused task origin m .closed), rfl, ?_⟩
      simp [Machine.step, found, Machine.act, Machine.tryPush, closed]
  | zeroPeriod => exact ⟨s, rfl, by simp [Machine.step, found, Machine.act, Machine.setInterval]⟩
  | setInterval some =>
      exact ⟨s, rfl, by simp [Machine.step, found, Machine.act, Machine.setInterval, closed, some]⟩
  | serve =>
      obtain ⟨other, server⟩ := Option.isSome_iff_exists.mp served
      exact ⟨s, rfl, by simp [Machine.step, found, Machine.act, server]⟩

theorem Machine.turn_stopped (s : Machine ν) (ends : s.turn.2 = .stopped) :
    Stopped s.turn.1.journal := by
  have stops : ∀ s : Machine ν, Stopped s.stop.journal := fun s =>
    ⟨s.now, by rw [s.journal_stop.1]; exact List.mem_cons_self⟩
  unfold Machine.turn at *
  split
  · exact stops s
  · rename_i opened
    rw [if_neg opened] at ends
    split
    · rename_i empty
      rw [empty] at ends
      cases ends
    · rename_i m mailbox next front
      rw [front] at ends
      dsimp only at ends ⊢
      split
      · exact stops _
      · rename_i goesOn
        rw [if_neg goesOn] at ends
        cases ends

namespace Moment

/-- The event loop is about to return from serving. -/
def Returns (q : Moment ν) (task : TaskId) (next : Option Outcome → Program ν) : Prop :=
  q.current = some task ∧ q.machine.turn.2 = .stopped ∧
    ∃ origin limit, q.machine.tasks.get? task = some ⟨origin, .serving limit next⟩

/-- A looper without timers that refuses everything. -/
structure Hushed (clock : Clock) (q : Moment ν) : Prop where
  trickers : q.machine.looper.trickers.entries = []
  intervals : q.machine.looper.intervals = []
  /-- No task is left that ticks. -/
  noTicks : ∀ task t, q.machine.tasks.get? task = some t → t.origin ≠ .interval
  /-- A timer that is left has fired before. -/
  fired : ∀ task t action generation, q.machine.tasks.get? task = some t →
    t.origin = .tricker action generation → ∃ now, (now, .fired task action generation) ∈ q.history
  /-- Who waited for a place is in line to learn that there is none. -/
  woken : ∀ task origin m limit next,
    q.machine.tasks.get? task = some ⟨origin, .pushing m limit next⟩ →
      q.current = some task ∨ task ∈ q.machine.ready
  answers : ∀ task origin activity next, q.current = some task →
    q.machine.tasks.get? task = some ⟨origin, activity⟩ → Rebuffed activity next →
      (q.apply clock .act).machine.tasks.get? task = some ⟨origin, .active next⟩ ∧
        (q.apply clock .act).current = some task

theorem hushed_of_stopped {q : Moment ν} (sound : q.Sound) (stopped : Stopped q.history)
    (clock : Clock) : Hushed clock q where
  trickers := by
    rw [List.eq_nil_iff_forall_not_mem]
    intro e inside
    have slot := Table.get?_of_mem_entries sound.agrees.single inside
    rw [sound.agrees.timers, timer?_of_stopped sound.kept.chronicle stopped] at slot
    cases slot
  intervals := (sound.agrees.stopped stopped).2.1
  noTicks task t found := by
    obtain ⟨origin, activity⟩ := t
    rintro rfl
    obtain ⟨inside, -⟩ := sound.fits task _ found
    rw [(sound.agrees.stopped stopped).2.1] at inside
    cases inside
  fired task t action generation found tricker := by
    obtain ⟨origin, activity⟩ := t
    obtain rfl : origin = .tricker action generation := tricker
    obtain ⟨timer, -, rfl, origin, ringing, runs⟩ := sound.fits task _ found
    obtain ⟨rfl, rfl⟩ := Origin.tricker.inj origin
    have begun : deeds timer.task q.machine.journal ≠ [] := fun idle => by
      have running := runs idle
      rw [timer?_of_stopped sound.kept.chronicle stopped] at running
      cases running
    have rang : timer.firing ∈ deeds timer.task q.machine.journal := by
      generalize deeds timer.task q.machine.journal = own at ringing begun ⊢
      cases ringing with
      | ends => exact .tail _ (.head _)
      | escalates => exact .head _
      | waits => exact .head _
      | _ => exact absurd rfl begun
    exact mem_deeds rang
  woken task origin m limit next found := by
    obtain ⟨-, awaited⟩ := sound.heeded task _ found
    obtain ⟨-, nobody⟩ := sound.agrees.shut (sound.agrees.stopped stopped).1
    rcases awaited with turn | inLine | waiting
    · exact .inl turn
    · exact .inr inLine
    · change task ∈ q.machine.looper.mailbox.waiting at waiting
      rw [nobody] at waiting
      cases waiting
  answers task origin activity next turn found rebuffed := by
    obtain ⟨s, current⟩ := q
    obtain rfl : current = some task := turn
    have closed : s.looper.closed = true := sound.agrees.closed.mpr stopped.over
    obtain ⟨shut, -, served⟩ := sound.agrees.stopped stopped
    -- Each refusal lets the task go on, and leaves the tasks as they are.
    have answered : ∀ s' : Machine ν, s'.tasks = s.tasks → s.step task = s'.goOn task next →
        (apply clock ⟨s, some task⟩ .act).machine.tasks.get? task = some ⟨origin, .active next⟩ ∧
          (apply clock ⟨s, some task⟩ .act).current = some task := fun s' same steps => by
      rw [act_of_goOn clock steps, Machine.resume_eq]
      exact ⟨by simp [Table.get?_adjust, same, found], rfl⟩
    obtain ⟨s', same, steps⟩ := rebuffed.step found closed shut served
    exact answered s' same steps

theorem silent_of_chronicle {h : History ν} (stopped : Stopped h) {events : History ν}
    (chronicle : Chronicle (events ++ h)) : ∀ e ∈ events, e.2.Silent := by
  rintro ⟨now, e⟩ inside
  obtain ⟨later, past, rfl⟩ := List.append_of_mem inside
  rw [List.append_assoc] at chronicle
  have lawful : Lawful (past ++ h) now e := chronicle.lawful
  have ended : Stopped (past ++ h) := stopped.imp fun _ => List.mem_append_right _
  cases e with
  | accepted => exact lawful.1 ended
  | refused => exact lawful.1 ended
  | taken => exact lawful.1 ended.over
  | fired =>
      obtain ⟨timer, runs, -⟩ := lawful
      have known : Chronicle (past ++ h) := chronicle.before.2
      rw [timer?_of_stopped known ended] at runs
      cases runs
  | _ => trivial

theorem Returns.stopped {q : Moment ν} {task : TaskId} {next : Option Outcome → Program ν}
    (returns : q.Returns task next) (sound : q.Sound) (clock : Clock) :
    Stopped (q.apply clock .act).history ∧ ∃ origin,
      (q.apply clock .act).machine.tasks.get? task =
        some ⟨origin, .active (next (some (.ok ())))⟩ := by
  obtain ⟨s, current⟩ := q
  obtain ⟨rfl, ends, origin, limit, found⟩ := returns
  have free := Looper.Sound.free_of_serving sound found
  have served : s.looper.server.isSome = true :=
    (sound.heeded task _ found).arranged
  have turned := free.turn served
  have stopped := s.turn_stopped ends
  cases turn : s.turn with
  | mk s' r =>
      rw [turn] at ends turned stopped
      obtain rfl : r = .stopped := ends
      have free' : Free s' task origin := turned
      have steps : s.step task = s'.goOn task (next (some (.ok ()))) := by
        simp [Machine.step, found, Machine.serve, turn]
      rw [act_of_goOn clock steps, Machine.resume_eq]
      obtain ⟨t, known, rfl⟩ := Option.map_eq_some_iff.mp free'.works
      exact ⟨stopped, t.origin, by simp [Table.get?_adjust, known]⟩

end Moment

/-- Once the event loop has returned, it has told so to the task that served it, and in every later
moment, whatever callers and handlers do: no timer and no interval is left, everybody who waited
for a place is in line to be refused, and every call is; nothing was accepted or taken and no timer
has fired since. -/
theorem Moment.silent_of_run (clock : Clock) (moves more : List (Move ν)) (capacity : ℕ)
    {task : TaskId} {next : Option Outcome → Program ν}
    (returns : (run clock moves (start capacity)).Returns task next) :
    (∃ origin, (run clock (moves ++ [.act]) (start capacity)).machine.tasks.get? task =
        some ⟨origin, .active (next (some (.ok ())))⟩) ∧
      Hushed clock (run clock (moves ++ .act :: more) (start capacity)) ∧
      ∃ events, (run clock (moves ++ .act :: more) (start capacity)).history =
          events ++ (run clock (moves ++ [.act]) (start capacity)).history ∧
        ∀ e ∈ events, e.2.Silent := by
  have later : run clock (moves ++ .act :: more) (start capacity) =
      run clock more (run clock (moves ++ [.act]) (start capacity)) := by
    rw [← run_append, List.append_assoc]
    rfl
  obtain ⟨stopped, answered⟩ := returns.stopped (sound_run clock moves capacity) clock
  rw [← run_concat] at stopped answered
  have sound := sound_run clock (moves ++ .act :: more) capacity
  rw [later] at sound ⊢
  obtain ⟨events, grows⟩ :=
    journal_run (run clock (moves ++ [.act]) (start capacity)) clock more
  refine ⟨answered, hushed_of_stopped sound ?_ clock, events, grows, ?_⟩
  · rw [grows]
    exact stopped.imp fun _ => List.mem_append_right _
  · refine silent_of_chronicle stopped ?_
    rw [← grows]
    exact sound.kept.chronicle

/-- The loop ends while a timer runs and a message waits in the mailbox. -/
theorem Moment.silent_of_run_of_term :
    let probe := Message.new .join .probe 7
    let caller : Program Unit :=
      .addHandler .join (.ofMillis 20) (fun _ => .done (.ok ()))
        (.push probe none fun _ => .push probe none fun _ => .term (.done (.ok ())))
    let answer : Option Outcome → Program Unit := fun
      | some result => .done result
      | none => .done (.ok ())
    let moves : List (Move Unit) :=
      [.call .serving, .call caller, .turn 1, .act, .act, .yield, .turn 0, .act, .act, .yield,
        .turn 1, .act, .act, .act, .turn 0]
    (run .virtual moves (start 4)).Returns 0 answer ∧
      (run .virtual moves (start 4)).machine.looper.trickers.keys = [.join] ∧
      Hushed .virtual (run .virtual (moves ++ [.act, .pass 0]) (start 4)) := by
  intro probe caller answer moves
  have returns : (run .virtual moves (start 4)).Returns 0 answer :=
    ⟨by cbv, by cbv, .caller, none, by cbv⟩
  exact ⟨returns, by cbv, (silent_of_run .virtual moves [.pass 0] 4 returns).2.1⟩

end TreeCluster.Looper
