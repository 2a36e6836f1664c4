import TreeCluster.Proofs.Looper.Escalation

/-! # A success stops the timer

When a success is handed to a handler with a deadline, the timer of its action is stopped and its
task ends; it never fires, and it never pushes its copy (`Moment.Quelled`).  It does not matter
which handler and which deadline there were when the timer was armed.

What counts is the handler that is there when the success comes.  If that one has no deadline, the
timer runs on as if there had been no success (`Moment.quelled_of_run`,
`Moment.fired_after_success`). -/

namespace TreeCluster.Looper

open History

variable {ν : Type}

namespace History

variable {h past : History ν} {now : ℕ} {e : Event ν} {a : Action} {timer : Timer}

theorem Times.of_succeed {m : Message} {deadline : Duration} {change : TimerChange}
    (times : Times past now m deadline change) (succeed : m.state = .succeed) :
    (deadline ≠ .zero → change = .stopping (timer? m.action past)) ∧
      (deadline = .zero → change = .kept) := by
  cases times with
  | untimed none => exact ⟨fun timed => absurd none timed, fun _ => rfl⟩
  | arms _ probe => simp [succeed] at probe
  | runs _ probe => simp [succeed] at probe
  | succeeds timed => exact ⟨fun _ => rfl, fun none => absurd none timed⟩
  | other _ no => exact absurd succeed no

/-- A timer that does not run any more never runs again and never fires. -/
theorem gone_append (later : History ν) (chronicle : Chronicle (later ++ h))
    (known : timer ∈ armed h) (idle : timer? timer.probe.action h ≠ some timer) :
    timer? timer.probe.action (later ++ h) ≠ some timer ∧ ∀ e ∈ later, e.2 ≠ timer.firing := by
  induction later with
  | nil => exact ⟨idle, by simp⟩
  | cons x later ih =>
      obtain ⟨lawful, chronicle⟩ := chronicle
      obtain ⟨idle, silent⟩ := ih chronicle
      obtain ⟨idle, other⟩ := gone_cons lawful chronicle (mem_armed_append later known) idle
      exact ⟨idle, List.forall_mem_cons.mpr ⟨other, silent⟩⟩

theorem mem_armed_of_fired (chronicle : Chronicle h) {t : ℕ} {task : TaskId} {generation : ℕ}
    (fired : (t, .fired task a generation) ∈ h) : task ∈ (armed h).map Timer.task := by
  induction h with
  | nil => cases fired
  | cons x past ih =>
      obtain ⟨lawful, chronicle⟩ := chronicle
      have before : task ∈ (armed past).map Timer.task := by
        rcases List.mem_cons.mp fired with rfl | before
        · obtain ⟨timer, runs, rfl, -⟩ := lawful
          exact List.mem_map_of_mem (armed_of_timer? chronicle runs).2
        · exact ih chronicle before
      obtain ⟨timer, known, rfl⟩ := List.mem_map.mp before
      exact List.mem_map_of_mem (mem_armed_cons known)

theorem silent_of_timer? (chronicle : Chronicle h)
    (runs : timer? timer.probe.action h = some timer) : ∀ e ∈ h, e.2 ≠ timer.firing := by
  induction h with
  | nil => simp
  | cons x past ih =>
      obtain ⟨now, e⟩ := x
      obtain ⟨lawful, chronicle⟩ := chronicle
      have first : e ≠ timer.firing := by
        rintro rfl
        rw [timer?_firing] at runs
        cases runs
      refine List.forall_mem_cons.mpr ⟨first, ?_⟩
      rcases timer?_cons lawful runs with ran | ⟨m, task, program, -, -, -, -, new⟩
      · exact ih chronicle ran
      · rintro ⟨t, _⟩ before rfl
        exact new (mem_armed_of_fired chronicle before)

end History

namespace Moment

/-- A timer has gone without having fired: no task works as it, and nothing was pushed as it. -/
structure Quelled (q : Moment ν) (timer : Timer) : Prop where
  idle : timer? timer.probe.action q.history ≠ some timer
  gone : ∀ activity, q.machine.tasks.get? timer.task ≠ some ⟨timer.origin, activity⟩
  silent : ∀ e ∈ q.history, e.2 ≠ timer.firing
  pushes : ∀ e ∈ q.history, ∀ m, ¬e.2.IsPush timer.task timer.origin m

/-- A timer that was armed, does not run and has not fired has been quelled. -/
theorem Sound.quelled {q : Moment ν} (sound : q.Sound) {timer : Timer}
    (known : timer ∈ armed q.history)
    (idle : timer? timer.probe.action q.history ≠ some timer)
    (silent : ∀ e ∈ q.history, e.2 ≠ timer.firing) : q.Quelled timer := by
  have chronicle : Chronicle q.history := sound.kept.chronicle
  have unfired : timer.firing ∉ deeds timer.task q.history := fun did => by
    obtain ⟨t, inside⟩ := mem_deeds did
    exact silent _ inside rfl
  refine ⟨idle, fun activity found => ?_, silent, ?_⟩
  · obtain ⟨other, known', same, -, ringing, runs⟩ := sound.fits timer.task _ found
    obtain rfl := timer_unique chronicle known' known same
    change Ringing q.machine.now other activity (deeds other.task q.history) at ringing
    change deeds other.task q.history = [] → _ at runs
    -- either it has done nothing and runs, or its first deed was to fire
    generalize deeds other.task q.history = own at ringing runs unfired
    cases ringing with
    | begun | asleep | rung => exact idle (runs rfl)
    | _ => simp at unfired
  · rintro ⟨t, e⟩ inside m push
    obtain ⟨later, past, split⟩ := List.append_of_mem inside
    obtain ⟨other, known', same, -, -, did⟩ :=
      (own_of_isPush (split ▸ chronicle).lawful push).1 _ _ rfl
    have known' : other ∈ armed q.history := by
      rw [split]
      exact mem_armed_append later (mem_armed_cons known')
    obtain rfl := timer_unique chronicle known' known same
    refine unfired ?_
    rw [split, deeds_append, deeds]
    split <;> simp [did]

/-- **A success stops the timer** in every run, whoever registers and removes handlers meanwhile: if
a success is handed to a handler with a deadline while the timer of its action runs, then this
timer has gone for good.  It has not fired, and does not fire or push its copy later; and the next
probe may arm the slot again.  If the handler has no deadline then, the success changes nothing:
the timer runs on, and under a virtual clock it takes its course. -/
theorem quelled_of_run (clock : Clock) (moves : List (Move ν)) (capacity : ℕ) :
    let q := run clock moves (start capacity)
    ∀ later past t m task program change timer,
      q.history = later ++ (t, .taken m (.handed task program change)) :: past →
        m.state = .succeed → timer? m.action past = some timer →
          ∃ handler, handler? m.action past = some handler ∧ program = handler.body m ∧
            (handler.deadline ≠ .zero →
              change = .disarmed timer.generation ∧ q.Quelled timer ∧
                timer? m.action ((t, .taken m (.handed task program change)) :: past) = none) ∧
            (handler.deadline = .zero →
              change = .kept ∧ (clock = .virtual → Course timer q.history later)) := by
  intro q later past t m task program change timer split succeed runs
  have sound : q.Sound := sound_run clock moves capacity
  have chronicle : Chronicle (later ++ (t, .taken m (.handed task program change)) :: past) :=
    split ▸ chronicle_run clock moves capacity
  obtain ⟨-, -, decides⟩ := chronicle.lawful
  have before : Chronicle past := chronicle.before.2
  obtain ⟨action, known⟩ := armed_of_timer? before runs
  cases decides with
  | @handed handler _ _ goes registered new times fresh =>
      obtain ⟨timed, untimed⟩ := times.of_succeed succeed
      refine ⟨handler, registered, rfl, fun some => ?_, fun none => ?_⟩
      · obtain rfl : change = .disarmed timer.generation := (timed some).trans (by rw [runs]; rfl)
        have idle : timer? m.action ((t, .taken m (.handed task (handler.body m)
            (.disarmed timer.generation))) :: past) = none := if_pos rfl
        have known : timer ∈ armed ((t, .taken m (.handed task (handler.body m)
            (.disarmed timer.generation))) :: past) := known
        obtain ⟨gone, silent⟩ :=
          gone_append later chronicle known (by rw [action, idle]; nofun)
        have quiet := silent_of_timer? before (action ▸ runs)
        refine ⟨rfl, sound.quelled ?_ ?_ ?_, idle⟩ <;> rw [split]
        · exact mem_armed_append later known
        · exact gone
        · simp only [List.forall_mem_append, List.forall_mem_cons]
          exact ⟨silent, nofun, quiet⟩
      · obtain rfl := untimed none
        refine ⟨rfl, ?_⟩
        rintro rfl
        have onTime : OnTime q.history := (prompt_run moves capacity).onTime
        have goesOn : timer? timer.probe.action ((t, .taken m (.handed task (handler.body m)
            .kept)) :: past) = timer := by
          rw [action, timer?, if_pos rfl]
          exact runs
        rw [split] at onTime ⊢
        exact course later chronicle onTime goesOn

/-- A probe arms a timer, its handler is replaced by one with a longer deadline, and a success is
handed to that one: the timer has gone, also when both deadlines are over. -/
theorem quelled_of_run_of_longer_deadline :
    let probe := Message.new .join .probe 7
    let success := Message.new .join .succeed 8
    let body : Message → Program Unit := fun _ => .done (.ok ())
    let register (millis : ℕ) (m : Message) : Program Unit :=
      .addHandler .join (.ofMillis millis) body (.push m none fun _ => .done (.ok ()))
    let moves : List (Move Unit) :=
      [.call .serving, .call (register 100 probe), .turn 1, .act, .act, .act, .turn 0, .act, .act,
        .act, .turn 2, .act, .turn 3, .act, .call (register 200 success), .turn 4, .act, .act, .act,
        .turn 0, .act, .act, .turn 5, .act, .pass 300]
    (run .real moves (start 4)).Quelled ⟨probe, 1, 100, 2⟩ := by
  intro probe success body register moves
  let timer : Timer := ⟨probe, 1, 100, 2⟩
  let past : History Unit :=
    [(0, .accepted 4 .caller success), (0, .registered .join ⟨.ofMillis 200, body⟩),
      (0, .taken probe (.handed 3 (body probe) (.armed timer))), (0, .accepted 1 .caller probe),
      (0, .registered .join ⟨.ofMillis 100, body⟩)]
  have history : (run .real moves (start 4)).history =
      [] ++ (0, .taken success (.handed 5 (body success) (.disarmed 1))) :: past := by cbv
  obtain ⟨handler, registered, -, timed, -⟩ :=
    quelled_of_run .real moves 4 [] past 0 success 5 _ _ timer history rfl rfl
  obtain rfl : (⟨.ofMillis 200, body⟩ : Handler Unit) = handler := Option.some.inj registered
  exact (timed (by decide)).2.1

/-- A probe arms a timer, its handler is replaced by one without a deadline, and a success is handed
to that one: the timer fires all the same, and its copy goes into the mailbox. -/
theorem fired_after_success :
    let probe := Message.new .join .probe 7
    let success := Message.new .join .succeed 8
    let body : Message → Program Unit := fun _ => .done (.ok ())
    let deadline : Duration := .ofMillis 100
    let first : Program Unit :=
      .addHandler .join deadline body (.push probe none fun _ => .done (.ok ()))
    let second : Program Unit :=
      .addHandler .join .zero body (.push success none fun _ => .done (.ok ()))
    let moves : List (Move Unit) :=
      [.call .serving, .call first, .turn 1, .act, .act, .act, .turn 0, .act, .act, .act,
        .turn 2, .act, .turn 3, .act, .call second, .turn 4, .act, .act, .act, .turn 0, .act, .act,
        .turn 5, .act, .pass 0, .turn 2, .act, .act, .act]
    let timer : Timer := ⟨probe, 1, 100, 2⟩
    (run .virtual moves (start 4)).history =
        [(100, .accepted 2 timer.origin timer.copy), (100, timer.firing),
          (0, .taken success (.handed 5 (body success) .kept)), (0, .accepted 4 .caller success),
          (0, .registered .join ⟨.zero, body⟩),
          (0, .taken probe (.handed 3 (body probe) (.armed timer))),
          (0, .accepted 1 .caller probe), (0, .registered .join ⟨deadline, body⟩)] ∧
      timer.copy.state = .failed := by
  intro probe success body deadline first second moves timer
  exact ⟨by cbv, rfl⟩

end Moment
end TreeCluster.Looper
