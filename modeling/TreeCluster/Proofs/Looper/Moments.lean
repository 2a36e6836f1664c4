import TreeCluster.Proofs.Looper.Growth
import TreeCluster.Proofs.Looper.Steps

/-! # Runs of a looper

A moment of a run is a machine and the task whose turn it is.  What can happen next is a `Move`: a
caller comes with a program, a task gets its turn, acts, or gives up its turn where it could have
to wait, and time passes.  Any list of moves is a run; a move that is not possible does nothing.
So a run is any interleaving of any callers and handlers at the points where they may wait.
What `Machine.run` does is one such run (`Machine.run_eq`).

Time passes as the clock says.  A virtual clock stands still as long as anybody can act, and then
goes straight to the next timer; a real one may go on at any time.

Every moment of every run is in order (`Moment.sound_run`), and its journal goes on from the one
before (`Moment.journal_run`). -/

namespace TreeCluster.Looper

open History

variable {ν : Type}

/-- How time passes. -/
inductive Clock where
  | virtual
  | real

/-- A machine, and the task whose turn it is. -/
structure Moment (ν : Type) where
  machine : Machine ν
  current : Option TaskId

/-- What can happen next. -/
inductive Move (ν : Type) where
  /-- Somebody comes with a program. -/
  | call (program : Program ν)
  /-- A task that stands in line gets its turn. -/
  | turn (task : TaskId)
  | act
  /-- The task goes to the end of the line where it could have to wait. -/
  | yield
  | pass (millis : ℕ)

namespace Moment

/-- Nobody has come yet. -/
def start (capacity : ℕ) : Moment ν :=
  ⟨.new capacity, none⟩

/-- The moment after a move. -/
def apply (clock : Clock) (q : Moment ν) : Move ν → Moment ν
  | .call program => { q with machine := (q.machine.spawn .caller program).1 }
  | .turn task =>
    if q.current = none ∧ task ∈ q.machine.ready then
      ⟨{ q.machine with ready := q.machine.ready.erase task }, some task⟩
    else q
  | .act =>
    match q.current with
    | none => q
    | some task =>
      let (machine, goesOn) := q.machine.step task
      ⟨machine, if goesOn then some task else none⟩
  | .yield =>
    match q.current with
    | none => q
    | some task => if q.machine.mayWait task then ⟨q.machine.wake task, none⟩ else q
  | .pass millis =>
    match clock with
    | .real => { q with machine := q.machine.elapse (q.machine.now + millis) }
    | .virtual =>
      if q.current = none ∧ q.machine.ready = [] then
        { q with machine := q.machine.advance?.getD q.machine }
      else q

/-- The moment after some moves. -/
def run (clock : Clock) (moves : List (Move ν)) (q : Moment ν) : Moment ν :=
  moves.foldl (apply clock) q

/-- What has happened to the looper. -/
def history (q : Moment ν) : History ν :=
  q.machine.journal

end Moment

/-! ### What a machine does by itself -/

theorem Machine.mem_of_next? {s s' : Machine ν} {delay : ℕ} {task : TaskId}
    (next : s.next? delay = some (task, s')) :
    task ∈ s.ready ∧ s' = { s with ready := s.ready.erase task } := by
  obtain ⟨other, chosen, same⟩ := Option.map_eq_some_iff.mp next
  cases same
  refine ⟨?_, rfl⟩
  rcases Option.or_eq_some_iff.mp chosen with first | ⟨-, head⟩
  · split at first
    · rename_i late
      cases first
      simpa using late.2
    · exact List.mem_of_mem_filter (List.mem_of_head? first)
  · exact List.mem_of_head? head

theorem Machine.ready_eq_nil {s : Machine ν} {delay : ℕ} (nobody : s.next? delay = none) :
    s.ready = [] := by
  have none := Option.or_eq_none_iff.mp (Option.map_eq_none_iff.mp nobody)
  simpa using none.2

/-- A machine that runs by itself makes moves under a virtual clock. -/
theorem Machine.run_eq (fuel : ℕ) (current : Option (TaskId × ℕ)) (delay : ℕ) (s : Machine ν) :
    ∃ moves : List (Move ν),
      (Moment.run .virtual moves ⟨s, current.map Prod.fst⟩).machine = s.run fuel current delay := by
  -- One move leads to where the machine goes on.
  have along : ∀ (move : Move ν) (q q' : Moment ν) (s' : Machine ν),
      Moment.apply .virtual q move = q' →
      (∃ moves, (Moment.run .virtual moves q').machine = s') →
      ∃ moves, (Moment.run .virtual moves q).machine = s' := by
    rintro move q q' s' rfl ⟨moves, rest⟩
    exact ⟨move :: moves, rest⟩
  induction fuel generalizing current delay s with
  | zero => exact ⟨[], rfl⟩
  | succ fuel ih =>
      cases current with
      | some turn =>
          obtain ⟨task, left⟩ := turn
          unfold Machine.run
          dsimp only
          split
          · rename_i tired
            have waits : s.mayWait task = true := by
              simp only [Bool.and_eq_true] at tired
              exact tired.1
            exact along .yield _ ⟨s.wake task, none⟩ _ (by simp [Moment.apply, waits])
              (ih none delay (s.wake task))
          · cases stepped : s.step task with
            | mk s' goesOn =>
                refine along .act _ ⟨s', if goesOn then some task else none⟩ _
                  (by simp [Moment.apply, stepped]) ?_
                cases goesOn with
                | false => exact ih none delay s'
                | true => exact ih (some (task, _)) delay s'
      | none =>
          unfold Machine.run
          split
          · exact ⟨[], rfl⟩
          cases next : s.next? delay with
          | some chosen =>
              obtain ⟨task, s'⟩ := chosen
              obtain ⟨inLine, rfl⟩ := Machine.mem_of_next? next
              exact along (.turn task) _ ⟨{ s with ready := s.ready.erase task }, some task⟩ _
                (by simp [Moment.apply, inLine]) (ih (some (task, turnLength)) _ _)
          | none =>
              have nobody := Machine.ready_eq_nil next
              cases later : s.advance? with
              | none => exact ⟨[], rfl⟩
              | some s' =>
                  exact along (.pass 0) _ ⟨s', none⟩ _ (by simp [Moment.apply, nobody, later])
                    (ih none 0 s')

/-! ### Every moment is in order -/

theorem Sound.of_spares {s s' : Machine ν} {current : Option TaskId} (sound : Sound s current)
    (spares : Spares none s s') (agrees : Agrees s'.looper s'.journal) (kept : Kept s')
    (new : ∀ task t, s.fresh ≤ task → task < s'.fresh → s'.tasks.get? task = some t →
      Fits s' task t.activity t.origin ∧ Heeded s' current task t.activity) : Sound s' current := by
  have parts : ∀ task t, s'.tasks.get? task = some t →
      Fits s' task t.activity t.origin ∧ Heeded s' current task t.activity := by
    intro task t found
    by_cases old : task < s.fresh
    · have spared := spares.others task t nofun old found
      exact ⟨spared.fits spares (sound.fits task t spared.was),
        spared.heeded spares id (sound.heeded task t spared.was)⟩
    · have exist : s'.origin? task = some t.origin := by simp [Machine.origin?, found]
      exact new task t (not_lt.mp old) (kept.lt_fresh exist) found
  exact ⟨agrees, kept, fun task t found => (parts task t found).1,
    fun task t found => (parts task t found).2⟩

theorem Sound.call {s : Machine ν} {current : Option TaskId} (sound : Sound s current)
    (program : Program ν) : Sound (s.spawn .caller program).1 current := by
  have kept : Kept (s.spawn .caller program).1 :=
    sound.kept.spawn s.looper program fun _ => .inl
  refine sound.of_spares (.spawn .caller program) sound.agrees kept fun task t old new found => ?_
  obtain rfl : task = s.fresh := le_antisymm (Nat.le_of_lt_succ new) old
  obtain rfl : ⟨.caller, .active program⟩ = t := by simpa [Machine.spawn] using found
  exact ⟨trivial, trivial, .inr (.inl (by simp [Machine.spawn]))⟩

theorem Sound.turn {s : Machine ν} (sound : Sound s none) (task : TaskId) :
    Sound { s with ready := s.ready.erase task } (some task) := by
  refine ⟨sound.agrees, sound.kept.congr rfl rfl (fun _ => rfl) rfl rfl, sound.fits,
    fun other t found => ?_⟩
  obtain ⟨arranged, awaited⟩ := sound.heeded other t found
  refine ⟨arranged, ?_⟩
  by_cases same : other = task
  · exact .inl (same ▸ rfl)
  · rcases awaited with now | inLine | parked
    · cases now
    · exact .inr (.inl ((List.mem_erase_of_ne same).mpr inLine))
    · exact .inr (.inr parked)

theorem Sound.yield {s : Machine ν} {task : TaskId} (sound : Sound s (some task)) :
    Sound (s.wake task) none := by
  have woken : s.wakeAll [task] = s.wake task := rfl
  have same : s.wake task = { s with ready := s.roused [task] } := s.wake_eq task
  have still : Sound (s.wakeAll [task]) (some task) := by
    refine sound.of_spares (.wakeAll [task]) ?_ ?_ fun other t old new found => ?_
    all_goals rw [woken, same] at *
    · exact sound.agrees
    · exact sound.kept.congr rfl rfl (fun _ => rfl) rfl rfl
    · exact absurd new (not_lt.mpr old)
  rw [woken] at still
  refine ⟨still.agrees, still.kept, still.fits, fun other t found => ?_⟩
  obtain ⟨arranged, awaited⟩ := still.heeded other t found
  refine ⟨arranged, awaited.elim (fun now => .inr (.inl ?_)) .inr⟩
  obtain rfl := Option.some.inj now
  rw [same] at found ⊢
  exact (Machine.mem_roused s).mpr (.inr ⟨List.mem_singleton_self _,
    (Table.contains_eq_true_iff ..).mpr ⟨t, found⟩⟩)

theorem Sound.elapse {s : Machine ν} {current : Option TaskId} (sound : Sound s current)
    {now : ℕ} (later : s.now ≤ now) : Sound (s.elapse now) current := by
  have spares : Spares none s (s.elapse now) := by
    rw [s.elapse_eq]
    refine ⟨later, le_rfl, fun _ => id, fun _ => id, id, fun task t _ _ found => ?_⟩
    refine ⟨found, rfl, fun _ _ runs _ => runs, id, fun inLine => ?_, fun due set => ?_, .inl, id⟩
    · exact (Machine.mem_roused s).mpr (.inl inLine)
    · by_cases rings : due ≤ now
      · refine .inr ⟨rings, (Machine.mem_roused s).mpr (.inr ⟨?_, ?_⟩)⟩
        · exact List.mem_map.mpr ⟨(due, task), List.mem_filter.mpr ⟨set, by simpa using rings⟩, rfl⟩
        · exact (Table.contains_eq_true_iff ..).mpr ⟨t, found⟩
      · exact .inl (List.mem_filter.mpr ⟨set, by simpa using rings⟩)
  rw [s.elapse_eq] at spares ⊢
  exact sound.of_spares spares sound.agrees
    (sound.kept.congr rfl rfl (fun _ => rfl) rfl rfl)
    fun _ _ old new => absurd new (not_lt.mpr old)

namespace Moment

/-- A moment in order. -/
def Sound (q : Moment ν) : Prop :=
  Looper.Sound q.machine q.current

theorem sound_start (capacity : ℕ) : (start capacity : Moment ν).Sound := by
  have agrees : Agrees (Looper.new capacity : Looper ν) [] :=
    ⟨fun _ => rfl, fun _ => rfl, List.nodup_nil, by simp [Looper.new, Over],
      by simp [Stopped], fun _ => rfl, List.prefix_rfl, nofun⟩
  have kept : Kept (Machine.new capacity : Machine ν) :=
    ⟨trivial, fun _ _ => ⟨rfl, rfl, List.not_mem_nil, List.not_mem_nil⟩,
      fun a timer runs => by simp [Machine.new, timer?] at runs,
      fun _ => .of_none (by simp [Machine.new, deeds]), by simp [Machine.new, Looper.new], rfl⟩
  have none : ∀ task t, (Machine.new capacity : Machine ν).tasks.get? task ≠ some t := by
    simp [Machine.new]
  exact ⟨agrees, kept, fun task t found => absurd found (none task t),
    fun task t found => absurd found (none task t)⟩

theorem Sound.apply {q : Moment ν} (sound : q.Sound) (clock : Clock) (move : Move ν) :
    (q.apply clock move).Sound := by
  obtain ⟨s, current⟩ := q
  cases move with
  | call program => exact Looper.Sound.call sound program
  | turn task =>
      dsimp only [Moment.apply]
      split
      · rename_i free
        obtain rfl : current = none := free.1
        exact Looper.Sound.turn sound task
      · exact sound
  | act =>
      cases current with
      | none => exact sound
      | some task => exact Looper.Sound.step sound
  | yield =>
      cases current with
      | none => exact sound
      | some task =>
          dsimp only [Moment.apply]
          split
          · exact Looper.Sound.yield sound
          · exact sound
  | pass millis =>
      cases clock with
      | real => exact Looper.Sound.elapse sound (Nat.le_add_right _ _)
      | virtual =>
          dsimp only [Moment.apply]
          split
          · cases later : s.advance? with
            | none => exact sound
            | some s' =>
                obtain ⟨due, -, rfl⟩ := Option.map_eq_some_iff.mp later
                exact Looper.Sound.elapse sound (le_max_left _ _)
          · exact sound

/-- Every moment of every run is in order. -/
theorem sound_run (clock : Clock) (moves : List (Move ν)) (capacity : ℕ) :
    (run clock moves (start capacity)).Sound := by
  have along : ∀ (moves : List (Move ν)) (q : Moment ν), q.Sound → (run clock moves q).Sound := by
    intro moves
    induction moves with
    | nil => exact fun q sound => sound
    | cons move moves ih => exact fun q sound => ih _ (sound.apply clock move)
  exact along moves _ (sound_start capacity)

theorem chronicle_run (clock : Clock) (moves : List (Move ν)) (capacity : ℕ) :
    Chronicle (run clock moves (start capacity)).history :=
  (sound_run clock moves capacity).kept.chronicle

/-- A task that goes on after an act keeps its turn. -/
theorem act_of_goOn {s s' : Machine ν} {task : TaskId} {next : Program ν} (clock : Clock)
    (steps : s.step task = s'.goOn task next) :
    apply clock ⟨s, some task⟩ .act = ⟨s'.resume task next, some task⟩ := by
  simp [apply, steps, Machine.goOn]

theorem run_append (clock : Clock) (moves more : List (Move ν)) (q : Moment ν) :
    run clock (moves ++ more) q = run clock more (run clock moves q) :=
  List.foldl_append

theorem run_concat (clock : Clock) (moves : List (Move ν)) (move : Move ν) (q : Moment ν) :
    run clock (moves ++ [move]) q = (run clock moves q).apply clock move :=
  run_append clock moves [move] q

/-- Only acts write into the journal. -/
theorem history_apply (q : Moment ν) (clock : Clock) (move : Move ν) :
    (q.apply clock move).history = q.history ∨
      move = .act ∧ Advances q.machine (q.apply clock .act).machine := by
  obtain ⟨s, current⟩ := q
  cases move with
  | call program => exact .inl rfl
  | turn task =>
      refine .inl ?_
      dsimp only [Moment.apply]
      split <;> rfl
  | act =>
      cases current with
      | none => exact .inl rfl
      | some task => exact .inr ⟨rfl, .step task⟩
  | yield =>
      cases current with
      | none => exact .inl rfl
      | some task =>
          refine .inl ?_
          dsimp only [Moment.apply]
          rw [s.wake_eq]
          split <;> rfl
  | pass millis =>
      refine .inl ?_
      cases clock with
      | real => simp [Moment.apply, history, s.elapse_eq]
      | virtual =>
          dsimp only [Moment.apply]
          split
          · cases later : s.advance? with
            | none => rfl
            | some s' =>
                obtain ⟨due, -, rfl⟩ := Option.map_eq_some_iff.mp later
                simp [history, s.elapse_eq]
          · rfl

theorem journal_apply (q : Moment ν) (clock : Clock) (move : Move ν) :
    ∃ events, (q.apply clock move).history = events ++ q.history := by
  rcases q.history_apply clock move with same | ⟨rfl, advances⟩
  · exact ⟨[], same⟩
  · obtain ⟨-, events, journal, -⟩ := advances.journal
    exact ⟨events, journal⟩

theorem journal_run (q : Moment ν) (clock : Clock) (moves : List (Move ν)) :
    ∃ events, (run clock moves q).history = events ++ q.history := by
  induction moves generalizing q with
  | nil => exact ⟨[], rfl⟩
  | cons move moves ih =>
      obtain ⟨first, started⟩ := q.journal_apply clock move
      obtain ⟨later, went⟩ := ih (q.apply clock move)
      exact ⟨later ++ first, by rw [List.append_assoc, ← started]; exact went⟩

end Moment

end TreeCluster.Looper
