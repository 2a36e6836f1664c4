import TreeCluster.Proofs.Looper.Moments
import TreeCluster.Proofs.Looper.Timers

/-! # Feedback dies out

The looper puts messages into its own mailbox: a failed message when a timer fires, an error
message when a handler fails.  A timer needs a probe, and probes only come from others; an error
message needs a handler that failed on something else.  So a message from others makes for at most
four that are handed to handlers: the message, its failed copy, and an error message for each.

Every failure of a handler is answered once, in the mailbox or else with a line
(`Moment.fedBack_of_run`). -/

namespace TreeCluster.Looper

open History

variable {ν : Type}

/-! ### Who pushed -/

/-- The looper itself. -/
def Origin.isLooper : Origin → Bool
  | .report _ => true
  | .tricker _ _ => true
  | .stopRequest => true
  | _ => false

def Origin.isTimer : Origin → Bool
  | .tricker _ _ => true
  | _ => false

def Origin.isReport : Origin → Bool
  | .report _ => true
  | _ => false

def Origin.isHandler : Origin → Bool
  | .handler _ => true
  | _ => false

/-- Neither the looper nor a handler: a caller, or a timer that ticks. -/
def Origin.isOutside : Origin → Bool
  | .caller => true
  | .interval => true
  | _ => false

/-- A push that was accepted. -/
structure Push where
  task : TaskId
  origin : Origin
  message : Message

theorem state_pushed (m : Message) : (pushed m).state = m.state := by
  unfold pushed
  split <;> rfl

theorem action_pushed (m : Message) : (pushed m).action = m.action := by
  unfold pushed
  split <;> rfl

namespace History

/-- The pushes that were accepted, newest first. -/
def pushes : History ν → List Push
  | [] => []
  | (_, .accepted task origin m) :: past => ⟨task, origin, m⟩ :: pushes past
  | _ :: past => pushes past

variable {h : History ν}

theorem accepted_eq_pushes (h : History ν) :
    accepted h = ((pushes h).map Push.message).reverse := by
  induction h with
  | nil => rfl
  | cons x past ih =>
      obtain ⟨now, e⟩ := x
      cases e with
      | accepted => simp [accepted, pushes, ih]
      | _ => exact ih

theorem exists_of_mem_pushes {p : Push} (inside : p ∈ pushes h) :
    ∃ later past now, h = later ++ (now, .accepted p.task p.origin p.message) :: past := by
  induction h with
  | nil => cases inside
  | cons x past ih =>
      have before : p ∈ pushes past → ∃ later rest now,
          x :: past = later ++ (now, .accepted p.task p.origin p.message) :: rest := fun old => by
        obtain ⟨later, rest, now, rfl⟩ := ih old
        exact ⟨x :: later, rest, now, rfl⟩
      obtain ⟨now, e⟩ := x
      cases e with
      | accepted task origin m =>
          rcases List.mem_cons.mp inside with rfl | old
          · exact ⟨[], past, now, rfl⟩
          · exact before old
      | _ => exact before inside

/-- An accepted push is a deed of the task that pushed, and was allowed. -/
theorem deeds_of_mem_pushes (chronicle : Chronicle h) {p : Push} (inside : p ∈ pushes h) :
    ∃ later past, MayPush past p.task p.message p.origin ∧ deeds p.task h =
      later ++ .accepted p.task p.origin p.message :: deeds p.task past := by
  obtain ⟨later, past, now, rfl⟩ := exists_of_mem_pushes inside
  refine ⟨deeds p.task later, past, chronicle.lawful.2, ?_⟩
  rw [deeds_append, deeds]
  exact congrArg _ (if_pos rfl)

/-! ### What the looper pushes by itself -/

/-- What the looper pushes by itself is a request to stop, a failed message or an error message. -/
theorem kind_of_mem_pushes (chronicle : Chronicle h) {p : Push} (inside : p ∈ pushes h) :
    p.message.action = .terminate ∨ p.origin.isLooper = false ∨
      p.origin.isTimer = true ∧ p.message.state = .failed ∨
      p.origin.isReport = true ∧ p.message.state = .error := by
  obtain ⟨-, past, may, -⟩ := deeds_of_mem_pushes chronicle inside
  obtain ⟨task, origin, m⟩ := p
  cases origin with
  | tricker action generation =>
      obtain ⟨timer, -, -, -, copy, -⟩ := may
      exact .inr (.inr (.inl ⟨rfl, congrArg Message.state copy⟩))
  | report m₀ =>
      obtain ⟨failure, own, -, -, -, -, error, -⟩ := may
      exact .inr (.inr (.inr ⟨rfl, error⟩))
  | stopRequest => exact .inl may.1
  | _ => exact .inr (.inl rfl)

/-- If no task pushes twice in some way, then the tasks that push so are all different. -/
theorem nodup_of_once (p : Origin → Bool) (once : ∀ later past now task origin m,
      h = later ++ (now, .accepted task origin m) :: past → p origin = true →
        ∀ earlier ∈ pushes past, p earlier.origin = true → earlier.task ≠ task) :
    (((pushes h).filter (p ·.origin)).map Push.task).Nodup := by
  induction h with
  | nil => exact List.nodup_nil
  | cons x past ih =>
      have before := ih fun later rest now task origin m split =>
        once (x :: later) rest now task origin m (congrArg (List.cons x) split)
      obtain ⟨now, e⟩ := x
      cases e with
      | accepted task origin m =>
          by_cases counts : p origin = true
          · rw [pushes, List.filter_cons, if_pos counts]
            refine List.nodup_cons.mpr ⟨fun inside => ?_, before⟩
            obtain ⟨earlier, listed, same⟩ := List.mem_map.mp inside
            obtain ⟨listed, alike⟩ := List.mem_filter.mp listed
            exact once [] past now task origin m rfl counts earlier listed alike same
          · rwa [pushes, List.filter_cons, if_neg counts]
      | _ => exact before

theorem handed_of_failed (chronicle : Chronicle h) {task : TaskId} {m : Message}
    {failure : Failure} {own : List (Event ν)}
    (did : deeds task h = .failed task m failure :: own) : (task, m) ∈ handed h := by
  have failed : .failed task m failure ∈ deeds task h := by simp [did]
  obtain ⟨now, inside⟩ := mem_deeds failed
  obtain ⟨later, past, rfl⟩ := List.append_of_mem inside
  exact mem_handed_append _ (mem_handed_cons chronicle.lawful.1)

theorem countP_le_of_once (p : Origin → Bool) (tasks : List TaskId)
    (listed : ∀ e ∈ pushes h, p e.origin = true → e.task ∈ tasks)
    (once : ∀ later past now task origin m,
      h = later ++ (now, .accepted task origin m) :: past → p origin = true →
        ∀ earlier ∈ pushes past, p earlier.origin = true → earlier.task ≠ task) :
    (pushes h).countP (p ·.origin) ≤ tasks.length := by
  have inside : ((pushes h).filter (p ·.origin)).map Push.task ⊆ tasks := by
    intro task found
    obtain ⟨e, among, rfl⟩ := List.mem_map.mp found
    obtain ⟨pushed, counts⟩ := List.mem_filter.mp among
    exact listed e pushed counts
  simpa [List.countP_eq_length_filter] using ((nodup_of_once p once).subperm inside).length_le

theorem countP_isTimer_le (chronicle : Chronicle h) :
    (pushes h).countP (·.origin.isTimer) ≤ (armed h).length := by
  rw [← List.length_map Timer.task]
  refine countP_le_of_once Origin.isTimer _ ?_ fun later past now task origin m split timer => ?_
  · rintro ⟨task, origin, m⟩ found timer
    obtain ⟨later, past, now, rfl⟩ := exists_of_mem_pushes found
    cases origin with
    | tricker action generation =>
        obtain ⟨timer, known, rfl, -⟩ := chronicle.lawful.2
        exact List.mem_map_of_mem (mem_armed_append _ (mem_armed_cons known))
    | _ => cases timer
  · rintro earlier inside - rfl
    subst split
    cases origin with
    | tricker action generation =>
        obtain ⟨-, -, -, -, -, did⟩ := chronicle.lawful.2
        obtain ⟨after, before, -, did'⟩ := deeds_of_mem_pushes chronicle.before.2 inside
        have pushed : .accepted earlier.task earlier.origin earlier.message ∈
            [(.fired earlier.task action generation : Event ν)] := by
          rw [← did, did']
          exact List.mem_append_right _ List.mem_cons_self
        simp at pushed
    | _ => cases timer

theorem countP_isReport_le (chronicle : Chronicle h) :
    (pushes h).countP (·.origin.isReport) ≤ (handed h).countP (·.2.state ≠ .error) := by
  rw [List.countP_eq_length_filter (l := handed h), ← List.length_map Prod.fst]
  refine countP_le_of_once Origin.isReport _ ?_ fun later past now task origin m split report => ?_
  · rintro ⟨task, origin, m⟩ found report
    obtain ⟨later, past, now, rfl⟩ := exists_of_mem_pushes found
    cases origin with
    | report m₀ =>
        obtain ⟨failure, own, did, -, state, -⟩ := chronicle.lawful.2
        have known : (task, m₀) ∈ handed past := handed_of_failed chronicle.before.2 did
        exact List.mem_map.mpr ⟨(task, m₀), List.mem_filter.mpr
          ⟨mem_handed_append _ (mem_handed_cons known), by simpa using state⟩, rfl⟩
    | _ => cases report
  · rintro ⟨task', origin', m'⟩ inside alike rfl
    subst split
    cases origin with
    | report m₀ =>
        cases origin' with
        | report m₁ =>
            obtain ⟨failure, own, did, sound, -⟩ := chronicle.lawful.2
            obtain ⟨after, before, ⟨failure', own', earlier, -⟩, did'⟩ :=
              deeds_of_mem_pushes chronicle.before.2 inside
            -- The failure that this report is about would have to be the only one of the task.
            have failed : .failed task' m₁ failure' ∈ own := by
              have same := did'.symm.trans did
              dsimp only at same earlier
              rw [earlier] at same
              cases after with
              | nil => cases same
              | cons e after =>
                  obtain ⟨-, rfl⟩ := List.cons_eq_cons.mp same
                  simp
            cases sound _ failed
        | _ => cases alike
    | _ => cases report

/-! ### How many messages are handed on -/

theorem length_armed_le (chronicle : Chronicle h) :
    (armed h).length ≤ (handed h).countP (·.2.state = .probe) := by
  induction h with
  | nil => exact le_rfl
  | cons x past ih =>
      obtain ⟨lawful, chronicle⟩ := chronicle
      have before := ih chronicle
      obtain ⟨now, e⟩ := x
      cases e with
      | taken m fate =>
          cases fate with
          | handed task program change =>
              obtain ⟨-, -, decides⟩ : Lawful past now (.taken m (.handed task program change)) :=
                lawful
              rw [handed, List.countP_cons]
              cases change with
              | armed timer =>
                  cases decides with
                  | handed _ _ _ times _ => simpa [armed, (times.of_armed rfl).1] using before
              | _ => exact before.trans (Nat.le_add_right _ _)
          | _ => exact before
      | _ => exact before

/-- Only what was taken and is no request to stop is handed on. -/
theorem countP_handed_le_taken (chronicle : Chronicle h) (p : Message → Bool) :
    (handed h).countP (p ·.2) ≤ (taken h).countP fun m => p m && m.action ≠ .terminate := by
  induction h with
  | nil => exact le_rfl
  | cons x past ih =>
      obtain ⟨lawful, chronicle⟩ := chronicle
      have before := ih chronicle
      obtain ⟨now, e⟩ := x
      cases e with
      | taken m fate =>
          cases fate with
          | handed task program change =>
              obtain ⟨-, -, decides⟩ := lawful
              cases decides with
              | handed goes =>
                  rw [handed, taken, List.countP_cons, List.countP_append, List.countP_singleton]
                  simpa [goes] using before
          | _ =>
              rw [taken, List.countP_append]
              exact before.trans (Nat.le_add_right _ _)
      | _ => exact before

theorem countP_handed_le (chronicle : Chronicle h)
    (inOrder : taken h <+: (accepted h).map pushed) (p : State → Bool) :
    (handed h).countP (p ·.2.state) ≤
      (pushes h).countP fun e => p e.message.state && e.message.action ≠ .terminate := by
  refine (countP_handed_le_taken chronicle (p ·.state)).trans
    (inOrder.sublist.countP_le.trans ?_)
  rw [accepted_eq_pushes, List.map_reverse, List.countP_reverse, List.countP_map, List.countP_map]
  refine List.countP_mono_left fun e _ counts => ?_
  simpa [state_pushed, action_pushed] using counts

theorem countP_le_add {α : Type} {l : List α} {p q r : α → Bool}
    (either : ∀ x ∈ l, p x = true → q x = true ∨ r x = true) :
    l.countP p ≤ l.countP q + l.countP r := by
  rw [List.countP_eq_countP_filter_add l p q, List.countP_filter, List.countP_filter]
  refine Nat.add_le_add (List.countP_mono_left fun x _ both => ?_)
    (List.countP_mono_left fun x inside both => ?_)
  · simp only [Bool.and_eq_true] at both
    exact both.2
  · simp only [Bool.and_eq_true, Bool.not_eq_true'] at both
    exact (either x inside both.1).resolve_left (by simp [both.2])

/-- A message that the looper did not push makes for at most four that are handed on. -/
theorem length_handed_le (chronicle : Chronicle h)
    (inOrder : taken h <+: (accepted h).map pushed) :
    (handed h).length ≤ 4 * (pushes h).countP (!·.origin.isLooper) := by
  have kinds := fun p (inside : p ∈ pushes h) => kind_of_mem_pushes chronicle inside
  have probes : (handed h).countP (·.2.state = .probe) ≤
      (pushes h).countP (!·.origin.isLooper) := by
    refine (countP_handed_le chronicle inOrder (· = .probe)).trans
      (List.countP_mono_left fun p inside counts => ?_)
    rcases kinds p inside with stop | outer | timer | report <;> simp_all
  have errors : (handed h).countP (·.2.state = .error) ≤
      (pushes h).countP (fun p => !p.origin.isLooper && p.message.state = .error) +
        (pushes h).countP (·.origin.isReport) := by
    refine (countP_handed_le chronicle inOrder (· = .error)).trans
      (countP_le_add fun p inside counts => ?_)
    rcases kinds p inside with stop | outer | timer | report <;> simp_all
  have others : (handed h).countP (·.2.state ≠ .error) ≤
      (pushes h).countP (fun p => !p.origin.isLooper && p.message.state ≠ .error) +
        (pushes h).countP (·.origin.isTimer) := by
    refine (countP_handed_le chronicle inOrder (· ≠ .error)).trans
      (countP_le_add fun p inside counts => ?_)
    rcases kinds p inside with stop | outer | timer | report <;> simp_all
  have outer : (pushes h).countP (!·.origin.isLooper) =
      (pushes h).countP (fun p => !p.origin.isLooper && p.message.state = .error) +
        (pushes h).countP (fun p => !p.origin.isLooper && p.message.state ≠ .error) := by
    rw [List.countP_eq_countP_filter_add _ _ (·.message.state = .error), List.countP_filter,
      List.countP_filter]
    simp
  have all : (handed h).length = (handed h).countP (·.2.state = .error) +
      (handed h).countP (·.2.state ≠ .error) := by
    simpa using List.length_eq_countP_add_countP (·.2.state = .error) (l := handed h)
  have timers := (countP_isTimer_le chronicle).trans (length_armed_le chronicle)
  have reports := countP_isReport_le chronicle
  omega

end History

/-! ### What comes of a failure -/

theorem Reported.not_failed {task : TaskId} {m : Message} {failure : Failure}
    {later : List (Event ν)} (reported : Reported task m failure later) (m' : Message)
    (failure' : Failure) : .failed task m' failure' ∉ later := by
  cases reported <;> simp

theorem Reporting.not_failed {task : TaskId} {m : Message} {failure : Failure}
    {activity : Activity ν} {later : List (Event ν)}
    (reporting : Reporting task m failure activity later) (m' : Message) (failure' : Failure) :
    .failed task m' failure' ∉ later := by
  cases reporting with
  | ends reported => exact reported.not_failed m' failure'
  | _ => simp

namespace Moment

/-- What came of the failure of a handler, by what its task did since: the report is complete, or
the task is at it, and it is its turn, or it is in line, or it waits for a place. -/
inductive Answers (q : Moment ν) (task : TaskId) (m : Message) (failure : Failure)
    (later : List (Event ν)) : Prop
  | ended : q.machine.tasks.get? task = none → Reported task m failure later →
      Answers q task m failure later
  | goesOn {activity : Activity ν} : q.machine.tasks.get? task = some ⟨.report m, activity⟩ →
      Reporting task m failure activity later →
      q.current = some task ∨ task ∈ q.machine.ready ∨
        task ∈ q.machine.looper.mailbox.waiting → Answers q task m failure later

theorem Sound.answers {q : Moment ν} (sound : q.Sound) {later past : History ν} {now : ℕ}
    {task : TaskId} {m : Message} {failure : Failure}
    (split : q.history = later ++ (now, .failed task m failure) :: past) :
    q.Answers task m failure (deeds task later) := by
  obtain ⟨s, current⟩ := q
  change s.journal = _ at split
  have did : deeds task s.journal =
      deeds task later ++ .failed task m failure :: deeds task past := by
    rw [split, deeds_append, deeds]
    exact congrArg _ (if_pos rfl)
  have failed : .failed task m failure ∈ deeds task s.journal := by simp [did]
  -- A task fails once, so what it did since is known from all that it did.
  have since : ∀ after own failure', deeds task s.journal =
      after ++ .failed task m failure' :: own → .failed task m failure ∉ after →
      (∀ e ∈ own, e.isFailure = false) → after = deeds task later ∧ failure' = failure := by
    intro after own failure' did' notAfter notBefore
    have notOwn : .failed task m failure ∉ own := fun inside => by cases notBefore _ inside
    obtain ⟨rfl, same, -⟩ :=
      (List.append_cons_inj_of_notMem notAfter notOwn).mp (did'.symm.trans did)
    cases same
    exact ⟨rfl, rfl⟩
  rcases (sound.kept.account task).failed m failure failed with
    works | ⟨gone, after, own, did', rest⟩
  · obtain ⟨⟨origin, activity⟩, found, rfl⟩ := Option.map_eq_some_iff.mp works
    obtain ⟨failure', after, own, did', notBefore, reporting⟩ := sound.fits task _ found
    obtain ⟨same, rfl⟩ := since after own failure' did' (reporting.not_failed m failure) notBefore
    rw [← same]
    refine .goesOn found reporting ((sound.heeded task _ found).awaited.imp_right (.imp_right ?_))
    intro parked
    cases reporting <;> first | exact parked | exact parked.elim
  · obtain ⟨notBefore, reported⟩ := rest
    obtain ⟨rfl, -⟩ := since after own failure did' (reported.not_failed m failure) notBefore
    exact .ended (Option.map_eq_none_iff.mp gone) reported

theorem act_of_fail (clock : Clock) {s : Machine ν} {task : TaskId} {m : Message}
    {failure : Failure}
    (found : s.tasks.get? task = some ⟨.handler m, .active (.fail failure)⟩) :
    apply clock ⟨s, some task⟩ .act = ⟨(s.record (.failed task m failure)).become task (.report m)
      (.ofFailure m failure), some task⟩ := by
  simp [apply, Machine.step, found, Machine.act]

theorem act_of_noted (clock : Clock) {s : Machine ν} {task : TaskId} {m : Message}
    {failure : Failure}
    (found : s.tasks.get? task = some ⟨.report m, .active (.ofFailure m failure)⟩)
    (state : m.state = .error) :
    (apply clock ⟨s, some task⟩ .act).history =
      (s.now, .reported task m.action.text failure.text) :: s.journal := by
  have steps : s.step task = ({ s with sink := s.sink.report m.action.text failure.text }.record
      (.reported task m.action.text failure.text)).goOn task (.done (.ok ())) := by
    simp [Machine.step, found, Program.ofFailure, state, Machine.act]
  rw [act_of_goOn clock steps, Machine.resume_eq]
  rfl

/-- How the attempt to push a message begins: it is accepted or refused, or has to wait. -/
inductive Tried (past : History ν) (now : ℕ) (q : Moment ν) (task : TaskId) (origin : Origin)
    (m : Message) (next : Option Outcome → Program ν) : Prop
  | accepted : q.history = (now, .accepted task origin m) :: past →
      Tried past now q task origin m next
  | refused : q.history = (now, .refused task origin m .closed) :: past →
      Tried past now q task origin m next
  | waits : q.history = past →
      q.machine.tasks.get? task = some ⟨origin, .pushing m none next⟩ →
      Tried past now q task origin m next

theorem tried_of_push (clock : Clock) {s : Machine ν} {task : TaskId} {origin : Origin}
    {m : Message} {next : Option Outcome → Program ν}
    (found : s.tasks.get? task = some ⟨origin, .active (.push m none next)⟩) :
    Tried s.journal s.now (apply clock ⟨s, some task⟩ .act) task origin m next := by
  have steps : s.step task = s.push task origin m none next := by
    simp [Machine.step, found, Machine.act]
  unfold Machine.push at steps
  split at steps
  · rw [act_of_goOn clock steps, Machine.resume_eq]
    exact .refused rfl
  · split at steps
    · rw [act_of_goOn clock steps, Machine.resume_eq, Machine.accept, Machine.wakeServer_eq]
      exact .accepted rfl
    · have waits : apply clock ⟨s, some task⟩ .act = ⟨(s.step task).1, none⟩ := by
        simp [apply, steps, Machine.await]
      rw [waits, steps, Machine.await, Machine.suspend_eq]
      exact .waits rfl (by simp [Table.get?_adjust, found])
    · rw [act_of_goOn clock steps, Machine.resume_eq]
      exact .refused rfl

theorem tried_of_report (clock : Clock) {s : Machine ν} {task : TaskId} {m : Message}
    {failure : Failure}
    (found : s.tasks.get? task = some ⟨.report m, .active (.ofFailure m failure)⟩)
    (state : m.state ≠ .error) :
    ∃ back, IsReport m failure back ∧ Tried s.journal s.now
      (run clock [.act, .act] ⟨s, some task⟩) task (.report m) back (.afterReport m) := by
  let back := (Message.new m.action .error (Int64.ofNat (s.now * 1000000))).append
    (Text.Utf8.encode failure.full)
  have steps : s.step task = s.goOn task (.push back none (.afterReport m)) := by
    simp [Machine.step, found, Program.ofFailure, state, Machine.act, Machine.view, back]
  have looked : run clock [.act, .act] ⟨s, some task⟩ =
      apply clock ⟨s.resume task (.push back none (.afterReport m)), some task⟩ .act := by
    rw [← act_of_goOn clock steps]
    rfl
  have known : (s.resume task (.push back none (.afterReport m))).tasks.get? task =
      some ⟨.report m, .active (.push back none (.afterReport m))⟩ := by
    rw [Machine.resume_eq]
    simp [Table.get?_adjust, found]
  have tried := tried_of_push clock known
  rw [Machine.resume_eq] at tried looked
  rw [looked]
  exact ⟨back, ⟨rfl, rfl, rfl, rfl⟩, tried⟩

/-- A handler that fails answers for it in the same turn. -/
theorem answers_at_once (clock : Clock) {q : Moment ν} {task : TaskId} {m : Message}
    {failure : Failure} (turn : q.current = some task)
    (found : q.machine.tasks.get? task = some ⟨.handler m, .active (.fail failure)⟩) :
    (m.state = .error → (run clock [.act, .act] q).history =
      (q.machine.now, .reported task m.action.text failure.text) ::
        (q.machine.now, .failed task m failure) :: q.history) ∧
    (m.state ≠ .error → ∃ back, IsReport m failure back ∧
      Tried ((q.machine.now, .failed task m failure) :: q.history) q.machine.now
        (run clock [.act, .act, .act] q) task (.report m) back (.afterReport m)) := by
  obtain ⟨s, current⟩ := q
  obtain rfl : current = some task := turn
  have failed : ∀ moves, run clock (.act :: moves) ⟨s, some task⟩ =
      run clock moves ⟨(s.record (.failed task m failure)).become task (.report m)
        (.ofFailure m failure), some task⟩ := fun moves => by
    rw [← act_of_fail clock found]
    rfl
  have known : ((s.record (.failed task m failure)).become task (.report m)
      (.ofFailure m failure)).tasks.get? task =
        some ⟨.report m, .active (.ofFailure m failure)⟩ := Table.get?_insert_self ..
  refine ⟨fun state => ?_, fun state => ?_⟩
  · rw [failed]
    exact act_of_noted clock known state
  · rw [failed]
    exact tried_of_report clock known state

end Moment

/-- Whatever callers and handlers do, and however they take turns:

* the messages that are handed to handlers are at most four for each one that was accepted from a
  caller or a ticking timer, and four for each one from a handler; so at most four times those from
  the outside if handlers push nothing themselves;
* every failure of a handler is answered with one attempt to push an error message on the same
  action, and with one line if that is refused; or, if it was a failure on an error message, with
  one line and nothing else; and nobody forgets the task that still is at it;
* the lines in the sink are those that were reported;
* a handler that fails begins to answer for it in the same turn. -/
theorem Moment.fedBack_of_run (clock : Clock) (moves : List (Move ν)) (capacity : ℕ) :
    let q := run clock moves (start capacity)
    (handed q.history).length ≤ 4 * ((pushes q.history).countP (·.origin.isOutside) +
        (pushes q.history).countP (·.origin.isHandler)) ∧
      (∀ later past now task m failure,
        q.history = later ++ (now, .failed task m failure) :: past →
          (task, m) ∈ handed past ∧ (∀ e ∈ deeds task past, e.isFailure = false) ∧
            q.Answers task m failure (deeds task later)) ∧
      q.machine.sink.lines = reports q.history ∧
      ∀ task m failure, q.current = some task →
        q.machine.tasks.get? task = some ⟨.handler m, .active (.fail failure)⟩ →
          (m.state = .error → (run clock [.act, .act] q).history =
            (q.machine.now, .reported task m.action.text failure.text) ::
              (q.machine.now, .failed task m failure) :: q.history) ∧
          (m.state ≠ .error → ∃ back, IsReport m failure back ∧
            Tried ((q.machine.now, .failed task m failure) :: q.history) q.machine.now
              (run clock [.act, .act, .act] q) task (.report m) back (.afterReport m)) := by
  intro q
  have sound : q.Sound := sound_run clock moves capacity
  have chronicle : Chronicle q.history := chronicle_run clock moves capacity
  refine ⟨?_, fun later past now task m failure split => ?_, sound.kept.sink,
    fun task m failure => answers_at_once clock⟩
  · have others := countP_le_add (l := pushes q.history) (p := (!·.origin.isLooper))
      (q := (·.origin.isOutside)) (r := (·.origin.isHandler)) fun p _ outer => by
        obtain ⟨task, origin, m⟩ := p
        cases origin <;> first | exact .inl rfl | exact .inr rfl | cases outer
    exact (length_handed_le chronicle sound.agrees.inOrder).trans (Nat.mul_le_mul_left 4 others)
  · obtain ⟨given, first⟩ := (split ▸ chronicle).lawful
    exact ⟨given, first, sound.answers split⟩

/-- A probe whose handler always fails makes for four: the probe, its failed copy, and an error
message for each. -/
example :
    let caller : Program Unit :=
      .spawn .serving fun _ => .addHandler .join (.ofMillis 1) (fun _ => .fail ⟨"no", "no"⟩)
        (.push (.new .join .probe 7) none fun _ => .sleepUntil 5 (.done (.ok ())))
    let h := ((Machine.start 4 caller).run 60 none 0).journal
    (handed h).length = 4 ∧ (pushes h).countP (·.origin.isOutside) = 1 := by
  decide +kernel

end TreeCluster.Looper
