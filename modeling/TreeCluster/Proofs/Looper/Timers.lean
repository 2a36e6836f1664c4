import TreeCluster.Proofs.Looper.Agreement

/-! # The course of a timer

A history says of each timer that was armed whether it still runs, has fired, or was stopped before
(`course`), and no two timers have the same task.  If nothing ever happened after a running timer
was due (`OnTime`), then a timer that has fired did so exactly when it was due. -/

namespace TreeCluster.Looper

open History

variable {ν : Type}

/-- What ends a timer before it fires: a success, for whose handler there is a deadline; the
removal of the handler; the end of the looper. -/
inductive Timer.StoppedBy (timer : Timer) : Event ν → Prop
  | succeeded {m : Message} {task : TaskId} {program : Program ν} :
      m.action = timer.probe.action → m.state = .succeed →
      timer.StoppedBy (.taken m (.handed task program (.disarmed timer.generation)))
  | removed : timer.StoppedBy (.removed timer.probe.action (.disarmed timer.generation))
  | stopped : timer.StoppedBy .stopped

namespace History

/-- Nothing ever happened after a timer that ran was due. -/
def OnTime : History ν → Prop
  | [] => True
  | (now, _) :: past => (∀ a timer, timer? a past = some timer → now ≤ timer.due) ∧ OnTime past

/-- What became of a timer since it was armed. -/
inductive Course (timer : Timer) (h later : History ν) : Prop
  | runs : timer? timer.probe.action h = some timer → (∀ e ∈ later, e.2 ≠ timer.firing) →
      Course timer h later
  | fired (after before : History ν) : timer? timer.probe.action h ≠ some timer →
      later = after ++ (timer.due, timer.firing) :: before →
      (∀ e ∈ after ++ before, e.2 ≠ timer.firing) → Course timer h later
  | stopped (after before : History ν) {t : ℕ} {e : Event ν} :
      timer? timer.probe.action h ≠ some timer → later = after ++ (t, e) :: before →
      timer.StoppedBy e → t ≤ timer.due → (∀ e ∈ later, e.2 ≠ timer.firing) →
      Course timer h later

variable {h past : History ν} {now : ℕ} {e : Event ν} {a : Action} {timer : Timer}

/-! ### Arming and disarming -/

namespace Times

variable {m : Message} {deadline : Duration} {change : TimerChange}

theorem of_armed (times : Times past now m deadline change) (same : change = .armed timer) :
    m.state = .probe ∧ deadline ≠ .zero ∧ timer? m.action past = none ∧
      timer.probe = m ∧ timer.due = now + deadline.sleepMillis := by
  cases times with
  | arms timed probe idle =>
      obtain rfl := TimerChange.armed.inj same
      exact ⟨probe, timed, idle, rfl, rfl⟩
  | succeeds => cases running : timer? m.action past <;> rw [running] at same <;> cases same
  | _ => cases same

theorem armed_iff (times : Times past now m deadline change) : (∃ timer, change = .armed timer) ↔
    m.state = .probe ∧ deadline ≠ .zero ∧ timer? m.action past = none := by
  refine ⟨fun ⟨timer, same⟩ => ?_, fun ⟨probe, timed, idle⟩ => ?_⟩
  · obtain ⟨probe, timed, idle, -⟩ := times.of_armed same
    exact ⟨probe, timed, idle⟩
  · cases times with
    | arms => exact ⟨_, rfl⟩
    | untimed none => exact absurd none timed
    | runs _ _ runs => simp [idle] at runs
    | succeeds _ succeed => simp [probe] at succeed
    | other other _ => exact absurd probe other

theorem disarmed_iff (times : Times past now m deadline change) :
    (∃ generation, change = .disarmed generation) ↔
      m.state = .succeed ∧ deadline ≠ .zero ∧ timer? m.action past ≠ none := by
  cases times with
  | untimed none => simp [none]
  | arms _ probe => simp [probe]
  | runs _ probe => simp [probe]
  | succeeds timed succeed =>
      cases timer? m.action past <;> simp [timed, succeed, TimerChange.stopping]
  | other _ other => simp [other]

end Times

/-! ### One more event -/

/-- A timer that runs after an event ran before, or was armed by it. -/
theorem timer?_cons (lawful : Lawful past now e)
    (runs : timer? a ((now, e) :: past) = some timer) : timer? a past = some timer ∨
      ∃ m task program, e = .taken m (.handed task program (.armed timer)) ∧ m.action = a ∧
        timer.probe = m ∧ now ≤ timer.due ∧ timer.task ∉ (armed past).map Timer.task := by
  cases e with
  | removed b change =>
      obtain rfl : change = .stopping (timer? b past) := lawful
      by_cases same : b = a
      · subst same
        rw [timer?, if_pos rfl, TimerChange.after_stopping] at runs
        cases runs
      · rw [timer?, if_neg same] at runs
        exact .inl runs
  | taken m fate =>
      cases fate with
      | handed task program change =>
          by_cases same : m.action = a
          · subst same
            rw [timer?, if_pos rfl] at runs
            obtain ⟨-, -, decides⟩ := lawful
            cases decides with
            | handed _ _ _ times new =>
                cases times with
                | arms _ probe _ =>
                    obtain rfl := Option.some.inj runs
                    exact .inr ⟨m, task, _, rfl, rfl, rfl, Nat.le_add_right _ _, new _ rfl⟩
                | succeeds =>
                    rw [TimerChange.after_stopping] at runs
                    cases runs
                | _ => exact .inl runs
          · rw [timer?, if_neg same] at runs
            exact .inl runs
      | _ => exact .inl runs
  | fired task b generation =>
      by_cases same : b = a
      · rw [timer?, if_pos same] at runs
        cases runs
      · rw [timer?, if_neg same] at runs
        exact .inl runs
  | stopped => cases runs
  | _ => exact .inl runs

/-- A timer that runs goes on, or fires, or is stopped. -/
theorem goesOn_or_ends (lawful : Lawful past now e)
    (runs : timer? timer.probe.action past = some timer) :
    timer? timer.probe.action ((now, e) :: past) = some timer ∨
      e = timer.firing ∧ timer.due ≤ now ∨ timer.StoppedBy e := by
  cases e with
  | removed b change =>
      obtain rfl : change = .stopping (timer? b past) := lawful
      by_cases same : b = timer.probe.action
      · subst same
        rw [runs]
        exact .inr (.inr .removed)
      · exact .inl (by rwa [timer?, if_neg same])
  | taken m fate =>
      cases fate with
      | handed task program change =>
          by_cases same : m.action = timer.probe.action
          · rw [timer?, if_pos same]
            obtain ⟨-, -, decides⟩ := lawful
            cases decides with
            | handed _ _ _ times _ =>
                cases times with
                | arms _ _ none =>
                    rw [same, runs] at none
                    cases none
                | succeeds _ state =>
                    rw [same, runs]
                    exact .inr (.inr (.succeeded same state))
                | _ => exact .inl runs
          · exact .inl (by rwa [timer?, if_neg same])
      | _ => exact .inl runs
  | fired task b generation =>
      by_cases same : b = timer.probe.action
      · obtain ⟨other, ran, rfl, rfl, due, -⟩ := lawful
        rw [same, runs] at ran
        obtain rfl := Option.some.inj ran
        exact .inr (.inl ⟨by rw [same]; rfl, due⟩)
      · exact .inl (by rwa [timer?, if_neg same])
  | stopped => exact .inr (.inr .stopped)
  | _ => exact .inl runs

theorem timer?_of_stoppedBy (ends : timer.StoppedBy e) :
    timer? timer.probe.action ((now, e) :: past) = none := by
  cases ends with
  | succeeded same => rw [timer?, if_pos same]; rfl
  | removed => rw [timer?, if_pos rfl]; rfl
  | stopped => rfl

theorem timer?_firing : timer? timer.probe.action ((now, timer.firing) :: past) = none :=
  if_pos rfl

theorem OnTime.inTime {later : History ν} (onTime : OnTime (later ++ (now, e) :: past))
    (a : Action) (timer : Timer) (runs : timer? a past = some timer) : now ≤ timer.due := by
  induction later with
  | nil => exact onTime.1 a timer runs
  | cons x later ih => exact ih onTime.2

/-! ### Timers and their tasks -/

theorem armed_of_timer? (chronicle : Chronicle h) (runs : timer? a h = some timer) :
    timer.probe.action = a ∧ timer ∈ armed h := by
  induction h with
  | nil => cases runs
  | cons x past ih =>
      obtain ⟨lawful, chronicle⟩ := chronicle
      obtain ⟨now, e⟩ := x
      rcases timer?_cons lawful runs with ran | ⟨m, task, program, rfl, rfl, rfl, -⟩
      · exact (ih chronicle ran).imp_right mem_armed_cons
      · exact ⟨rfl, List.mem_cons_self⟩

theorem nodup_armed (chronicle : Chronicle h) : ((armed h).map Timer.task).Nodup := by
  induction h with
  | nil => exact List.nodup_nil
  | cons x past ih =>
      obtain ⟨lawful, chronicle⟩ := chronicle
      have before := ih chronicle
      obtain ⟨now, e⟩ := x
      cases e with
      | taken m fate =>
          cases fate with
          | handed task program change =>
              cases change with
              | armed timer =>
                  obtain ⟨-, -, decides⟩ := lawful
                  cases decides with
                  | handed _ _ _ _ new => exact List.nodup_cons.mpr ⟨new timer rfl, before⟩
              | _ => exact before
          | _ => exact before
      | _ => exact before

theorem timer_unique (chronicle : Chronicle h) {other : Timer} (known : timer ∈ armed h)
    (known' : other ∈ armed h) (same : timer.task = other.task) : timer = other :=
  List.inj_on_of_nodup_map (nodup_armed chronicle) known known' same

theorem timer?_of_firing (chronicle : Chronicle past) (known : timer ∈ armed past)
    (fires : Lawful past now (timer.firing : Event ν)) :
    timer? timer.probe.action past = some timer := by
  obtain ⟨other, runs, same, -⟩ := fires
  obtain rfl := timer_unique chronicle known (armed_of_timer? chronicle runs).2 same.symm
  exact runs

/-! ### The course of a timer -/

/-- A timer that does not run any more has gone for good. -/
theorem gone_cons (lawful : Lawful past now e) (chronicle : Chronicle past)
    (known : timer ∈ armed past) (idle : timer? timer.probe.action past ≠ some timer) :
    timer? timer.probe.action ((now, e) :: past) ≠ some timer ∧ e ≠ timer.firing := by
  refine ⟨fun again => ?_, ?_⟩
  · rcases timer?_cons lawful again with ran | ⟨m, task, program, -, -, -, -, new⟩
    · exact idle ran
    · exact new (List.mem_map_of_mem known)
  · rintro rfl
    exact idle (timer?_of_firing chronicle known lawful)

/-- A timer runs on until it fires or is stopped, and never again. -/
theorem course (later : History ν) (chronicle : Chronicle (later ++ h))
    (onTime : OnTime (later ++ h)) (runs : timer? timer.probe.action h = some timer) :
    Course timer (later ++ h) later := by
  induction later with
  | nil => exact .runs runs (by simp)
  | cons x later ih =>
      obtain ⟨now, e⟩ := x
      obtain ⟨lawful, chronicle⟩ := chronicle
      obtain ⟨inTime, onTime⟩ := onTime
      have known : timer ∈ armed (later ++ h) :=
        mem_armed_append later (armed_of_timer? chronicle.before runs).2
      change Course timer ((now, e) :: (later ++ h)) ((now, e) :: later)
      have gone := gone_cons lawful chronicle known
      cases ih chronicle onTime with
      | runs ran silent =>
          rcases goesOn_or_ends lawful ran with goesOn | ⟨rfl, due⟩ | ends
          · refine .runs goesOn (List.forall_mem_cons.mpr ⟨?_, silent⟩)
            rintro rfl
            rw [timer?_firing] at goesOn
            cases goesOn
          · obtain rfl : now = timer.due := le_antisymm (inTime _ timer ran) due
            refine .fired [] later ?_ rfl silent
            rw [timer?_firing]
            nofun
          · refine .stopped [] later ?_ rfl ends (inTime _ timer ran)
              (List.forall_mem_cons.mpr ⟨?_, silent⟩)
            · rw [timer?_of_stoppedBy ends]
              nofun
            · rintro rfl
              cases ends
      | fired after before idle split silent =>
          obtain ⟨idle, other⟩ := gone idle
          exact .fired ((now, e) :: after) before idle (congrArg _ split)
            (List.forall_mem_cons.mpr ⟨other, silent⟩)
      | stopped after before idle split ends due silent =>
          obtain ⟨idle, other⟩ := gone idle
          exact .stopped ((now, e) :: after) before idle (congrArg _ split) ends due
            (List.forall_mem_cons.mpr ⟨other, silent⟩)

end History
end TreeCluster.Looper
