import TreeCluster.Proofs.Looper.Sound

/-! # The looper follows its history

For each kind of event, the change of the looper that goes with it: after both, the looper is what
its history says (`Agrees`). -/

namespace TreeCluster.Looper

open History

variable {ν : Type}

/-! ### Readings of a longer history -/

/-- An event after which everything can be read as before but what a task did. -/
def Event.Idle : Event ν → Prop
  | .refused _ _ _ _ => True
  | .failed _ _ _ => True
  | .reported _ _ _ => True
  | _ => False

namespace History

variable {past : History ν} {now : ℕ} {e : Event ν}

@[simp] theorem stopped_cons : Stopped ((now, e) :: past) ↔ e = .stopped ∨ Stopped past := by
  simp only [Stopped, List.mem_cons, Prod.mk.injEq]
  constructor
  · rintro ⟨t, ⟨_, same⟩ | later⟩
    · exact .inl same.symm
    · exact .inr ⟨t, later⟩
  · rintro (rfl | ⟨t, later⟩)
    · exact ⟨now, .inl ⟨rfl, rfl⟩⟩
    · exact ⟨t, .inr later⟩

@[simp] theorem over_cons :
    Over ((now, e) :: past) ↔ e = .termed ∨ e = .stopped ∨ Over past := by
  simp only [Over, List.mem_cons, Prod.mk.injEq]
  constructor
  · rintro ⟨t, (⟨_, same⟩ | later) | (⟨_, same⟩ | later)⟩
    · exact .inl same.symm
    · exact .inr (.inr ⟨t, .inl later⟩)
    · exact .inr (.inl same.symm)
    · exact .inr (.inr ⟨t, .inr later⟩)
  · rintro (rfl | rfl | ⟨t, later⟩)
    · exact ⟨now, .inl (.inl ⟨rfl, rfl⟩)⟩
    · exact ⟨now, .inr (.inl ⟨rfl, rfl⟩)⟩
    · exact ⟨t, later.imp .inr .inr⟩

theorem Stopped.over {h : History ν} (stopped : Stopped h) : Over h :=
  stopped.imp fun _ => .inr

theorem accepted_of_idle (idle : e.Idle) : accepted ((now, e) :: past) = accepted past := by
  cases e <;> first | rfl | exact idle.elim

theorem taken_of_idle (idle : e.Idle) : taken ((now, e) :: past) = taken past := by
  cases e <;> first | rfl | exact idle.elim

theorem handler?_of_idle (idle : e.Idle) (a : Action) :
    handler? a ((now, e) :: past) = handler? a past := by
  cases e <;> first | rfl | exact idle.elim

theorem timer?_of_idle (idle : e.Idle) (a : Action) :
    timer? a ((now, e) :: past) = timer? a past := by
  cases e <;> first | rfl | exact idle.elim

theorem mem_handed_cons {given : TaskId × Message} (known : given ∈ handed past) :
    given ∈ handed ((now, e) :: past) := by
  cases e with
  | taken m fate =>
      cases fate with
      | handed task program change => exact .tail _ known
      | _ => exact known
  | _ => exact known

theorem mem_armed_cons {timer : Timer} (known : timer ∈ armed past) :
    timer ∈ armed ((now, e) :: past) := by
  cases e with
  | taken m fate =>
      cases fate with
      | handed task program change =>
          cases change with
          | armed other => exact .tail _ known
          | _ => exact known
      | _ => exact known
  | _ => exact known

theorem mem_handed_append (later : History ν) {given : TaskId × Message}
    (known : given ∈ handed past) : given ∈ handed (later ++ past) := by
  induction later with
  | nil => exact known
  | cons x later ih => exact mem_handed_cons ih

theorem mem_armed_append (later : History ν) {timer : Timer}
    (known : timer ∈ armed past) : timer ∈ armed (later ++ past) := by
  induction later with
  | nil => exact known
  | cons x later ih => exact mem_armed_cons ih

theorem deeds_append (task : TaskId) (later past : History ν) :
    deeds task (later ++ past) = deeds task later ++ deeds task past := by
  induction later with
  | nil => rfl
  | cons x later ih =>
      rw [List.cons_append, deeds, deeds, ih]
      split <;> rfl

theorem mem_deeds {task : TaskId} {e : Event ν} {h : History ν} (did : e ∈ deeds task h) :
    ∃ now, (now, e) ∈ h := by
  induction h with
  | nil => cases did
  | cons x past ih =>
      obtain ⟨now, x⟩ := x
      rw [deeds] at did
      split at did
      · rcases List.mem_cons.mp did with rfl | before
        · exact ⟨now, List.mem_cons_self⟩
        · exact (ih before).imp fun _ => .tail _
      · exact (ih did).imp fun _ => .tail _

theorem mem_deeds_of_mem {h : History ν} {task : TaskId} (inside : (now, e) ∈ h)
    (own : e.task? = some task) : e ∈ deeds task h := by
  obtain ⟨later, past, rfl⟩ := List.append_of_mem inside
  rw [deeds_append, deeds, if_pos own]
  exact List.mem_append_right _ List.mem_cons_self

end History

/-! ### The looper after one more event -/

namespace Agrees

variable {looper : Looper ν} {h : History ν} {now : ℕ}

theorem idle (agrees : Agrees looper h) {e : Event ν} (idle : e.Idle) :
    Agrees looper ((now, e) :: h) := by
  have notStopped : e ≠ .stopped := by rintro rfl; exact idle
  have notTermed : e ≠ .termed := by rintro rfl; exact idle
  refine ⟨fun a => ?_, fun a => ?_, agrees.single, ?_, ?_, ?_, ?_, agrees.shut⟩
  · rw [handler?_of_idle idle, agrees.handlers]
  · rw [timer?_of_idle idle, agrees.timers]
  · simpa [notStopped, notTermed] using agrees.closed
  · simpa [notStopped] using agrees.stopped
  · rw [accepted_of_idle idle, taken_of_idle idle]
    exact agrees.queue
  · rw [accepted_of_idle idle, taken_of_idle idle]
    exact agrees.inOrder

theorem accept (agrees : Agrees looper h) (goesOn : ¬ Stopped h) {task : TaskId} {origin : Origin}
    {m : Message} {mailbox : Mailbox} (wasOpen : looper.mailbox.closed = false)
    (opened : mailbox.closed = false) (queue : mailbox.queue = looper.mailbox.queue ++ [pushed m]) :
    Agrees { looper with mailbox } ((now, .accepted task origin m) :: h) := by
  have all : (accepted h).map pushed = taken h ++ looper.mailbox.queue := agrees.queue wasOpen
  refine ⟨agrees.handlers, agrees.timers, agrees.single, ?_, ?_, fun _ => ?_, ?_, ?_⟩
  · simpa using agrees.closed
  · simp [goesOn]
  · simp [accepted, taken, queue, all]
  · simp [accepted, taken, all]
  · simp [opened]

theorem register (agrees : Agrees looper h) (action : Action) (handler : Handler ν) :
    Agrees { looper with handlers := looper.handlers.insert action handler }
      ((now, .registered action handler) :: h) := by
  refine ⟨fun a => ?_, agrees.timers, agrees.single, ?_, ?_, agrees.queue, agrees.inOrder,
    agrees.shut⟩
  · by_cases same : action = a
    · simp [handler?, same]
    · simp [handler?, same, Ne.symm same, Table.get?_insert, agrees.handlers]
  · simpa using agrees.closed
  · simpa using agrees.stopped

theorem withMailbox (agrees : Agrees looper h) {mailbox : Mailbox}
    (stays : looper.mailbox.closed = true → mailbox.closed = true)
    (queue : mailbox.closed = false → mailbox.queue = looper.mailbox.queue)
    (shut : mailbox.closed = true → mailbox.queue = [] ∧ mailbox.waiting = []) :
    Agrees { looper with mailbox } h := by
  refine ⟨agrees.handlers, agrees.timers, agrees.single, agrees.closed, fun stopped => ?_,
    fun opened => ?_, agrees.inOrder, shut⟩
  · obtain ⟨closed, rest⟩ := agrees.stopped stopped
    exact ⟨stays closed, rest⟩
  · rw [queue opened]
    refine agrees.queue ?_
    cases closed : looper.mailbox.closed with
    | false => rfl
    | true => rw [stays closed] at opened; cases opened

theorem remove (agrees : Agrees looper h) (action : Action) {mailbox : Mailbox}
    (same : Agrees { looper with mailbox } h) {trickers : Table Action Tricker} {generation : ℕ}
    (slots : ∀ a, trickers.get? a = if a = action then none else looper.trickers.get? a)
    (single : trickers.keys.Nodup) :
    Agrees { looper with mailbox, trickers, generation, handlers := looper.handlers.erase action }
      ((now, .removed action (.stopping (timer? action h))) :: h) := by
  refine ⟨fun a => ?_, fun a => ?_, single, ?_, ?_, same.queue, same.inOrder, same.shut⟩
  · by_cases equal : action = a
    · simp [handler?, equal, Table.get?_erase]
    · simp [handler?, equal, Ne.symm equal, Table.get?_erase, agrees.handlers]
  · by_cases equal : action = a
    · subst equal
      cases timer : timer? action h <;> simp [timer?, slots, timer, TimerChange.stopping,
        TimerChange.after]
    · simp [timer?, equal, Ne.symm equal, slots, agrees.timers]
  · simpa using agrees.closed
  · simpa using same.stopped

theorem fire (agrees : Agrees looper h) (task : TaskId) (action : Action) (generation : ℕ) :
    Agrees { looper with trickers := looper.trickers.erase action }
      ((now, .fired task action generation) :: h) := by
  refine ⟨agrees.handlers, fun a => ?_, Table.nodup_keys_erase _ _ agrees.single, ?_, ?_,
    agrees.queue, agrees.inOrder, agrees.shut⟩
  · by_cases same : action = a
    · simp [timer?, same, Table.get?_erase]
    · simp [timer?, same, Ne.symm same, Table.get?_erase, agrees.timers]
  · simpa using agrees.closed
  · simpa using agrees.stopped

theorem term (agrees : Agrees looper h) :
    Agrees { looper with closed := true } ((now, .termed) :: h) :=
  ⟨agrees.handlers, agrees.timers, agrees.single, by simp, by simpa using agrees.stopped,
    agrees.queue, agrees.inOrder, agrees.shut⟩

theorem stop (agrees : Agrees looper h) {mailbox : Mailbox} (closed : mailbox.closed = true)
    (queue : mailbox.queue = []) (waiting : mailbox.waiting = [])
    (served : looper.server.isSome = true) :
    Agrees { looper with mailbox, trickers := .empty, intervals := [], closed := true }
      ((now, .stopped) :: h) := by
  refine ⟨agrees.handlers, fun a => ?_, List.nodup_nil, ?_, fun _ => ⟨closed, rfl, served⟩, ?_,
    agrees.inOrder, fun _ => ⟨queue, waiting⟩⟩
  · simp [timer?]
  · simp
  · simp [closed]

theorem take (agrees : Agrees looper h) (goesOn : ¬ Over h) {m : Message} {rest : List Message}
    (front : looper.mailbox.queue = m :: rest) {mailbox : Mailbox}
    (opened : mailbox.closed = false) (queue : mailbox.queue = rest) {fate : Fate ν}
    {trickers : Table Action Tricker} {generation : ℕ}
    (slots : ∀ a, trickers.get? a = (timer? a ((now, .taken m fate) :: h)).map Timer.slot)
    (single : trickers.keys.Nodup) :
    Agrees { looper with mailbox, trickers, generation } ((now, .taken m fate) :: h) := by
  have wasOpen : looper.mailbox.closed = false := by
    cases closed : looper.mailbox.closed with
    | false => rfl
    | true => rw [(agrees.shut closed).1] at front; cases front
  have all : (accepted h).map pushed = taken h ++ m :: rest := front ▸ agrees.queue wasOpen
  refine ⟨agrees.handlers, slots, single, ?_, ?_, fun _ => ?_, ?_, ?_⟩
  · simpa using agrees.closed
  · have := mt Stopped.over goesOn
    simp [this]
  · simp [accepted, taken, queue, all]
  · simp [accepted, taken, all]
  · simp [opened]

end Agrees
end TreeCluster.Looper
