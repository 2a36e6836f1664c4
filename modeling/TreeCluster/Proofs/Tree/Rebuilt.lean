import TreeCluster.Proofs.Tree.Local
import TreeCluster.Proofs.Tree.Recorded

/-! # Trees rebuilt with another fan-out

A run leaves behind the log of the changes that it made (`Tree.Logged`).  Under another fan-out the
log places members elsewhere, and one that had no children when it was taken out may have some in the
rebuilt tree.  It is left there then, as every member with children is, and whether it ever leaves
depends on later entries (`Tree.Leftover`).

These are the only members that the rebuilt tree has and the recorded one has not, and it lacks none
(`ofReplay_members`). -/

namespace TreeCluster.Tree

variable {fanOut fanOut' : ℕ} {t u : Tree} {x : NodeAddress}

/-- The address is in the tree. -/
def Member (t : Tree) (x : NodeAddress) : Prop :=
  t.search x ≠ none

theorem not_member_clear (t : Tree) (x : NodeAddress) : ¬t.clear.Member x :=
  fun h => h rfl

theorem Sound.member_add (h : t.Sound fanOut) (y : NodeAddress) :
    (t.add y).1.Member x ↔ x = y ∨ t.Member x := by
  unfold Member
  by_cases same : x = y
  · rw [same, search_add]
    simp
  · cases hy : t.search y with
    | some path => rw [add_of_present hy]; simp [same]
    | none => rw [(h.gains_add hy).search_eq same]; simp [same]

theorem Sound.member_remove (h : t.Sound fanOut) {y : NodeAddress} (gone : (t.remove y).2 = true) :
    (t.remove y).1.Member x ↔ x ≠ y ∧ t.Member x := by
  obtain ⟨-, back⟩ := h.gains_remove (h.childrenOf_of_removed gone)
  unfold Member
  by_cases same : x = y
  · rw [same, back.oneMore.absent]
    simp
  · rw [back.search_eq same]
    simp [same]

theorem member_of_removed (gone : (t.remove x).2 = true) : t.Member x := by
  intro absent
  rw [remove_of_absent absent] at gone
  cases gone

theorem Sound.exists_child_of_refused (h : t.Sound fanOut) (here : t.Member x)
    (refused : (t.remove x).2 = false) : ∃ path more, t.childrenOf x = some (path :: more) := by
  cases children : t.childrenOf x with
  | none =>
      rw [h.childrenOf_eq, Option.map_eq_none_iff, ← h.search_eq_none_iff] at children
      exact absurd children here
  | some paths =>
      cases paths with
      | nil =>
          rw [(h.gains_remove children).1] at refused
          cases refused
      | cons path more => exact ⟨path, more, rfl⟩

/-! ### Logs of what was done -/

/-- The entries that a run leaves behind: for each added address the path that it was given, for each
member that was taken out its path before, and a mark for each clearing. -/
inductive Logged : Tree → List Op → List ReplayEntry → Prop
  | done {t : Tree} : Logged t [] []
  | add {t : Tree} {address : NodeAddress} {path : NodePath} {ops : List Op}
      {log : List ReplayEntry} :
      (t.add address).2 = path → Logged (t.add address).1 ops log →
        Logged t (.add address :: ops) (⟨.add, path⟩ :: log)
  | remove {t : Tree} {address : NodeAddress} {path : NodePath} {ops : List Op}
      {log : List ReplayEntry} :
      t.search address = some path → (t.remove address).2 = true →
        Logged (t.remove address).1 ops log →
          Logged t (.remove address :: ops) (⟨.remove, path⟩ :: log)
  | refused {t : Tree} {address : NodeAddress} {ops : List Op} {log : List ReplayEntry} :
      (t.remove address).2 = false → Logged t ops log → Logged t (.remove address :: ops) log
  | clear {t : Tree} {path : NodePath} {ops : List Op} {log : List ReplayEntry} :
      Logged t.clear ops log → Logged t (.clear :: ops) (⟨.clean, path⟩ :: log)

/-- No entry is about the address or clears the tree. -/
def Untouched (x : NodeAddress) (log : List ReplayEntry) : Prop :=
  ∀ e ∈ log, e.action ≠ .clean ∧ e.path.nodeForm ≠ .ok x.written

/-- An entry takes the address out, but when a replay from `u` on comes to it the address has children
and stays.  No later entry is about the address or clears the tree. -/
def Leftover (u : Tree) (fresh : ℕ → String) (log : List ReplayEntry) (x : NodeAddress) : Prop :=
  ∃ front path back, log = front ++ ⟨.remove, path⟩ :: back ∧ path.nodeForm = .ok x.written ∧
    (∃ child more, (u.replay fresh front).1.childrenOf x = some (child :: more)) ∧ Untouched x back

/-! ### One entry -/

variable {fresh : ℕ → String} {e : ReplayEntry} {path : NodePath} {address : NodeAddress}
  {log : List ReplayEntry}

theorem read_ne_iff (read : path.nodeForm = .ok address.written) :
    path.nodeForm ≠ .ok x.written ↔ x ≠ address := by
  rw [read, ne_eq, Except.ok.injEq, NodeAddress.written_inj, ne_comm, ne_eq]

/-- What is left over because of the first entry, or because of a later one. -/
theorem leftover_cons {u' : Tree} (applied : u.applyEntry (fresh 0) e = .ok u') :
    u.Leftover fresh (e :: log) x ↔
      (e.action = .remove ∧ e.path.nodeForm = .ok x.written ∧
        (∃ child more, u.childrenOf x = some (child :: more)) ∧ Untouched x log) ∨
      u'.Leftover (fun k => fresh (k + 1)) log x := by
  constructor
  · rintro ⟨front, path, back, split, read, children, untouched⟩
    cases front with
    | nil =>
        obtain ⟨rfl, rfl⟩ := List.cons.inj split
        exact .inl ⟨rfl, read, children, untouched⟩
    | cons first front =>
        obtain ⟨rfl, rfl⟩ := List.cons.inj split
        rw [replay_cons applied] at children
        exact .inr ⟨front, path, back, rfl, read, children, untouched⟩
  · rintro (⟨action, read, children, untouched⟩ | ⟨front, path, back, rfl, read, children, untouched⟩)
    · refine ⟨[], e.path, log, ?_, read, children, untouched⟩
      rw [List.nil_append, ← action]
    · refine ⟨e :: front, path, back, rfl, read, ?_, untouched⟩
      rwa [replay_cons applied]

theorem untouched_cons :
    Untouched x (e :: log) ↔
      (e.action ≠ .clean ∧ e.path.nodeForm ≠ .ok x.written) ∧ Untouched x log :=
  List.forall_mem_cons

/-- Between the recorded tree and the one that is being rebuilt: the address will be left over, or
has been and no later entry changes that. -/
def Surplus (t u : Tree) (fresh : ℕ → String) (log : List ReplayEntry) (x : NodeAddress) : Prop :=
  u.Leftover fresh log x ∨ u.Member x ∧ ¬t.Member x ∧ Untouched x log

theorem surplus_add (h : t.Sound fanOut) (h' : u.Sound fanOut')
    (read : path.nodeForm = .ok address.written) :
    Surplus t u fresh (⟨.add, path⟩ :: log) x ↔
      Surplus (t.add address).1 (u.add address).1 (fun k => fresh (k + 1)) log x := by
  rw [Surplus, Surplus, leftover_cons (applyEntry_add (node_of_written read _)),
    untouched_cons, h.member_add, h'.member_add, read_ne_iff read]
  simp only [ne_eq, reduceCtorEq, not_false_eq_true, true_and, false_and, false_or, not_or]
  tauto

theorem surplus_remove (h : t.Sound fanOut) (h' : u.Sound fanOut')
    (read : path.nodeForm = .ok address.written) (gone : (t.remove address).2 = true)
    (here : u.Member address) :
    Surplus t u fresh (⟨.remove, path⟩ :: log) x ↔
      Surplus (t.remove address).1 (u.remove address).1 (fun k => fresh (k + 1)) log x := by
  have same : path.nodeForm = .ok x.written ↔ x = address := not_iff_not.mp (read_ne_iff read)
  rw [Surplus, Surplus, leftover_cons (applyEntry_remove (node_of_written read _)),
    untouched_cons, h.member_remove gone]
  simp only [same, ne_eq, reduceCtorEq, not_false_eq_true, true_and, not_and]
  cases taken : (u.remove address).2 with
  | true =>
      have childless := h'.childrenOf_of_removed taken
      rw [h'.member_remove taken]
      by_cases own : x = address
      · subst own
        simp [childless]
      · simp [own]
  | false =>
      have children := h'.exists_child_of_refused here taken
      rw [fst_remove_of_refused taken]
      by_cases own : x = address
      · subst own
        simp [children, here, or_comm]
      · simp [own]

theorem surplus_clear : Surplus t u fresh (⟨.clean, path⟩ :: log) x ↔
    Surplus t.clear u.clear (fun k => fresh (k + 1)) log x := by
  have applied : u.applyEntry (fresh 0) ⟨.clean, path⟩ = .ok u.clear := rfl
  rw [Surplus, Surplus, leftover_cons applied, untouched_cons]
  simp [not_member_clear]

/-! ### Whole logs -/

theorem Logged.members {ops : List Op} (logged : Logged t ops log) (h : t.Sound fanOut)
    (legible : t.Legible) (new : ∀ address, .add address ∈ ops → address.Legible)
    (h' : u.Sound fanOut') (inside : ∀ x, t.Member x → u.Member x) (fresh : ℕ → String) :
    (u.replay fresh log).2 = .ok () ∧ ∀ x,
      ((u.replay fresh log).1.Member x ↔ (t.run ops).Member x ∨ Surplus t u fresh log x) ∧
      (Surplus t u fresh log x → ¬(t.run ops).Member x) := by
  induction logged generalizing u fresh with
  | @done t =>
      refine ⟨rfl, fun x => ?_⟩
      have nothing : ¬u.Leftover fresh [] x := by
        rintro ⟨front, path, back, split, -⟩
        simp at split
      have untouched : Untouched x [] := nofun
      have here := inside x
      simp only [Surplus, nothing, untouched, replay, run]
      tauto
  | @add t address path ops log placed _ ih =>
      have mine : address.Legible := new address List.mem_cons_self
      have found : (t.add address).1.search address = some path := placed ▸ search_add t address
      have read := (h.add address).2.nodeForm_of_search (legible.add mine) found
      rw [replay_cons (applyEntry_add (node_of_written read _))]
      have inside' : ∀ x, (t.add address).1.Member x → (u.add address).1.Member x := by
        intro x hx
        rw [h.member_add] at hx
        rw [h'.member_add]
        exact hx.imp_right (inside x)
      obtain ⟨ok, members⟩ := ih (h.add address).2 (legible.add mine)
        (fun a ha => new a (List.mem_cons_of_mem _ ha)) (h'.add address).2 inside' _
      exact ⟨ok, fun x => by rw [surplus_add h h' read]; exact members x⟩
  | @remove t address path ops log found gone _ ih =>
      have read := h.nodeForm_of_search legible found
      have here := inside address (member_of_removed gone)
      rw [replay_cons (applyEntry_remove (node_of_written read _))]
      have inside' : ∀ x, (t.remove address).1.Member x → (u.remove address).1.Member x := by
        intro x hx
        rw [h.member_remove gone] at hx
        cases taken : (u.remove address).2 with
        | true => exact (h'.member_remove taken).mpr (hx.imp_right (inside x))
        | false => rw [fst_remove_of_refused taken]; exact inside x hx.2
      obtain ⟨ok, members⟩ := ih (h.remove address).2 (legible.remove address)
        (fun a ha => new a (List.mem_cons_of_mem _ ha)) (h'.remove address).2 inside' _
      exact ⟨ok, fun x => by rw [surplus_remove h h' read gone here]; exact members x⟩
  | @refused t address ops log no _ ih =>
      have same : t.run (.remove address :: ops) = t.run ops :=
        congrArg (run · ops) (fst_remove_of_refused no)
      rw [same]
      exact ih h legible (fun a ha => new a (List.mem_cons_of_mem _ ha)) h' inside fresh
  | @clear t path ops log _ ih =>
      obtain ⟨ok, members⟩ := ih h.clear (Legible.clear t)
        (fun a ha => new a (List.mem_cons_of_mem _ ha)) h'.clear
        (fun x hx => absurd hx (not_member_clear t x)) _
      exact ⟨ok, fun x => by rw [surplus_clear]; exact members x⟩

theorem ofReplay_eq (ok : ((withFanOut fanOut).replay fresh log).2 = .ok ()) :
    ofReplay fanOut fresh log = .ok ((withFanOut fanOut).replay fresh log).1 := by
  unfold ofReplay
  generalize (withFanOut fanOut).replay fresh log = result at ok ⊢
  obtain ⟨u, outcome⟩ := result
  obtain rfl : outcome = .ok () := ok
  rfl

/-- **A log rebuilds the members under any fan-out, but for what is left over.**  Take a run of
additions, removals and clearings in which the added addresses are legible, and the log of what it
did.  Whatever the fan-out, the log is replayed without an error.  The rebuilt tree has all members
of the run's tree and besides them exactly the addresses left over: at their last entry, a removal,
they had children in the tree that was being rebuilt, and it was not cleared after that.  So the
members are the same if and only if no address is left over. -/
theorem ofReplay_members {fanOut : ℕ} {ops : List Op} {log : List ReplayEntry}
    (logged : Logged (withFanOut fanOut) ops log)
    (legible : ∀ address, .add address ∈ ops → address.Legible) (fanOut' : ℕ) (fresh : ℕ → String) :
    ∃ u, ofReplay fanOut' fresh log = .ok u ∧
      (∀ x, u.Member x ↔ ((withFanOut fanOut).run ops).Member x ∨
        (withFanOut fanOut').Leftover fresh log x) ∧
      ∀ x, (withFanOut fanOut').Leftover fresh log x → ¬((withFanOut fanOut).run ops).Member x := by
  have nobody (w : ℕ) (x : NodeAddress) : ¬(withFanOut w).Member x := fun here => here rfl
  obtain ⟨ok, members⟩ := logged.members (sound_withFanOut fanOut) (legible_withFanOut fanOut)
    legible (sound_withFanOut fanOut') (fun x here => absurd here (nobody fanOut x)) fresh
  have surplus (x : NodeAddress) :
      Surplus (withFanOut fanOut) (withFanOut fanOut') fresh log x ↔
        (withFanOut fanOut').Leftover fresh log x := by
    simp [Surplus, nobody]
  refine ⟨_, ofReplay_eq ok, fun x => ?_, fun x left => (members x).2 ((surplus x).mpr left)⟩
  rw [(members x).1, surplus]

/-- A run that takes out a member and places it again before another is taken out. -/
theorem ofReplay_members_of_six_entries :
    let a : NodeAddress := ⟨"a", "h", 1⟩
    let b : NodeAddress := ⟨"b", "h", 2⟩
    let c : NodeAddress := ⟨"c", "h", 3⟩
    let ops : List Op := [.add a, .add b, .add c, .remove b, .add b, .remove c]
    let log : List ReplayEntry := [⟨.add, ⟨"a@h:1"⟩⟩, ⟨.add, ⟨"a@h:1/b@h:2"⟩⟩,
      ⟨.add, ⟨"a@h:1/c@h:3"⟩⟩, ⟨.remove, ⟨"a@h:1/b@h:2"⟩⟩, ⟨.add, ⟨"a@h:1/b@h:2"⟩⟩,
      ⟨.remove, ⟨"a@h:1/c@h:3"⟩⟩]
    Logged (withFanOut 2) ops log ∧ (∀ address, .add address ∈ ops → address.Legible) ∧
      ∃ u, ofReplay 1 toString log = .ok u ∧
        (∀ x, u.Member x ↔ ((withFanOut 2).run ops).Member x ∨
          (withFanOut 1).Leftover toString log x) ∧
        ∀ x, (withFanOut 1).Leftover toString log x → ¬((withFanOut 2).run ops).Member x := by
  intro a b c ops log
  have logged : Logged (withFanOut 2) ops log :=
    .add (by cbv) <| .add (by cbv) <| .add (by cbv) <| .remove (by cbv) (by cbv) <|
      .add (by cbv) <| .remove (by cbv) (by cbv) .done
  have legible : ∀ address, .add address ∈ ops → address.Legible := by
    intro address h
    simp [ops] at h
    rcases h with rfl | rfl | rfl | rfl <;>
      exact ⟨by decide, by decide, by decide, by decide, by decide⟩
  exact ⟨logged, legible, ofReplay_members logged legible 1 toString⟩

/-- Of three members under a fan-out of two, one that has no children is taken out.  Under a fan-out
of one the third member is below it when its removal is replayed, so it is left over. -/
theorem exists_leftover :
    let b : NodeAddress := ⟨"b", "h", 2⟩
    let ops : List Op := [.add ⟨"a", "h", 1⟩, .add b, .add ⟨"c", "h", 3⟩, .remove b]
    let log : List ReplayEntry := [⟨.add, ⟨"a@h:1"⟩⟩, ⟨.add, ⟨"a@h:1/b@h:2"⟩⟩,
      ⟨.add, ⟨"a@h:1/c@h:3"⟩⟩, ⟨.remove, ⟨"a@h:1/b@h:2"⟩⟩]
    Logged (withFanOut 2) ops log ∧ (∀ address, .add address ∈ ops → address.Legible) ∧
      ¬((withFanOut 2).run ops).Member b ∧
      ∃ u, ofReplay 1 toString log = .ok u ∧ u.search b = some ⟨"a@h:1/b@h:2"⟩ := by
  intro b ops log
  have logged : Logged (withFanOut 2) ops log :=
    .add (by cbv) <| .add (by cbv) <| .add (by cbv) <| .remove (by cbv) (by cbv) .done
  have legible : ∀ address, .add address ∈ ops → address.Legible := by
    intro address h
    simp [ops] at h
    rcases h with rfl | rfl | rfl <;> exact ⟨by decide, by decide, by decide, by decide, by decide⟩
  have ok : ((withFanOut 1).replay toString log).2 = .ok () := rfl
  have gone : ((withFanOut 2).run ops).search b = none := by cbv
  have kept : ((withFanOut 1).replay toString log).1.search b = some ⟨"a@h:1/b@h:2"⟩ := by decide +kernel
  exact ⟨logged, legible, fun here => here gone, _, ofReplay_eq ok, kept⟩

end TreeCluster.Tree
