import TreeCluster.Proofs.Tree.Checked

/-! # Walks

A walk from the root offers the slots in pre-order, a parent before its children and these in
order, each with its height (`Arena.Preorder`), until a visit says to stop
(`Arena.walk_eq_visitAll`).

Whatever a walk has seen and whatever waits on its stack, each member either has been seen once
or has exactly one waiting slot in its lineage (`Arena.Pending`).  So the walk ends, meets no slot
without a member, and in the end has met each member exactly once
(`WellFormed.checked_preorder`). -/

namespace TreeCluster.Arena

variable {a : Arena}

/-- The slots met when some slots with their heights are met one after the other, each followed by
those below it. -/
inductive Preorder (a : Arena) : List (ℕ × ℕ) → List (ℕ × ℕ) → Prop
  | nil : Preorder a [] []
  | cons {slot height : ℕ} {m : Member} {rest below after : List (ℕ × ℕ)} :
      a.member? slot = some m → Preorder a (m.children.map (·, height + 1)) below →
        Preorder a rest after →
          Preorder a ((slot, height) :: rest) ((slot, height) :: (below ++ after))

/-- Visits slots in order until a visit says to stop; the slot where it stopped. -/
def visitAll {m : Type → Type} [Monad m] (visit : ℕ → ℕ → m Bool) :
    List (ℕ × ℕ) → m (Option ℕ)
  | [] => pure none
  | (slot, height) :: rest => do
    if ← visit height slot then return some slot
    visitAll visit rest

namespace Checked

/-- The slots that are met from a stack on. -/
def visits (a : Arena) : List (ℕ × ℕ) → ℕ → Except Fault (List (ℕ × ℕ))
  | [], _ => .ok []
  | _ :: _, 0 => .error .endless
  | (slot, height) :: stack, fuel + 1 => do
    let m ← member a slot
    let rest ← visits a (m.children.map (·, height + 1) ++ stack) fuel
    return (slot, height) :: rest

/-- The slots that are met from the root on. -/
def preorder (a : Arena) : Except Fault (List (ℕ × ℕ)) :=
  visits a (a.root.toList.map (·, 0)) (a.slots.size + 1)

end Checked

/-! ### What a walk offers -/

theorem exists_of_visits {slot height fuel : ℕ} {stack order : List (ℕ × ℕ)}
    (h : Checked.visits a ((slot, height) :: stack) (fuel + 1) = .ok order) :
    ∃ m rest, a.member? slot = some m ∧
      Checked.visits a (m.children.map (·, height + 1) ++ stack) fuel = .ok rest ∧
      order = (slot, height) :: rest := by
  unfold Checked.visits at h
  cases hm : a.member? slot with
  | none =>
      simp only [Checked.member, hm] at h
      cases h
  | some m =>
      simp only [Checked.member_of hm, Checked.ok_bind] at h
      cases hr : Checked.visits a (m.children.map (·, height + 1) ++ stack) fuel with
      | error fault =>
          rw [hr] at h
          cases h
      | ok rest =>
          rw [hr] at h
          exact ⟨m, rest, rfl, hr, (Except.ok.inj h).symm⟩

theorem walkStack_eq_visitAll {m : Type → Type} [Monad m] (visit : ℕ → ℕ → m Bool) {fuel : ℕ}
    {stack order : List (ℕ × ℕ)} (h : Checked.visits a stack fuel = .ok order) :
    a.walkStack visit stack fuel = visitAll visit order := by
  induction fuel generalizing stack order with
  | zero =>
      cases stack with
      | nil =>
          obtain rfl := Except.ok.inj h
          rfl
      | cons e stack => cases h
  | succ fuel ih =>
      cases stack with
      | nil =>
          obtain rfl := Except.ok.inj h
          rfl
      | cons e stack =>
          obtain ⟨slot, height⟩ := e
          obtain ⟨m, rest, hm, hr, rfl⟩ := exists_of_visits h
          unfold walkStack visitAll
          simp only [hm, ih hr]

/-- A walk visits the slots of its pre-order, up to the first at which it is told to stop. -/
theorem walk_eq_visitAll {m : Type → Type} [Monad m] (visit : ℕ → ℕ → m Bool)
    {order : List (ℕ × ℕ)} (h : Checked.preorder a = .ok order) :
    a.walk visit = visitAll visit order := by
  unfold Checked.preorder at h
  unfold walk
  cases hr : a.root with
  | none =>
      rw [hr] at h
      obtain rfl := Except.ok.inj h
      rfl
  | some root =>
      rw [hr] at h
      exact walkStack_eq_visitAll visit h

theorem Preorder.exists_of_append {first second order : List (ℕ × ℕ)}
    (h : a.Preorder (first ++ second) order) :
    ∃ before after, order = before ++ after ∧ a.Preorder first before ∧
      a.Preorder second after := by
  induction first generalizing order with
  | nil => exact ⟨[], order, rfl, .nil, h⟩
  | cons e first ih =>
      cases h with
      | cons hm hb hr =>
          obtain ⟨before, after, rfl, h₁, h₂⟩ := ih hr
          refine ⟨_, after, ?_, .cons hm hb h₁, h₂⟩
          rw [List.cons_append, List.append_assoc]

theorem preorder_of_visits {fuel : ℕ} {stack order : List (ℕ × ℕ)}
    (h : Checked.visits a stack fuel = .ok order) : a.Preorder stack order := by
  induction fuel generalizing stack order with
  | zero =>
      cases stack with
      | nil =>
          obtain rfl := Except.ok.inj h
          exact .nil
      | cons e stack => cases h
  | succ fuel ih =>
      cases stack with
      | nil =>
          obtain rfl := Except.ok.inj h
          exact .nil
      | cons e stack =>
          obtain ⟨slot, height⟩ := e
          obtain ⟨m, rest, hm, hr, rfl⟩ := exists_of_visits h
          obtain ⟨below, after, rfl, hb, ha⟩ := (ih hr).exists_of_append
          exact .cons hm hb ha

/-! ### Each member exactly once -/

/-- What holds between the slots seen so far and those that wait on the stack. -/
structure Pending (a : Arena) (seen : List ℕ) (stack : List (ℕ × ℕ)) : Prop where
  met {x : ℕ} : x ∈ seen → ∃ m, a.member? x = some m
  waiting {e : ℕ × ℕ} : e ∈ stack → ∃ m, a.member? e.1 = some m
  /-- A member has been seen, or one slot of its lineage waits. -/
  once {x : ℕ} {line : List ℕ} : a.Lineage x line →
    seen.count x + stack.countP (fun e => e.1 ∈ line) = 1

theorem WellFormed.pending_start (h : a.WellFormed) :
    a.Pending [] (a.root.toList.map (·, 0)) := by
  refine ⟨nofun, ?_, ?_⟩
  · intro e he
    obtain ⟨root, hr, rfl⟩ := List.mem_map.mp he
    obtain ⟨m, hm, -⟩ := h.root (Option.mem_toList.mp hr)
    exact ⟨m, hm⟩
  · intro x line hl
    cases hr : a.root with
    | none =>
        obtain ⟨m, hm⟩ := hl.exists_member hl.self_mem
        rw [h.vacant_of_rootless hr] at hm
        cases hm
    | some root => simp [hl.root_mem hr]

variable {seen : List ℕ} {stack : List (ℕ × ℕ)}

theorem Pending.length_le (h : a.WellFormed) (hp : a.Pending seen stack) :
    seen.length ≤ a.slots.size := by
  have distinct : seen.Nodup := by
    rw [List.nodup_iff_count_le_one]
    intro x
    by_cases hx : x ∈ seen
    · obtain ⟨m, hm⟩ := hp.met hx
      obtain ⟨line, hl⟩ := h.lineage hm
      have := hp.once hl
      omega
    · rw [List.count_eq_zero.mpr hx]
      exact Nat.zero_le 1
  exact length_le_of_members distinct fun _ => hp.met

/-- A slot goes from the stack to those seen, and its children take its place. -/
theorem Pending.step (h : a.WellFormed) {slot height : ℕ} {m : Member}
    (hm : a.member? slot = some m) (hp : a.Pending seen ((slot, height) :: stack)) :
    a.Pending (seen ++ [slot]) (m.children.map (·, height + 1) ++ stack) := by
  refine ⟨?_, ?_, ?_⟩
  · intro x hx
    rcases List.mem_append.mp hx with hx | hx
    · exact hp.met hx
    · obtain rfl := List.mem_singleton.mp hx
      exact ⟨m, hm⟩
  · intro e he
    rcases List.mem_append.mp he with he | he
    · obtain ⟨child, hc, rfl⟩ := List.mem_map.mp he
      obtain ⟨c, hc', -⟩ := h.child hm child hc
      exact ⟨c, hc'⟩
    · exact hp.waiting (List.mem_cons_of_mem _ he)
  · intro x line hl
    have before := hp.once hl
    have children := hl.countP_children h.toLinked hm
    have distinct := hl.nodup
    obtain ⟨above, rfl⟩ := hl.exists_eq_cons
    -- the slot stands for itself and for what comes through its children
    have place : (if slot ∈ x :: above then 1 else 0) =
        (if x = slot then 1 else 0) + above.count slot := by
      rw [← List.Nodup.count (a := slot) distinct, List.count_cons]
      simp [add_comm]
    rw [List.countP_cons] at before
    rw [List.count_append, List.countP_append, List.countP_map]
    simp only [Function.comp_def, List.count_singleton, decide_eq_true_eq, beq_iff_eq,
      List.tail_cons] at before children ⊢
    simp only [eq_comm (a := slot) (b := x)] at *
    omega

theorem Pending.checked_visits (h : a.WellFormed) (hp : a.Pending seen stack) (fuel : ℕ)
    (hf : a.slots.size + 1 ≤ fuel + seen.length) :
    ∃ order, Checked.visits a stack fuel = .ok order ∧
      a.Pending (seen ++ order.map Prod.fst) [] := by
  induction fuel generalizing seen stack with
  | zero =>
      have := hp.length_le h
      omega
  | succ fuel ih =>
      cases stack with
      | nil => exact ⟨[], rfl, by simpa using hp⟩
      | cons e stack =>
          obtain ⟨slot, height⟩ := e
          obtain ⟨m, hm⟩ := hp.waiting List.mem_cons_self
          obtain ⟨order, ok, rest⟩ := ih (hp.step h hm) (by
            rw [List.length_append, List.length_singleton]
            omega)
          refine ⟨(slot, height) :: order, ?_, by simpa using rest⟩
          unfold Checked.visits
          rw [Checked.member_of hm, Checked.ok_bind, ok]
          rfl

/-- A walk from the root ends and meets each member exactly once. -/
theorem WellFormed.checked_preorder (h : a.WellFormed) :
    ∃ order, Checked.preorder a = .ok order ∧ a.Preorder (a.root.toList.map (·, 0)) order ∧
      (order.map Prod.fst).Nodup ∧
      ∀ slot, slot ∈ order.map Prod.fst ↔ ∃ m, a.member? slot = some m := by
  obtain ⟨order, ok, done⟩ := h.pending_start.checked_visits h (a.slots.size + 1) (by simp)
  rw [List.nil_append] at done
  have met : ∀ {slot line}, a.Lineage slot line → (order.map Prod.fst).count slot = 1 :=
    fun hl => done.once hl
  refine ⟨order, ok, preorder_of_visits ok, ?_, ?_⟩
  · rw [List.nodup_iff_count_le_one]
    intro slot
    by_cases hs : slot ∈ order.map Prod.fst
    · obtain ⟨m, hm⟩ := done.met hs
      obtain ⟨line, hl⟩ := h.lineage hm
      rw [met hl]
    · rw [List.count_eq_zero.mpr hs]
      exact Nat.zero_le 1
  · intro slot
    refine ⟨done.met, ?_⟩
    rintro ⟨m, hm⟩
    obtain ⟨line, hl⟩ := h.lineage hm
    exact List.count_pos_iff.mp (met hl ▸ Nat.one_pos)

end TreeCluster.Arena
