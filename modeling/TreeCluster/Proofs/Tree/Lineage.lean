import Mathlib
import TreeCluster.Tree.Arena

/-! # Lineages

The lineage of a slot is the slot itself, its parent, the parent's parent and so on up to the
root (`Arena.Lineage`).  A slot has at most one (`Lineage.unique`), and no slot comes twice in
it (`Lineage.nodup`), so it is never longer than there are slots.  `Arena.line` computes it with
that much fuel (`Lineage.line_eq`), and more fuel changes nothing (`Lineage.lineFrom_eq`). -/

namespace TreeCluster.Arena

variable {a : Arena}

/-- Following parent links from a slot meets these slots, the last of which is the root. -/
inductive Lineage (a : Arena) : ℕ → List ℕ → Prop
  | root {slot : ℕ} {m : Member} :
      a.root = some slot → a.member? slot = some m → m.parent = none → Lineage a slot [slot]
  | step {slot parent : ℕ} {m : Member} {line : List ℕ} :
      a.member? slot = some m → m.parent = some parent → Lineage a parent line →
        Lineage a slot (slot :: line)

/-- The slots from a slot up to the root, over at most `fuel` slots. -/
def lineFrom (a : Arena) (slot : ℕ) : ℕ → List ℕ
  | 0 => []
  | fuel + 1 =>
    match a.member? slot with
    | none => []
    | some m =>
      slot ::
        match m.parent with
        | none => []
        | some parent => a.lineFrom parent fuel

/-- The slots from a slot up to the root. -/
def line (a : Arena) (slot : ℕ) : List ℕ :=
  a.lineFrom slot a.slots.size

theorem lt_of_member? {slot : ℕ} {m : Member} (h : a.member? slot = some m) :
    slot < a.slots.size := by
  by_contra out
  rw [member?_of_size_le (Nat.not_lt.mp out)] at h
  cases h

/-- There are no more different members than slots. -/
theorem length_le_of_members {slots : List ℕ} (distinct : slots.Nodup)
    (full : ∀ s ∈ slots, ∃ m, a.member? s = some m) : slots.length ≤ a.slots.size := by
  have sub : slots ⊆ List.range a.slots.size := by
    intro s hs
    obtain ⟨m, hm⟩ := full s hs
    exact List.mem_range.mpr (lt_of_member? hm)
  have := (distinct.subperm sub).length_le
  rwa [List.length_range] at this

namespace Lineage

variable {slot : ℕ} {line line' : List ℕ}

theorem exists_eq_cons (h : a.Lineage slot line) : ∃ above, line = slot :: above := by
  cases h with
  | root _ _ _ => exact ⟨[], rfl⟩
  | step _ _ _ => exact ⟨_, rfl⟩

theorem self_mem (h : a.Lineage slot line) : slot ∈ line := by
  obtain ⟨above, rfl⟩ := h.exists_eq_cons
  exact List.mem_cons_self

theorem up (h : a.Lineage slot line) {m : Member} {parent : ℕ} (hm : a.member? slot = some m)
    (hp : m.parent = some parent) : ∃ above, line = slot :: above ∧ a.Lineage parent above := by
  cases h with
  | root _ hm' top =>
      obtain rfl := Option.some.inj (hm.symm.trans hm')
      rw [top] at hp
      cases hp
  | step hm' hp' hl =>
      obtain rfl := Option.some.inj (hm.symm.trans hm')
      obtain rfl := Option.some.inj (hp.symm.trans hp')
      exact ⟨_, rfl, hl⟩

theorem unique (h : a.Lineage slot line) (h' : a.Lineage slot line') : line = line' := by
  induction h generalizing line' with
  | root hr hm hp =>
      cases h' with
      | root _ _ _ => rfl
      | step hm' hp' _ =>
          obtain rfl := Option.some.inj (hm.symm.trans hm')
          rw [hp] at hp'
          cases hp'
  | step hm hp _ ih =>
      obtain ⟨above, rfl, hl⟩ := h'.up hm hp
      rw [ih hl]

theorem suffix (h : a.Lineage slot line) {other : ℕ} (ho : other ∈ line) :
    ∃ rest, a.Lineage other rest ∧ rest <:+ line := by
  induction h with
  | root hr hm hp =>
      obtain rfl := List.mem_singleton.mp ho
      exact ⟨_, .root hr hm hp, List.suffix_rfl⟩
  | step hm hp hl ih =>
      rcases List.mem_cons.mp ho with rfl | ho
      · exact ⟨_, .step hm hp hl, List.suffix_rfl⟩
      · obtain ⟨rest, hr, hs⟩ := ih ho
        exact ⟨rest, hr, hs.trans (List.suffix_cons _ _)⟩

/-- Parent links do not run in a circle. -/
theorem nodup (h : a.Lineage slot line) : line.Nodup := by
  induction h with
  | root _ _ _ => exact List.nodup_singleton _
  | step hm hp hl ih =>
      refine List.nodup_cons.mpr ⟨?_, ih⟩
      intro circle
      obtain ⟨rest, hr, hs⟩ := hl.suffix circle
      rw [hr.unique (.step hm hp hl)] at hs
      have := hs.length_le
      rw [List.length_cons] at this
      omega

theorem exists_member (h : a.Lineage slot line) {other : ℕ} (ho : other ∈ line) :
    ∃ m, a.member? other = some m := by
  obtain ⟨rest, hr, -⟩ := h.suffix ho
  cases hr with
  | root _ hm _ => exact ⟨_, hm⟩
  | step hm _ _ => exact ⟨_, hm⟩

theorem length_le (h : a.Lineage slot line) : line.length ≤ a.slots.size :=
  length_le_of_members h.nodup fun _ => h.exists_member

theorem root_mem (h : a.Lineage slot line) {root : ℕ} (hr : a.root = some root) : root ∈ line := by
  induction h with
  | root hr' _ _ =>
      obtain rfl := Option.some.inj (hr.symm.trans hr')
      exact List.mem_singleton_self _
  | step _ _ _ ih => exact List.mem_cons_of_mem _ ih

theorem getLast?_eq (h : a.Lineage slot line) : line.getLast? = a.root := by
  induction h with
  | root hr _ _ => rw [hr]; rfl
  | step _ _ hl ih =>
      obtain ⟨above, rfl⟩ := hl.exists_eq_cons
      rw [List.getLast?_cons_cons, ih]

theorem lineFrom_eq (h : a.Lineage slot line) {fuel : ℕ} (hf : line.length ≤ fuel) :
    a.lineFrom slot fuel = line := by
  induction h generalizing fuel with
  | root _ hm hp =>
      cases fuel with
      | zero => cases hf
      | succ fuel => simp only [lineFrom, hm, hp]
  | step hm hp _ ih =>
      cases fuel with
      | zero => cases hf
      | succ fuel => simp only [lineFrom, hm, hp, ih (Nat.le_of_succ_le_succ hf)]

theorem line_eq (h : a.Lineage slot line) : a.line slot = line :=
  h.lineFrom_eq h.length_le

/-- A lineage stays one as long as its slots keep their parents. -/
theorem congr {a' : Arena} (h : a.Lineage slot line) (hr : a'.root = a.root)
    (hp : ∀ other ∈ line, ∀ m, a.member? other = some m →
      ∃ m', a'.member? other = some m' ∧ m'.parent = m.parent) :
    a'.Lineage slot line := by
  induction h with
  | root hroot hm hparent =>
      obtain ⟨m', hm', same⟩ := hp _ List.mem_cons_self _ hm
      exact .root (hr.trans hroot) hm' (same.trans hparent)
  | step hm hparent _ ih =>
      obtain ⟨m', hm', same⟩ := hp _ List.mem_cons_self _ hm
      exact .step hm' (same.trans hparent) (ih fun other ho => hp other (List.mem_cons_of_mem _ ho))

end Lineage
end TreeCluster.Arena
