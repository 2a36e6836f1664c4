import TreeCluster.Proofs.Tree.Lineage

/-! # Well-formed arenas

The slots, the root, the index and the stack of vacant slots say the same things more than once.
An arena is well formed if they agree (`Arena.WellFormed`): parents and children name each other
and lead up to the root (`Linked`), the index finds exactly the members (`Indexed`), and the
stack holds exactly the vacant slots (`FreeList`).

Weights play no part in it (`WellFormed.reweigh`).  A vacant slot that is filled is off the
stack and in the index (`FreeList.alloc`, `Indexed.alloc`). -/

namespace TreeCluster.Arena

variable {a : Arena}

/-- Parents and children name each other, and parents lead to the root. -/
structure Linked (a : Arena) : Prop where
  /-- A member other than the root has a parent that lists it exactly once. -/
  parent {slot : ℕ} {m : Member} : a.member? slot = some m → a.root ≠ some slot →
    ∃ parent p, m.parent = some parent ∧ a.member? parent = some p ∧ p.children.count slot = 1
  /-- A child is a member whose parent is the one that lists it. -/
  child {slot : ℕ} {m : Member} : a.member? slot = some m → ∀ child ∈ m.children,
    ∃ c, a.member? child = some c ∧ c.parent = some slot
  /-- The root is a member without a parent. -/
  root {slot : ℕ} : a.root = some slot → ∃ m, a.member? slot = some m ∧ m.parent = none
  /-- Parents lead from every member to the root; so there is a root if there is a member. -/
  lineage {slot : ℕ} {m : Member} : a.member? slot = some m → ∃ line, a.Lineage slot line

/-- The index finds exactly the members, each under its address. -/
structure Indexed (a : Arena) : Prop where
  slotOf_iff (address : NodeAddress) (slot : ℕ) :
    a.slotOf address = some slot ↔ ∃ m, a.member? slot = some m ∧ m.address = address
  keys : a.index.keys.Nodup

/-- The stack holds exactly the vacant slots, each once. -/
structure FreeList (a : Arena) : Prop where
  mem_iff (slot : ℕ) : slot ∈ a.free ↔ slot < a.slots.size ∧ a.member? slot = none
  nodup : a.free.Nodup

/-- All parts of an arena agree. -/
structure WellFormed (a : Arena) : Prop extends Linked a, Indexed a, FreeList a

theorem wellFormed_empty : empty.WellFormed where
  parent h := by cases h
  child h := by cases h
  root h := by cases h
  lineage h := by cases h
  slotOf_iff := by simp [empty, slotOf, member?]
  keys := List.nodup_nil
  mem_iff := by simp [empty]
  nodup := List.nodup_nil

/-! ### Children in a lineage -/

theorem Linked.not_root (h : a.Linked) {slot parent : ℕ} {m : Member}
    (hm : a.member? slot = some m) (hp : m.parent = some parent) : a.root ≠ some slot := by
  intro hr
  obtain ⟨m', hm', none⟩ := h.root hr
  obtain rfl := Option.some.inj (hm.symm.trans hm')
  rw [none] at hp
  cases hp

theorem Linked.count_child (h : a.Linked) {slot child : ℕ} {m c : Member}
    (hm : a.member? slot = some m) (hc : a.member? child = some c)
    (back : c.parent = some slot) : m.children.count child = 1 := by
  obtain ⟨parent, p, hp, hmp, once⟩ := h.parent hc (h.not_root hc back)
  obtain rfl := Option.some.inj (hp.symm.trans back)
  obtain rfl := Option.some.inj (hmp.symm.trans hm)
  exact once

theorem Linked.mem_children_iff (h : a.Linked) {slot child : ℕ} {m c : Member}
    (hm : a.member? slot = some m) (hc : a.member? child = some c) :
    child ∈ m.children ↔ c.parent = some slot := by
  constructor
  · intro listed
    obtain ⟨c', hc', back⟩ := h.child hm child listed
    obtain rfl := Option.some.inj (hc.symm.trans hc')
    exact back
  · intro back
    have once := h.count_child hm hc back
    exact List.count_pos_iff.mp (once ▸ Nat.one_pos)

theorem countP_mem_cons {x : ℕ} {line : List ℕ} (hx : x ∉ line) (slots : List ℕ) :
    slots.countP (· ∈ x :: line) = slots.count x + slots.countP (· ∈ line) := by
  induction slots with
  | nil => rfl
  | cons s slots ih =>
      rw [List.countP_cons, List.countP_cons, List.count_cons, ih]
      by_cases hs : s = x
      · simp [hs, hx]
        omega
      · simp [hs, add_assoc]

/-- A lineage that comes through a slot comes there from exactly one of its children, unless it
starts there. -/
theorem Lineage.countP_children {x : ℕ} {line : List ℕ} (hl : a.Lineage x line) (h : a.Linked)
    {slot : ℕ} {m : Member} (hm : a.member? slot = some m) :
    m.children.countP (· ∈ line) = line.tail.count slot := by
  induction hl with
  | root hr hx hp =>
      rw [List.tail_cons, List.count_nil, List.countP_eq_zero]
      intro child hc
      simp only [List.mem_singleton, decide_eq_true_eq]
      rintro rfl
      rw [h.mem_children_iff hm hx, hp] at hc
      cases hc
  | @step x parent c line hx hp hl ih =>
      have apart : x ∉ line := (List.nodup_cons.mp (Lineage.step hx hp hl).nodup).1
      obtain ⟨above, rfl⟩ := hl.exists_eq_cons
      rw [countP_mem_cons apart, ih, List.tail_cons, List.tail_cons, List.count_cons]
      by_cases hs : parent = slot
      · rw [h.count_child hm hx (hs ▸ hp)]
        simp [hs, add_comm]
      · have stranger : x ∉ m.children := by
          rw [h.mem_children_iff hm hx, hp]
          exact fun same => hs (Option.some.inj same)
        simp [List.count_eq_zero.mpr stranger, hs]

/-- No lineage comes through a member without children, unless it starts there. -/
theorem Lineage.not_mem_of_childless {x : ℕ} {line : List ℕ} (hl : a.Lineage x line)
    (h : a.Linked) {slot : ℕ} {m : Member} (hm : a.member? slot = some m) (leaf : m.children = [])
    (hx : x ≠ slot) : slot ∉ line := by
  have none := hl.countP_children h hm
  obtain ⟨above, rfl⟩ := hl.exists_eq_cons
  rw [leaf, List.countP_nil, List.tail_cons] at none
  rw [List.mem_cons, not_or]
  exact ⟨Ne.symm hx, List.count_eq_zero.mp none.symm⟩

/-! ### Equal arenas -/

theorem slots_ext {a a' : Arena} (size : a.slots.size = a'.slots.size)
    (h : ∀ slot, a.member? slot = a'.member? slot) : a.slots = a'.slots := by
  apply Array.ext size
  intro i hi hi'
  have := h i
  rwa [member?, member?, Array.getElem?_eq_getElem hi, Array.getElem?_eq_getElem hi',
    Option.join_some, Option.join_some] at this

theorem ext_member? {a a' : Arena} (size : a.slots.size = a'.slots.size)
    (h : ∀ slot, a.member? slot = a'.member? slot) (free : a.free = a'.free)
    (root : a.root = a'.root) (index : a.index = a'.index) : a = a' := by
  have slots := slots_ext size h
  cases a
  cases a'
  simp_all

/-! ### Weights -/

/-- The arena with other weights. -/
def reweigh (a : Arena) (w : ℕ → ℕ → ℕ) : Arena :=
  { a with slots := a.slots.mapIdx fun slot =>
      Option.map fun m => { m with weight := w slot m.weight } }

theorem member?_reweigh (a : Arena) (w : ℕ → ℕ → ℕ) (slot : ℕ) :
    (a.reweigh w).member? slot =
      (a.member? slot).map fun m => { m with weight := w slot m.weight } := by
  simp only [member?, reweigh, Array.getElem?_mapIdx]
  cases a.slots[slot]? with
  | none => rfl
  | some o => rfl

@[simp] theorem size_reweigh (a : Arena) (w : ℕ → ℕ → ℕ) :
    (a.reweigh w).slots.size = a.slots.size := by
  simp [reweigh]

theorem exists_of_member?_reweigh {w : ℕ → ℕ → ℕ} {slot : ℕ} {m : Member}
    (h : (a.reweigh w).member? slot = some m) :
    ∃ m₀, a.member? slot = some m₀ ∧ m = { m₀ with weight := w slot m₀.weight } := by
  rw [member?_reweigh] at h
  obtain ⟨m₀, hm, rfl⟩ := Option.map_eq_some_iff.mp h
  exact ⟨m₀, hm, rfl⟩

theorem member?_reweigh_of {w : ℕ → ℕ → ℕ} {slot : ℕ} {m : Member} (h : a.member? slot = some m) :
    (a.reweigh w).member? slot = some { m with weight := w slot m.weight } := by
  rw [member?_reweigh, h]
  rfl

theorem Lineage.reweigh {slot : ℕ} {line : List ℕ} (h : a.Lineage slot line) (w : ℕ → ℕ → ℕ) :
    (a.reweigh w).Lineage slot line :=
  h.congr rfl fun _ _ _ hm => ⟨_, member?_reweigh_of hm, rfl⟩

theorem WellFormed.reweigh (h : a.WellFormed) (w : ℕ → ℕ → ℕ) : (a.reweigh w).WellFormed where
  parent hm hr := by
    obtain ⟨m₀, hm₀, rfl⟩ := exists_of_member?_reweigh hm
    obtain ⟨parent, p, hp, hmp, once⟩ := h.parent hm₀ hr
    exact ⟨parent, _, hp, member?_reweigh_of hmp, once⟩
  child hm child hc := by
    obtain ⟨m₀, hm₀, rfl⟩ := exists_of_member?_reweigh hm
    obtain ⟨c, hmc, back⟩ := h.child hm₀ child hc
    exact ⟨_, member?_reweigh_of hmc, back⟩
  root hr := by
    obtain ⟨m, hm, hp⟩ := h.root hr
    exact ⟨_, member?_reweigh_of hm, hp⟩
  lineage hm := by
    obtain ⟨m₀, hm₀, rfl⟩ := exists_of_member?_reweigh hm
    obtain ⟨line, hl⟩ := h.lineage hm₀
    exact ⟨line, hl.reweigh w⟩
  slotOf_iff address slot := by
    rw [member?_reweigh]
    refine (h.slotOf_iff address slot).trans ?_
    simp
  keys := h.keys
  mem_iff slot := by
    rw [member?_reweigh, size_reweigh, Option.map_eq_none_iff]
    exact h.mem_iff slot
  nodup := h.nodup

/-! ### New members -/

theorem FreeList.member?_alloc_slot (h : a.FreeList) (m : Member) :
    a.member? (a.alloc m).2 = none := by
  obtain ⟨slots, free, root, index⟩ := a
  cases free with
  | nil => exact member?_of_size_le (Nat.le_refl slots.size)
  | cons slot free => exact ((h.mem_iff _).mp List.mem_cons_self).2

theorem FreeList.member?_alloc (h : a.FreeList) (m : Member) (other : ℕ) :
    (a.alloc m).1.member? other = if other = (a.alloc m).2 then some m else a.member? other :=
  Arena.member?_alloc a m (fun _ hs => ((h.mem_iff _).mp hs).1) other

theorem FreeList.alloc (h : a.FreeList) (m : Member) : (a.alloc m).1.FreeList := by
  have found := h.member?_alloc m
  obtain ⟨slots, free, root, index⟩ := a
  cases free with
  | nil =>
      have place : (Arena.alloc ⟨slots, [], root, index⟩ m).2 = slots.size := rfl
      have size : (Arena.alloc ⟨slots, [], root, index⟩ m).1.slots.size = slots.size + 1 :=
        Array.size_push _
      refine ⟨fun slot => ?_, List.nodup_nil⟩
      have full := h.mem_iff slot
      rw [found, size, place]
      simp only [List.not_mem_nil, false_iff] at full
      simp only [Arena.alloc, List.not_mem_nil, false_iff, not_and]
      intro hs
      by_cases last : slot = slots.size
      · simp [last]
      · rw [if_neg last]
        exact fun vacant => full ⟨Nat.lt_of_le_of_ne (Nat.le_of_lt_succ hs) last, vacant⟩
  | cons first free =>
      have place : (Arena.alloc ⟨slots, first :: free, root, index⟩ m).2 = first := rfl
      have size : (Arena.alloc ⟨slots, first :: free, root, index⟩ m).1.slots.size = slots.size :=
        Array.size_setIfInBounds
      have fresh := List.nodup_cons.mp h.nodup
      refine ⟨fun slot => ?_, fresh.2⟩
      have rest := h.mem_iff slot
      rw [found, size, place]
      simp only [Arena.alloc]
      by_cases hs : slot = first
      · simp [hs, fresh.1]
      · rw [if_neg hs]
        refine Iff.trans ?_ rest
        simp [hs]

theorem Indexed.alloc (h : a.Indexed) (free : a.FreeList) {m : Member}
    (fresh : a.slotOf m.address = none) : (a.alloc m).1.Indexed := by
  have vacant := free.member?_alloc_slot m
  constructor
  · intro address slot
    rw [free.member?_alloc, slotOf, alloc_index, Table.get?_insert]
    by_cases ha : address = m.address
    · rw [if_pos ha]
      constructor
      · rintro ⟨rfl⟩
        exact ⟨m, if_pos rfl, ha.symm⟩
      · rintro ⟨m', hm, hm'⟩
        split at hm
        · next hs => rw [hs]
        · have := (h.slotOf_iff _ _).mpr ⟨m', hm, hm'.trans ha⟩
          rw [fresh] at this
          cases this
    · rw [if_neg ha]
      refine (h.slotOf_iff address slot).trans ?_
      by_cases hs : slot = (a.alloc m).2
      · rw [if_pos hs, hs, vacant]
        simpa using Ne.symm ha
      · rw [if_neg hs]
  · rw [alloc_index]
    exact Table.nodup_keys_insert _ _ _ h.keys

theorem FreeList.modify (h : a.FreeList) (slot : ℕ) (f : Member → Member) :
    (a.modify slot f).FreeList := by
  refine ⟨fun other => ?_, h.nodup⟩
  have size : (a.modify slot f).slots.size = a.slots.size := Array.size_modify
  rw [member?_modify, size]
  refine (h.mem_iff other).trans ?_
  by_cases ho : other = slot
  · rw [if_pos ho, Option.map_eq_none_iff, ho]
  · rw [if_neg ho]

theorem Indexed.modify (h : a.Indexed) (slot : ℕ) {f : Member → Member}
    (same : ∀ m, (f m).address = m.address) : (a.modify slot f).Indexed := by
  refine ⟨fun address other => ?_, h.keys⟩
  rw [member?_modify]
  refine (h.slotOf_iff address other).trans ?_
  by_cases ho : other = slot
  · rw [if_pos ho, ho]
    simp [same]
  · rw [if_neg ho]

end TreeCluster.Arena
