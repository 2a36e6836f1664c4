import TreeCluster.Proofs.Tree.WellFormed

/-! # Changes of one member

An arena changes by one member at a time: a first member (`Arena.plant`), a new last child of a
member (`Arena.attach`) and the loss of a member without children (`Arena.cut`).  Each keeps an
arena well formed, and each says what becomes of the lineages. -/

namespace TreeCluster.Arena

variable {a : Arena}

/-! ### A first member -/

/-- A first member becomes the root. -/
def plant (a : Arena) (address : NodeAddress) : Arena × ℕ :=
  let (a, slot) := a.alloc ⟨address, none, [], 0⟩
  ({ a with root := some slot }, slot)

theorem member?_plant (h : a.FreeList) (address : NodeAddress) (other : ℕ) :
    (a.plant address).1.member? other =
      if other = (a.plant address).2 then some ⟨address, none, [], 0⟩ else a.member? other :=
  h.member?_alloc _ other

theorem Linked.vacant_of_rootless (h : a.Linked) (hr : a.root = none) (slot : ℕ) :
    a.member? slot = none := by
  cases hm : a.member? slot with
  | none => rfl
  | some m =>
      obtain ⟨line, hl⟩ := h.lineage hm
      obtain ⟨above, rfl⟩ := hl.exists_eq_cons
      have last := hl.getLast?_eq
      rw [hr, List.getLast?_eq_none_iff] at last
      cases last

theorem Linked.eq_of_member?_plant (h : a.Linked) (free : a.FreeList) (hr : a.root = none)
    {address : NodeAddress} {slot : ℕ} {m : Member}
    (hm : (a.plant address).1.member? slot = some m) :
    slot = (a.plant address).2 ∧ m = ⟨address, none, [], 0⟩ := by
  rw [member?_plant free] at hm
  split at hm
  · next hs => exact ⟨hs, (Option.some.inj hm).symm⟩
  · rw [h.vacant_of_rootless hr] at hm
    cases hm

theorem Lineage.plant (h : a.FreeList) (address : NodeAddress) :
    (a.plant address).1.Lineage (a.plant address).2 [(a.plant address).2] :=
  .root rfl ((member?_plant h address _).trans (if_pos rfl)) rfl

theorem Linked.plant (h : a.Linked) (free : a.FreeList) (hr : a.root = none)
    (address : NodeAddress) : (a.plant address).1.Linked := by
  have line := Lineage.plant free address
  have only := @Linked.eq_of_member?_plant a h free hr address
  have root : (a.plant address).1.root = some (a.plant address).2 := rfl
  refine ⟨?_, ?_, ?_, ?_⟩
  · intro other m hm notRoot
    exact absurd (root.trans (by rw [(only hm).1])) notRoot
  · intro other m hm child hc
    rw [(only hm).2] at hc
    cases hc
  · intro other hr
    obtain rfl := Option.some.inj (root.symm.trans hr)
    exact ⟨_, (member?_plant free address _).trans (if_pos rfl), rfl⟩
  · intro other m hm
    rw [(only hm).1]
    exact ⟨_, line⟩

theorem WellFormed.plant (h : a.WellFormed) (hr : a.root = none) (address : NodeAddress) :
    (a.plant address).1.WellFormed := by
  have fresh : a.slotOf address = none := by
    rw [Option.eq_none_iff_forall_ne_some]
    intro other ho
    obtain ⟨m, hm, -⟩ := (h.slotOf_iff _ _).mp ho
    rw [h.vacant_of_rootless hr] at hm
    cases hm
  have indexed := h.toIndexed.alloc h.toFreeList (m := ⟨address, none, [], 0⟩) fresh
  have stacked := h.toFreeList.alloc ⟨address, none, [], 0⟩
  exact ⟨h.toLinked.plant h.toFreeList hr address, ⟨indexed.slotOf_iff, indexed.keys⟩,
    ⟨stacked.mem_iff, stacked.nodup⟩⟩

/-! ### A new last child -/

/-- A new member becomes the last child of another one. -/
def attach (a : Arena) (parent : ℕ) (address : NodeAddress) : Arena × ℕ :=
  let (a, slot) := a.alloc ⟨address, some parent, [], 0⟩
  (a.modify parent fun m => { m with children := m.children ++ [slot] }, slot)

/-- A member after a slot has become the last child of `parent`. -/
def joined (parent slot other : ℕ) (m : Member) : Member :=
  { m with children := if other = parent then m.children ++ [slot] else m.children }

section Attach

variable {parent : ℕ} {p : Member} (address : NodeAddress)

theorem member?_attach_slot (h : a.FreeList) :
    a.member? (a.attach parent address).2 = none :=
  h.member?_alloc_slot ⟨address, some parent, [], 0⟩

theorem member?_attach (h : a.FreeList) (hp : a.member? parent = some p) (other : ℕ) :
    (a.attach parent address).1.member? other =
      if other = (a.attach parent address).2 then some ⟨address, some parent, [], 0⟩
      else (a.member? other).map (joined parent (a.attach parent address).2 other) := by
  have vacant := @member?_attach_slot a parent address h
  have found := h.member?_alloc ⟨address, some parent, [], 0⟩
  set slot := (a.attach parent address).2 with place
  have apart : parent ≠ slot := by
    rintro same
    rw [← same, hp] at vacant
    cases vacant
  have step : (a.attach parent address).1 =
      (a.alloc ⟨address, some parent, [], 0⟩).1.modify parent fun m =>
        { m with children := m.children ++ [slot] } := rfl
  have place' : (a.alloc ⟨address, some parent, [], 0⟩).2 = slot := rfl
  rw [step, member?_modify, found, found, place']
  by_cases hs : other = slot
  · simp [hs, Ne.symm apart]
  · by_cases ho : other = parent
    · simp [ho, apart, hp, joined]
    · cases a.member? other with
      | none => simp [hs, ho]
      | some m => simp [hs, ho, joined]

theorem member?_attach_of (h : a.FreeList) (hp : a.member? parent = some p) {other : ℕ}
    {m : Member} (hm : a.member? other = some m) :
    (a.attach parent address).1.member? other =
      some (joined parent (a.attach parent address).2 other m) := by
  rw [member?_attach address h hp, if_neg, hm, Option.map_some]
  rintro rfl
  rw [member?_attach_slot address h] at hm
  cases hm

@[simp] theorem attach_root : (a.attach parent address).1.root = a.root :=
  alloc_root a ⟨address, some parent, [], 0⟩

/-- The others keep their lineages. -/
theorem Lineage.attach (h : a.FreeList) (hp : a.member? parent = some p) {other : ℕ}
    {line : List ℕ} (hl : a.Lineage other line) :
    (a.attach parent address).1.Lineage other line :=
  hl.congr (attach_root address) fun _ _ _ hm => ⟨_, member?_attach_of address h hp hm, rfl⟩

theorem Lineage.attach_slot (h : a.FreeList) (hp : a.member? parent = some p) {line : List ℕ}
    (hl : a.Lineage parent line) :
    (a.attach parent address).1.Lineage (a.attach parent address).2
      ((a.attach parent address).2 :: line) :=
  .step ((member?_attach address h hp _).trans (if_pos rfl)) rfl (hl.attach address h hp)

theorem eq_or_exists_of_member?_attach (h : a.FreeList) (hp : a.member? parent = some p)
    {other : ℕ} {m : Member} (hm : (a.attach parent address).1.member? other = some m) :
    other = (a.attach parent address).2 ∧ m = ⟨address, some parent, [], 0⟩ ∨
      ∃ m₀, a.member? other = some m₀ ∧ m = joined parent (a.attach parent address).2 other m₀ := by
  rw [member?_attach address h hp] at hm
  split at hm
  · next hs => exact .inl ⟨hs, (Option.some.inj hm).symm⟩
  · obtain ⟨m₀, hm₀, rfl⟩ := Option.map_eq_some_iff.mp hm
    exact .inr ⟨m₀, hm₀, rfl⟩

/-- A member is listed as often as before, the new child once by its parent. -/
theorem count_joined (free : a.FreeList) {q other : ℕ} {m : Member} (n : Member)
    (hm : a.member? other = some m) :
    (joined parent (a.attach parent address).2 q n).children.count other =
      n.children.count other := by
  have apart : (a.attach parent address).2 ≠ other := by
    rintro rfl
    rw [member?_attach_slot address free] at hm
    cases hm
  by_cases same : q = parent
  · simp [joined, same, apart]
  · simp [joined, same]

theorem count_joined_slot (h : a.Linked) (free : a.FreeList) (hp : a.member? parent = some p) :
    (joined parent (a.attach parent address).2 parent p).children.count
      (a.attach parent address).2 = 1 := by
  have unlisted : (a.attach parent address).2 ∉ p.children := by
    intro listed
    obtain ⟨c, hc, -⟩ := h.child hp _ listed
    rw [member?_attach_slot address free] at hc
    cases hc
  simp [joined, List.count_append, List.count_eq_zero.mpr unlisted]

theorem Linked.attach (h : a.Linked) (free : a.FreeList) (hp : a.member? parent = some p) :
    (a.attach parent address).1.Linked := by
  have kept := @member?_attach_of a parent p address free hp
  have split := @eq_or_exists_of_member?_attach a parent p address free hp
  have new := (member?_attach address free hp (a.attach parent address).2).trans (if_pos rfl)
  refine ⟨?_, ?_, ?_, ?_⟩
  · intro other m hm hr
    rcases split hm with ⟨rfl, rfl⟩ | ⟨m₀, hm₀, rfl⟩
    · exact ⟨parent, _, rfl, kept hp, count_joined_slot address h free hp⟩
    · rw [attach_root] at hr
      obtain ⟨q, n, hq, hn, once⟩ := h.parent hm₀ hr
      exact ⟨q, _, hq, kept hn, (count_joined address free n hm₀).trans once⟩
  · intro other m hm child hc
    rcases split hm with ⟨rfl, rfl⟩ | ⟨m₀, hm₀, rfl⟩
    · cases hc
    · have old : child ∈ m₀.children →
          ∃ c, (a.attach parent address).1.member? child = some c ∧ c.parent = some other := by
        intro listed
        obtain ⟨c, hc, back⟩ := h.child hm₀ child listed
        exact ⟨_, kept hc, back⟩
      by_cases same : other = parent
      · simp only [joined, same, if_true, List.mem_append, List.mem_singleton] at hc
        rcases hc with hc | rfl
        · exact old hc
        · exact ⟨_, new, same ▸ rfl⟩
      · exact old (by simpa [joined, same] using hc)
  · intro other hr
    obtain ⟨m, hm, none⟩ := h.root ((attach_root address).symm.trans hr)
    exact ⟨_, kept hm, none⟩
  · intro other m hm
    rcases split hm with ⟨rfl, -⟩ | ⟨m₀, hm₀, -⟩
    · obtain ⟨line, hl⟩ := h.lineage hp
      exact ⟨_, hl.attach_slot address free hp⟩
    · obtain ⟨line, hl⟩ := h.lineage hm₀
      exact ⟨line, hl.attach address free hp⟩

theorem WellFormed.attach (h : a.WellFormed) (hp : a.member? parent = some p)
    (fresh : a.slotOf address = none) : (a.attach parent address).1.WellFormed := by
  have indexed := h.toIndexed.alloc h.toFreeList (m := ⟨address, some parent, [], 0⟩) fresh
  have stacked := h.toFreeList.alloc ⟨address, some parent, [], 0⟩
  exact ⟨h.toLinked.attach address h.toFreeList hp, indexed.modify parent fun _ => rfl,
    stacked.modify parent _⟩

end Attach

/-! ### A member less -/

/-- A slot is no longer among the children of `parent`. -/
def disown (a : Arena) (parent : Option ℕ) (slot : ℕ) : Arena :=
  match parent with
  | none => a
  | some parent =>
    a.modify parent fun m => { m with children := m.children.filter (· ≠ slot) }

/-- A member without children is taken out. -/
def cut (a : Arena) (slot : ℕ) (m : Member) : Arena :=
  (a.disown m.parent slot).release slot m.address

/-- A member after a slot has ceased to be a child of `parent`. -/
def parted (parent : Option ℕ) (slot other : ℕ) (m : Member) : Member :=
  { m with children :=
      if parent = some other then m.children.filter (· ≠ slot) else m.children }

theorem member?_disown (parent : Option ℕ) (slot other : ℕ) :
    (a.disown parent slot).member? other =
      (a.member? other).map (parted parent slot other) := by
  cases parent with
  | none =>
      have same : parted none slot other = id := rfl
      rw [same, Option.map_id]
      rfl
  | some parent =>
      rw [disown, member?_modify]
      by_cases ho : other = parent
      · have same : parted (some parent) slot parent =
            fun m => { m with children := m.children.filter (· ≠ slot) } := by
          funext m
          simp [parted]
        rw [if_pos ho, ho, same]
      · cases a.member? other with
        | none => simp [ho]
        | some m => simp [ho, parted, Ne.symm ho]

theorem disown_root (parent : Option ℕ) (slot : ℕ) : (a.disown parent slot).root = a.root := by
  cases parent <;> rfl

theorem FreeList.disown (h : a.FreeList) (parent : Option ℕ) (slot : ℕ) :
    (a.disown parent slot).FreeList := by
  cases parent with
  | none => exact h
  | some parent => exact h.modify parent _

theorem Indexed.disown (h : a.Indexed) (parent : Option ℕ) (slot : ℕ) :
    (a.disown parent slot).Indexed := by
  cases parent with
  | none => exact h
  | some parent => exact h.modify parent fun _ => rfl

theorem FreeList.release (h : a.FreeList) {slot : ℕ} {m : Member} (hm : a.member? slot = some m)
    (address : NodeAddress) : (a.release slot address).FreeList := by
  have size : (a.release slot address).slots.size = a.slots.size := Array.size_setIfInBounds
  constructor
  · intro other
    rw [member?_release, size]
    refine List.mem_cons.trans ?_
    by_cases ho : other = slot
    · simp [ho, lt_of_member? hm]
    · rw [if_neg ho, h.mem_iff]
      simp [ho]
  · refine List.nodup_cons.mpr ⟨?_, h.nodup⟩
    rw [h.mem_iff, hm]
    simp

theorem Indexed.release (h : a.Indexed) {slot : ℕ} {m : Member} (hm : a.member? slot = some m) :
    (a.release slot m.address).Indexed := by
  refine ⟨fun address other => ?_, Table.nodup_keys_erase _ _ h.keys⟩
  have index : (a.release slot m.address).slotOf address =
      if address = m.address then none else a.slotOf address :=
    Table.get?_erase a.index m.address address
  have own := (h.slotOf_iff m.address slot).mpr ⟨m, hm, rfl⟩
  rw [index, member?_release]
  by_cases ha : address = m.address
  · rw [if_pos ha]
    refine iff_of_false nofun ?_
    rintro ⟨n, hn, same⟩
    split at hn
    · cases hn
    · next hs =>
        have there := (h.slotOf_iff m.address other).mpr ⟨n, hn, same.trans ha⟩
        exact hs (Option.some.inj (there.symm.trans own))
  · rw [if_neg ha]
    refine (h.slotOf_iff address other).trans ?_
    by_cases hs : other = slot
    · rw [if_pos hs, hs, hm]
      simpa using Ne.symm ha
    · rw [if_neg hs]

section Cut

variable {slot : ℕ} {m : Member}

theorem member?_cut (m : Member) (other : ℕ) :
    (a.cut slot m).member? other =
      if other = slot then none else (a.member? other).map (parted m.parent slot other) := by
  rw [cut, member?_release, member?_disown]

theorem member?_cut_of {m n : Member} {other : ℕ} (hn : a.member? other = some n)
    (apart : other ≠ slot) :
    (a.cut slot m).member? other = some (parted m.parent slot other n) := by
  rw [member?_cut, if_neg apart, hn, Option.map_some]

theorem exists_of_member?_cut {m n : Member} {other : ℕ}
    (hn : (a.cut slot m).member? other = some n) :
    other ≠ slot ∧ ∃ n₀, a.member? other = some n₀ ∧ n = parted m.parent slot other n₀ := by
  rw [member?_cut] at hn
  split at hn
  · cases hn
  · next hs =>
      obtain ⟨n₀, hn₀, rfl⟩ := Option.map_eq_some_iff.mp hn
      exact ⟨hs, n₀, hn₀, rfl⟩

theorem cut_root : (a.cut slot m).root = if a.root = some slot then none else a.root := by
  have root := disown_root (a := a) m.parent slot
  rw [← root]
  rfl

/-- The others keep their lineages. -/
theorem Lineage.cut (h : a.Linked) (hm : a.member? slot = some m) (leaf : m.children = [])
    {other : ℕ} {line : List ℕ} (hl : a.Lineage other line) (apart : other ≠ slot) :
    (a.cut slot m).Lineage other line := by
  have clear := hl.not_mem_of_childless h hm leaf apart
  have root : (a.cut slot m).root = a.root := by
    rw [cut_root, if_neg]
    exact fun hr => clear (hl.root_mem hr)
  refine hl.congr root fun x hx n hn => ⟨_, member?_cut_of hn ?_, rfl⟩
  rintro rfl
  exact clear hx

theorem root_of_cut {other : ℕ} (hr : (a.cut slot m).root = some other) :
    a.root = some other ∧ other ≠ slot := by
  rw [cut_root] at hr
  split at hr
  · cases hr
  · next stays =>
      refine ⟨hr, ?_⟩
      rintro rfl
      exact stays hr

theorem Linked.cut (h : a.Linked) (hm : a.member? slot = some m) (leaf : m.children = []) :
    (a.cut slot m).Linked := by
  refine ⟨?_, ?_, ?_, ?_⟩
  · intro other n hn hr
    obtain ⟨apart, n₀, hn₀, rfl⟩ := exists_of_member?_cut hn
    have notRoot : a.root ≠ some other := by
      intro same
      rw [cut_root, same] at hr
      simp [apart] at hr
    obtain ⟨q, p, hq, hp, once⟩ := h.parent hn₀ notRoot
    have stays : q ≠ slot := by
      rintro rfl
      obtain rfl := Option.some.inj (hm.symm.trans hp)
      rw [leaf] at once
      cases once
    refine ⟨q, _, hq, member?_cut_of hp stays, ?_⟩
    by_cases same : m.parent = some q
    · rw [parted, if_pos same, List.count_filter (by simpa using apart)]
      exact once
    · rw [parted, if_neg same]
      exact once
  · intro other n hn child hc
    obtain ⟨apart, n₀, hn₀, rfl⟩ := exists_of_member?_cut hn
    have listed : child ∈ n₀.children := by
      simp only [parted] at hc
      split at hc
      · exact List.mem_of_mem_filter hc
      · exact hc
    obtain ⟨c, hc', back⟩ := h.child hn₀ child listed
    refine ⟨_, member?_cut_of hc' ?_, back⟩
    rintro rfl
    obtain rfl := Option.some.inj (hm.symm.trans hc')
    simp [parted, back] at hc
  · intro other hr
    obtain ⟨before, apart⟩ := root_of_cut hr
    obtain ⟨n, hn, none⟩ := h.root before
    exact ⟨_, member?_cut_of hn apart, none⟩
  · intro other n hn
    obtain ⟨apart, n₀, hn₀, -⟩ := exists_of_member?_cut hn
    obtain ⟨line, hl⟩ := h.lineage hn₀
    exact ⟨line, hl.cut h hm leaf apart⟩

theorem WellFormed.cut (h : a.WellFormed) (hm : a.member? slot = some m)
    (leaf : m.children = []) : (a.cut slot m).WellFormed := by
  have hm' : (a.disown m.parent slot).member? slot = some (parted m.parent slot slot m) := by
    rw [member?_disown, hm]
    rfl
  have indexed := (h.toIndexed.disown m.parent slot).release hm'
  have stacked := (h.toFreeList.disown m.parent slot).release hm' m.address
  exact ⟨h.toLinked.cut hm leaf, indexed, stacked⟩

end Cut

end TreeCluster.Arena
