import TreeCluster.Proofs.Tree.Run

/-! # Members before and after a change

The index of a tree changes by one address at a time: placing an address puts it in
(`Arena.insert_index`), taking out a member erases it (`Arena.slotOf_detach`), and the walks over
the slots in between leave it alone.  So an added address is found on the path that it was given
(`Tree.search_add`).

An entry of a log clears the tree, or adds or removes the address that is read from its path
(`Tree.applyEntry_cases`). -/

namespace TreeCluster

namespace Arena

variable {a : Arena}

/-! ### The index -/

theorem descend_index (a : Arena) (fanOut slot fuel : ℕ) :
    (a.descend fanOut slot fuel).1.index = a.index := by
  induction fuel generalizing a slot with
  | zero => rfl
  | succ fuel ih =>
      unfold descend
      cases a.member? slot with
      | none => rfl
      | some m =>
          by_cases room : m.children.length < fanOut
          · simp only [room, if_true]
            rfl
          · simp only [room, if_false]
            cases (a.modify slot fun m => { m with weight := m.weight + 1 }).lightest m.children with
            | none => rfl
            | some child => exact ih _ _

theorem lighten_index (a : Arena) (slot fuel : ℕ) : (a.lighten slot fuel).index = a.index := by
  induction fuel generalizing a slot with
  | zero => rfl
  | succ fuel ih =>
      unfold lighten
      cases a.member? slot with
      | none => rfl
      | some m =>
          cases hp : m.parent with
          | none =>
              simp only [hp]
              rfl
          | some parent =>
              simp only [hp]
              exact ih _ _

/-- The index after a new address is placed. -/
theorem insert_index (a : Arena) (fanOut : ℕ) (address : NodeAddress) :
    (a.insert fanOut address).1.index =
      a.index.insert address (a.insert fanOut address).2 := by
  unfold insert
  cases a.root with
  | none => exact alloc_index a ⟨address, none, [], 0⟩
  | some root =>
      have kept := a.descend_index fanOut root (a.slots.size + 1)
      cases way : a.descend fanOut root (a.slots.size + 1) with
      | mk b parent =>
          rw [way] at kept
          simp only [way, ← kept]
          exact alloc_index b ⟨address, some parent, [], 0⟩

theorem detach_index (a : Arena) (slot : ℕ) (m : Member) :
    (a.detach slot m).index = a.index.erase m.address := by
  unfold detach
  cases m.parent with
  | none => rfl
  | some parent =>
      refine congrArg (Table.erase · m.address) ?_
      exact lighten_index _ _ _

theorem slotOf_detach (a : Arena) (slot : ℕ) (m : Member) (address : NodeAddress) :
    (a.detach slot m).slotOf address = if address = m.address then none else a.slotOf address := by
  rw [slotOf, detach_index]
  exact Table.get?_erase a.index m.address address

/-! ### The addresses on a path -/

theorem exists_of_mem_chainFrom {slot fuel : ℕ} {address : NodeAddress}
    (h : address ∈ a.chainFrom slot fuel) :
    ∃ s m, a.member? s = some m ∧ m.address = address := by
  induction fuel generalizing slot with
  | zero => cases h
  | succ fuel ih =>
      unfold chainFrom at h
      cases hm : a.member? slot with
      | none =>
          rw [hm] at h
          cases h
      | some m =>
          rw [hm] at h
          rcases List.mem_cons.mp h with rfl | above
          · exact ⟨slot, m, hm, rfl⟩
          · cases hp : m.parent with
            | none =>
                rw [hp] at above
                cases above
            | some parent =>
                rw [hp] at above
                exact ih above

theorem exists_ancestry_eq {slot : ℕ} {m : Member} (hm : a.member? slot = some m) :
    ∃ above, a.ancestry slot = above ++ [m.address] := by
  unfold ancestry
  cases hn : a.slots.size with
  | zero =>
      have := lt_of_member? hm
      omega
  | succ size =>
      rw [chainFrom, hm]
      exact ⟨_, List.reverse_cons⟩

end Arena

/-! ### Changes of a tree -/

namespace Tree

variable {t : Tree}

/-- Afterwards the address has a slot, and the path that `add` gives is that of the slot. -/
theorem search_add (t : Tree) (address : NodeAddress) :
    (t.add address).1.search address = some (t.add address).2 := by
  unfold add search
  cases hs : t.arena.slotOf address with
  | some slot => rw [hs]; rfl
  | none =>
      have found : (t.arena.insert t.fanOut address).1.slotOf address =
          some (t.arena.insert t.fanOut address).2 := by
        rw [Arena.slotOf, Arena.insert_index, Table.get?_insert_self]
      simp only [found]
      rfl

theorem fst_remove_of_refused {address : NodeAddress} (h : (t.remove address).2 = false) :
    (t.remove address).1 = t := by
  unfold remove at h ⊢
  cases hs : t.arena.slotOf address with
  | none => rfl
  | some slot =>
      cases hm : t.arena.member? slot with
      | none => simp only [hm]
      | some m =>
          by_cases leaf : m.children = []
          · simp [hs, hm, leaf] at h
          · simp [hm, leaf]

theorem applyEntry_add {fresh : String} {path : NodePath} {address : NodeAddress}
    (read : path.node fresh = .ok address) :
    t.applyEntry fresh ⟨.add, path⟩ = .ok (t.add address).1 := by
  unfold applyEntry
  simp only [read]
  rfl

theorem applyEntry_remove {fresh : String} {path : NodePath} {address : NodeAddress}
    (read : path.node fresh = .ok address) :
    t.applyEntry fresh ⟨.remove, path⟩ = .ok (t.remove address).1 := by
  unfold applyEntry
  simp only [read]
  rfl

theorem replay_cons {fresh : ℕ → String} {e : ReplayEntry} {u : Tree}
    (applied : t.applyEntry (fresh 0) e = .ok u) (rest : List ReplayEntry) :
    t.replay fresh (e :: rest) = u.replay (fun k => fresh (k + 1)) rest := by
  rw [replay, applied]

/-- What an entry of a log does. -/
theorem applyEntry_cases {fresh : String} {e : ReplayEntry} {u : Tree}
    (h : t.applyEntry fresh e = .ok u) :
    (e.action = .clean ∧ u = t.clear) ∨
    (e.action = .add ∧ ∃ y, e.path.node fresh = .ok y ∧ u = (t.add y).1) ∨
    (e.action = .remove ∧ ∃ y, e.path.node fresh = .ok y ∧ u = (t.remove y).1) := by
  unfold applyEntry at h
  cases action : e.action with
  | clean =>
      rw [action] at h
      exact .inl ⟨rfl, (Except.ok.inj h).symm⟩
  | add =>
      simp only [action] at h
      cases read : e.path.node fresh with
      | error cause =>
          rw [read] at h
          cases h
      | ok y =>
          rw [read] at h
          exact .inr (.inl ⟨rfl, y, rfl, (Except.ok.inj h).symm⟩)
  | remove =>
      simp only [action] at h
      cases read : e.path.node fresh with
      | error cause =>
          rw [read] at h
          cases h
      | ok y =>
          rw [read] at h
          exact .inr (.inr ⟨rfl, y, rfl, (Except.ok.inj h).symm⟩)

end Tree
end TreeCluster
