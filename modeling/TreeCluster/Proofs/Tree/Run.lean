import TreeCluster.Proofs.Tree.Walk
import TreeCluster.Replay

/-! # Runs of a tree

A tree is built by adding and removing addresses, by clearing it and by replaying logs
(`Tree.Op`).  A run applies such operations one after the other (`Tree.run`).

Each keeps the arena sound (`Tree.Sound`, `Sound.apply`), so its parts agree after every run from
a tree without members, and the checked operations, which report whatever they run into, succeed
all along (`run_wellFormed`). -/

namespace TreeCluster.Tree

/-- A change of a tree. -/
inductive Op where
  | add (address : NodeAddress)
  | remove (address : NodeAddress)
  | clear
  /-- Applies log entries up to the first without an address, with the names drawn for them. -/
  | replay (fresh : ℕ → String) (entries : List ReplayEntry)

/-- The tree after a change. -/
def apply (t : Tree) : Op → Tree
  | .add address => (t.add address).1
  | .remove address => (t.remove address).1
  | .clear => t.clear
  | .replay fresh entries => (t.replay fresh entries).1

/-- The tree after changes in order. -/
def run (t : Tree) : List Op → Tree
  | [] => t
  | op :: ops => (t.apply op).run ops

namespace Checked

open Arena.Checked (member)

/-- The path of the member in a slot. -/
def pathOf (t : Tree) (slot : ℕ) : Except Fault NodePath := do
  let chain ← Arena.Checked.chainFrom t.arena slot t.arena.slots.size
  return .ofAddresses chain.reverse

/-- Places an address, unless it is there; gives its path. -/
def add (t : Tree) (address : NodeAddress) : Except Fault (Tree × NodePath) :=
  match t.arena.slotOf address with
  | some slot => do
    let path ← pathOf t slot
    return (t, path)
  | none => do
    let (arena, slot) ← Arena.Checked.insert t.arena t.fanOut address
    let t := { t with arena := arena }
    let path ← pathOf t slot
    return ({ t with lastAdded := some path }, path)

/-- Takes out a member without children; also says whether it did. -/
def remove (t : Tree) (address : NodeAddress) : Except Fault (Tree × Bool) :=
  match t.arena.slotOf address with
  | none => return (t, false)
  | some slot => do
    let m ← member t.arena slot
    if m.children ≠ [] then return (t, false)
    let path ← pathOf t slot
    let arena ← Arena.Checked.detach t.arena slot m
    return ({ t with arena := arena, lastRemoved := some path }, true)

/-- Applies one entry of a log. -/
def applyEntry (t : Tree) (fresh : String) (e : ReplayEntry) :
    Except Fault (Except AddressError Tree) :=
  match e.action, e.path.node fresh with
  | .clean, _ => return .ok t.clear
  | _, .error cause => return .error cause
  | .add, .ok address => do
    let (t, _) ← add t address
    return .ok t
  | .remove, .ok address => do
    let (t, _) ← remove t address
    return .ok t

/-- Applies entries in order up to the first whose path holds no address. -/
def replay (t : Tree) (fresh : ℕ → String) :
    List ReplayEntry → Except Fault (Tree × Except AddressError Unit)
  | [] => return (t, .ok ())
  | e :: rest => do
    let result ← applyEntry t (fresh 0) e
    match result with
    | .error cause => return (t, .error cause)
    | .ok t => replay t (fun k => fresh (k + 1)) rest

/-- The tree after a change. -/
def apply (t : Tree) : Op → Except Fault Tree
  | .add address => do
    let (t, _) ← add t address
    return t
  | .remove address => do
    let (t, _) ← remove t address
    return t
  | .clear => return t.clear
  | .replay fresh entries => do
    let (t, _) ← replay t fresh entries
    return t

/-- The tree after changes in order. -/
def run (t : Tree) : List Op → Except Fault Tree
  | [] => return t
  | op :: ops => do
    let t ← apply t op
    run t ops

/-- The path of a member. -/
def search (t : Tree) (address : NodeAddress) : Except Fault (Option NodePath) :=
  match t.arena.slotOf address with
  | none => return none
  | some slot => do
    let path ← pathOf t slot
    return some path

/-- The path of the root. -/
def root (t : Tree) : Except Fault (Option NodePath) :=
  match t.arena.root with
  | none => return none
  | some slot => do
    let path ← pathOf t slot
    return some path

/-- The paths of a member's children. -/
def childrenOf (t : Tree) (address : NodeAddress) : Except Fault (Option (List NodePath)) :=
  match t.arena.slotOf address with
  | none => return none
  | some slot => do
    let m ← member t.arena slot
    let paths ← m.children.mapM (pathOf t)
    return some paths

/-- The number of members below a member. -/
def weightOf (t : Tree) (address : NodeAddress) : Except Fault (Option ℕ) :=
  match t.arena.slotOf address with
  | none => return none
  | some slot => do
    let m ← member t.arena slot
    return some m.weight

end Checked

/-! ### Soundness -/

/-- The arena is sound for the fan-out, which is as given and leaves room for a child. -/
structure Sound (fanOut : ℕ) (t : Tree) : Prop where
  arena : t.arena.Sound t.fanOut
  fanOut_eq : t.fanOut = fanOut
  pos : 0 < t.fanOut

variable {fanOut : ℕ} {t : Tree}

theorem sound_withFanOut (fanOut : ℕ) : (withFanOut fanOut).Sound (max fanOut 1) :=
  ⟨Arena.sound_empty, rfl, Nat.le_max_right fanOut 1⟩

theorem checked_pathOf {slot : ℕ} {line : List ℕ} (hl : t.arena.Lineage slot line) :
    Checked.pathOf t slot = .ok (t.pathOf slot) := by
  unfold Checked.pathOf
  rw [hl.checked_chainFrom hl.length_le]
  rfl

theorem Sound.checked_pathOf_member (h : t.Sound fanOut) {slot : ℕ} {m : Member}
    (hm : t.arena.member? slot = some m) : Checked.pathOf t slot = .ok (t.pathOf slot) := by
  obtain ⟨line, hl⟩ := h.arena.lineage hm
  exact checked_pathOf hl

theorem Sound.exists_of_slotOf (h : t.Sound fanOut) {address : NodeAddress} {slot : ℕ}
    (hs : t.arena.slotOf address = some slot) :
    ∃ m, t.arena.member? slot = some m ∧ m.address = address :=
  (h.arena.slotOf_iff address slot).mp hs

theorem Sound.add (h : t.Sound fanOut) (address : NodeAddress) :
    Checked.add t address = .ok (t.add address) ∧ (t.add address).1.Sound fanOut := by
  unfold Checked.add Tree.add
  cases hs : t.arena.slotOf address with
  | some slot =>
      obtain ⟨m, hm, -⟩ := h.exists_of_slotOf hs
      simp only [h.checked_pathOf_member hm, Arena.Checked.ok_bind]
      exact ⟨rfl, h⟩
  | none =>
      obtain ⟨checked, sound, line, hl⟩ := h.arena.checked_insert h.pos hs
      simp only [checked, Arena.Checked.ok_bind]
      rw [checked_pathOf (t := { t with arena := (t.arena.insert t.fanOut address).1 }) hl]
      exact ⟨rfl, sound, h.fanOut_eq, h.pos⟩

theorem Sound.remove (h : t.Sound fanOut) (address : NodeAddress) :
    Checked.remove t address = .ok (t.remove address) ∧ (t.remove address).1.Sound fanOut := by
  unfold Checked.remove Tree.remove
  cases hs : t.arena.slotOf address with
  | none => exact ⟨rfl, h⟩
  | some slot =>
      obtain ⟨m, hm, -⟩ := h.exists_of_slotOf hs
      simp only [hm, Arena.Checked.member_of hm, Arena.Checked.ok_bind]
      by_cases leaf : m.children = []
      · obtain ⟨checked, sound⟩ := h.arena.checked_detach hm leaf
        simp only [leaf, h.checked_pathOf_member hm, checked, Arena.Checked.ok_bind]
        exact ⟨rfl, sound, h.fanOut_eq, h.pos⟩
      · simp only [ne_eq, leaf, not_false_eq_true, if_true]
        exact ⟨rfl, h⟩

theorem Sound.clear (h : t.Sound fanOut) : t.clear.Sound fanOut :=
  ⟨Arena.sound_empty, h.fanOut_eq, h.pos⟩

theorem Sound.applyEntry (h : t.Sound fanOut) (fresh : String) (e : ReplayEntry) :
    Checked.applyEntry t fresh e = .ok (t.applyEntry fresh e) ∧
      ∀ t', t.applyEntry fresh e = .ok t' → t'.Sound fanOut := by
  unfold Checked.applyEntry Tree.applyEntry
  cases e.action with
  | clean =>
      refine ⟨rfl, fun t' ht => ?_⟩
      obtain rfl := Except.ok.inj ht
      exact h.clear
  | add =>
      cases e.path.node fresh with
      | error cause => exact ⟨rfl, nofun⟩
      | ok address =>
          obtain ⟨checked, sound⟩ := h.add address
          simp only [checked, Arena.Checked.ok_bind]
          refine ⟨rfl, fun t' ht => ?_⟩
          obtain rfl := Except.ok.inj ht
          exact sound
  | remove =>
      cases e.path.node fresh with
      | error cause => exact ⟨rfl, nofun⟩
      | ok address =>
          obtain ⟨checked, sound⟩ := h.remove address
          simp only [checked, Arena.Checked.ok_bind]
          refine ⟨rfl, fun t' ht => ?_⟩
          obtain rfl := Except.ok.inj ht
          exact sound

theorem Sound.replay (h : t.Sound fanOut) (fresh : ℕ → String) (entries : List ReplayEntry) :
    Checked.replay t fresh entries = .ok (t.replay fresh entries) ∧
      (t.replay fresh entries).1.Sound fanOut := by
  induction entries generalizing t fresh with
  | nil => exact ⟨rfl, h⟩
  | cons e rest ih =>
      obtain ⟨checked, sound⟩ := h.applyEntry (fresh 0) e
      unfold Checked.replay Tree.replay
      simp only [checked, Arena.Checked.ok_bind]
      cases he : t.applyEntry (fresh 0) e with
      | error cause => exact ⟨rfl, h⟩
      | ok t' => exact ih (sound t' he) _

/-- Every change keeps a tree sound and runs into no fault. -/
theorem Sound.apply (h : t.Sound fanOut) (op : Op) :
    Checked.apply t op = .ok (t.apply op) ∧ (t.apply op).Sound fanOut := by
  cases op with
  | add address =>
      obtain ⟨checked, sound⟩ := h.add address
      simp only [Checked.apply, checked, Arena.Checked.ok_bind]
      exact ⟨rfl, sound⟩
  | remove address =>
      obtain ⟨checked, sound⟩ := h.remove address
      simp only [Checked.apply, checked, Arena.Checked.ok_bind]
      exact ⟨rfl, sound⟩
  | clear => exact ⟨rfl, h.clear⟩
  | replay fresh entries =>
      obtain ⟨checked, sound⟩ := h.replay fresh entries
      simp only [Checked.apply, checked, Arena.Checked.ok_bind]
      exact ⟨rfl, sound⟩

theorem Sound.run (h : t.Sound fanOut) (ops : List Op) :
    Checked.run t ops = .ok (t.run ops) ∧ (t.run ops).Sound fanOut := by
  induction ops generalizing t with
  | nil => exact ⟨rfl, h⟩
  | cons op ops ih =>
      obtain ⟨checked, sound⟩ := h.apply op
      unfold Checked.run Tree.run
      rw [checked]
      exact ih sound

/-! ### Queries -/

theorem Sound.checked_search (h : t.Sound fanOut) (address : NodeAddress) :
    Checked.search t address = .ok (t.search address) := by
  unfold Checked.search Tree.search
  cases hs : t.arena.slotOf address with
  | none => rfl
  | some slot =>
      obtain ⟨m, hm, -⟩ := h.exists_of_slotOf hs
      simp only [h.checked_pathOf_member hm, Arena.Checked.ok_bind]
      rfl

theorem Sound.checked_root (h : t.Sound fanOut) : Checked.root t = .ok t.root := by
  unfold Checked.root Tree.root
  cases hr : t.arena.root with
  | none => rfl
  | some slot =>
      obtain ⟨m, hm, -⟩ := h.arena.root hr
      simp only [h.checked_pathOf_member hm, Arena.Checked.ok_bind]
      rfl

theorem Sound.checked_paths (h : t.Sound fanOut) {slots : List ℕ}
    (full : ∀ s ∈ slots, ∃ m, t.arena.member? s = some m) :
    slots.mapM (Checked.pathOf t) = .ok (slots.map t.pathOf) := by
  induction slots with
  | nil => rfl
  | cons s slots ih =>
      obtain ⟨m, hm⟩ := full s List.mem_cons_self
      rw [List.mapM_cons, h.checked_pathOf_member hm,
        ih fun s' hs => full s' (List.mem_cons_of_mem _ hs)]
      rfl

theorem Sound.checked_childrenOf (h : t.Sound fanOut) (address : NodeAddress) :
    Checked.childrenOf t address = .ok (t.childrenOf address) := by
  unfold Checked.childrenOf Tree.childrenOf
  cases hs : t.arena.slotOf address with
  | none => rfl
  | some slot =>
      obtain ⟨m, hm, -⟩ := h.exists_of_slotOf hs
      have paths := h.checked_paths fun child hc => by
        obtain ⟨c, hc', -⟩ := h.arena.child hm child hc
        exact ⟨c, hc'⟩
      simp only [Arena.Checked.member_of hm, paths, Arena.Checked.ok_bind, Option.bind_eq_bind,
        Option.bind_some, hm]
      rfl

theorem Sound.checked_weightOf (h : t.Sound fanOut) (address : NodeAddress) :
    Checked.weightOf t address = .ok (t.weightOf address) := by
  unfold Checked.weightOf Tree.weightOf
  cases hs : t.arena.slotOf address with
  | none => rfl
  | some slot =>
      obtain ⟨m, hm, -⟩ := h.exists_of_slotOf hs
      simp only [Arena.Checked.member_of hm, Arena.Checked.ok_bind, Option.bind_eq_bind,
        Option.bind_some, hm]
      rfl

theorem Sound.root_isSome (h : t.Sound fanOut) : t.arena.root.isSome = !t.isEmpty := by
  cases hr : t.arena.root with
  | some root =>
      obtain ⟨m, hm, -⟩ := h.arena.root hr
      have there := (h.arena.slotOf_iff m.address root).mpr ⟨m, hm, rfl⟩
      unfold Tree.isEmpty Table.isEmpty
      unfold Arena.slotOf Table.get? at there
      cases he : t.arena.index.entries with
      | nil =>
          rw [he] at there
          cases there
      | cons e entries => rfl
  | none =>
      unfold Tree.isEmpty Table.isEmpty
      cases he : t.arena.index.entries with
      | nil => rfl
      | cons e entries =>
          have there : t.arena.slotOf e.1 = some e.2 := by
            unfold Arena.slotOf Table.get?
            rw [he]
            exact if_pos rfl
          obtain ⟨m, hm, -⟩ := h.exists_of_slotOf there
          rw [h.arena.vacant_of_rootless hr] at hm
          cases hm

/-! ### Every run -/

/-- After every run the parts of a tree agree, and no operation of it has run into a slot without
a member or gone on without end.  Neither does a query, and a walk from the root goes through
every indexed member exactly once, in pre-order. -/
theorem run_wellFormed (fanOut : ℕ) (ops : List Op) :
    let t := (withFanOut fanOut).run ops
    t.arena.WellFormed ∧ t.arena.root.isSome = !t.isEmpty ∧
      Checked.run (withFanOut fanOut) ops = .ok t ∧
      (∀ slot m, t.arena.member? slot = some m → Checked.pathOf t slot = .ok (t.pathOf slot)) ∧
      Checked.root t = .ok t.root ∧
      (∀ address, Checked.search t address = .ok (t.search address) ∧
        Checked.childrenOf t address = .ok (t.childrenOf address) ∧
        Checked.weightOf t address = .ok (t.weightOf address)) ∧
      ∃ order, Arena.Checked.preorder t.arena = .ok order ∧
        t.arena.Preorder (t.arena.root.toList.map (·, 0)) order ∧
        (∀ (m : Type → Type) [Monad m] (visit : ℕ → ℕ → m Bool),
          t.arena.walk visit = Arena.visitAll visit order) ∧
        (order.map Prod.fst).Nodup ∧
        ∀ slot, slot ∈ order.map Prod.fst ↔ ∃ address, t.arena.slotOf address = some slot := by
  intro t
  obtain ⟨checked, sound⟩ := (sound_withFanOut fanOut).run ops
  obtain ⟨order, ok, preorder, once, all⟩ := sound.arena.toWellFormed.checked_preorder
  refine ⟨sound.arena.toWellFormed, sound.root_isSome, checked,
    fun slot m hm => sound.checked_pathOf_member hm, sound.checked_root, fun address =>
      ⟨sound.checked_search address, sound.checked_childrenOf address,
        sound.checked_weightOf address⟩,
    order, ok, preorder, fun m _ visit => Arena.walk_eq_visitAll visit ok, once, fun slot => ?_⟩
  rw [all]
  constructor
  · rintro ⟨m, hm⟩
    exact ⟨m.address, (sound.arena.slotOf_iff m.address slot).mpr ⟨m, hm, rfl⟩⟩
  · rintro ⟨address, hs⟩
    obtain ⟨m, hm, -⟩ := sound.exists_of_slotOf hs
    exact ⟨m, hm⟩

end TreeCluster.Tree
