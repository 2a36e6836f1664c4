import TreeCluster.Proofs.Tree.Local
import TreeCluster.Proofs.Tree.Recorded

/-! # What the path of a member says

In a sound tree of legible members the text of a path is all that a node needs to know about its
place (`Sound.tells`).  It names the members from the root down to the node itself, and what is left
of it without the last segment is the path of the parent, from which the address of the parent can
be read.

Members stay legible as long as the addresses that are placed can be read from some text with a name
(`Op.Readable`, `Legible.run`), so this is so after every run of such changes (`run_tells`). -/

namespace TreeCluster

variable {x y : NodeAddress}

namespace Tree

variable {fanOut : ℕ} {t : Tree} {path : NodePath} {line : List NodeAddress}

theorem Sound.getLast?_line (h : t.Sound fanOut) (hl : t.arena.shape.Line x line) :
    line.getLast? = t.arena.shape.top := by
  obtain ⟨y, p, last, hp, root⟩ := hl.exists_getLast?
  rw [last, h.top_iff.mpr ⟨p, hp, root⟩]

theorem Sound.line_of_listed (h : t.Sound fanOut) (hl : t.arena.shape.Line y line) {q : Place}
    (hq : t.arena.shape.place y = some q) (listed : x ∈ q.children) :
    t.arena.shape.Line x (x :: line) := by
  obtain ⟨p, hp⟩ := Option.ne_none_iff_exists'.mp (h.place_ne_none_of_listed hq listed)
  exact .step hp ((h.parent_iff hp).mpr (h.child_iff_place.mpr ⟨q, hq, listed⟩)) hl

/-- A walk that starts from the right heights meets each member at the length of its line. -/
theorem Sound.line_of_preorder (h : t.Sound fanOut) {stack order : List (NodeAddress × ℕ)}
    (walk : t.arena.shape.Preorder stack order)
    (start : ∀ e ∈ stack, ∃ line, t.arena.shape.Line e.1 line ∧ line.length = e.2 + 1) :
    ∀ e ∈ order, ∃ line, t.arena.shape.Line e.1 line ∧ line.length = e.2 + 1 := by
  induction walk with
  | nil => nofun
  | @cons x height p rest below after hp _ _ ihb ihr =>
      obtain ⟨first, others⟩ := List.forall_mem_cons.mp start
      refine List.forall_mem_cons.mpr ⟨first, fun e he => ?_⟩
      rcases List.mem_append.mp he with he | he
      · refine ihb (fun e he => ?_) e he
        obtain ⟨child, listed, rfl⟩ := List.mem_map.mp he
        obtain ⟨line, up, length⟩ := first
        exact ⟨child :: line, h.line_of_listed up hp listed, congrArg (· + 1) length⟩
      · exact ihr others e he

theorem Sound.exists_line_of_listed (h : t.Sound fanOut) {height : ℕ}
    (listed : (x, height) ∈ t.listing) :
    ∃ line, t.arena.shape.Line x line ∧ line.length = height + 1 := by
  refine h.line_of_preorder h.preorder_listing (fun e he => ?_) _ listed
  obtain ⟨top, ht, rfl⟩ := List.mem_map.mp he
  obtain ⟨p, hp, root⟩ := h.top_iff.mp (Option.mem_toList.mp ht)
  exact ⟨[top], .top hp root, rfl⟩

theorem Sound.mem_listing_iff (h : t.Sound fanOut) (hl : t.arena.shape.Line x line) (height : ℕ) :
    (x, height) ∈ t.listing ↔ line.length = height + 1 := by
  have length {height : ℕ} (listed : (x, height) ∈ t.listing) : line.length = height + 1 := by
    obtain ⟨line', hl', length⟩ := h.exists_line_of_listed listed
    rw [hl.unique hl', length]
  refine ⟨length, fun same => ?_⟩
  obtain ⟨p, hp⟩ := hl.exists_place hl.self_mem
  obtain ⟨height', listed⟩ := h.mem_listing hp
  obtain rfl : height = height' := Nat.succ.inj (same.symm.trans (length listed))
  exact listed

/-! ### Legible members -/

theorem Sound.legible_line (h : t.Sound fanOut) (legible : t.Legible)
    (hl : t.arena.shape.Line x line) : ∀ y ∈ line, y.Legible := by
  intro y inside
  obtain ⟨p, hp⟩ := hl.exists_place inside
  obtain ⟨slot, -, hs, -⟩ := h.arena.exists_of_place hp
  exact legible y slot hs

theorem Sound.search_inj (h : t.Sound fanOut) (legible : t.Legible) (hx : t.search x = some path)
    (hy : t.search y = some path) : x = y := by
  have forms := (h.nodeForm_of_search legible hx).symm.trans (h.nodeForm_of_search legible hy)
  exact NodeAddress.written_inj.mp (Except.ok.inj forms)

/-! ### Changes that keep members legible -/

/-- Every address that a change may place can be read from some text with a name.  An entry of a log
without a name places its address under one that is drawn for it. -/
def Op.Readable : Op → Prop
  | .add address => ∃ text, AddressForm.parse text = .ok address.written
  | .remove _ => True
  | .clear => True
  | .replay fresh entries => ∀ e ∈ entries, e.action = .add → ∀ form, e.path.nodeForm = .ok form →
      ∀ k, ∃ text, AddressForm.parse text = .ok (form.resolve (fresh k)).written

theorem exists_resolve_of_node {fresh : String} (read : path.node fresh = .ok x) :
    ∃ form, path.nodeForm = .ok form ∧ x = form.resolve fresh := by
  rw [NodePath.node] at read
  cases written : path.nodeForm with
  | error cause =>
      rw [written] at read
      cases read
  | ok form =>
      rw [written] at read
      exact ⟨form, rfl, (Except.ok.inj read).symm⟩

/-- No log brings in an address that cannot be read, if the fresh names are legible. -/
theorem Op.readable_replay {fresh : ℕ → String} (names : ∀ k, AddressForm.LegibleName (fresh k))
    (entries : List ReplayEntry) : (Op.replay fresh entries).Readable := by
  intro e _ _ form written k
  rw [NodePath.nodeForm] at written
  split at written
  · cases written
  · exact NodeAddress.legible_iff.mp (AddressForm.legible_resolve written fun _ => names k)

theorem Legible.replay (legible : t.Legible) {fresh : ℕ → String} {entries : List ReplayEntry}
    (readable : (Op.replay fresh entries).Readable) : (t.replay fresh entries).1.Legible := by
  induction entries generalizing t fresh with
  | nil => exact legible
  | cons e rest ih =>
      obtain ⟨first, others⟩ := List.forall_mem_cons.mp readable
      unfold Tree.replay
      cases applied : t.applyEntry (fresh 0) e with
      | error cause => exact legible
      | ok u =>
          refine ih ?_ fun e' inside action form written k =>
            others e' inside action form written (k + 1)
          rcases applyEntry_cases applied with ⟨-, rfl⟩ | ⟨action, y, read, rfl⟩ | ⟨-, y, -, rfl⟩
          · exact .clear t
          · obtain ⟨form, written, rfl⟩ := exists_resolve_of_node read
            exact legible.add (NodeAddress.legible_iff.mpr (first action form written 0))
          · exact legible.remove y

theorem Legible.apply (legible : t.Legible) {op : Op} (readable : op.Readable) :
    (t.apply op).Legible := by
  cases op with
  | add address => exact legible.add (NodeAddress.legible_iff.mpr readable)
  | remove address => exact legible.remove address
  | clear => exact .clear t
  | replay fresh entries => exact legible.replay readable

theorem Legible.run (legible : t.Legible) {ops : List Op} (readable : ∀ op ∈ ops, op.Readable) :
    (t.run ops).Legible := by
  induction ops generalizing t with
  | nil => exact legible
  | cons op ops ih =>
      obtain ⟨first, others⟩ := List.forall_mem_cons.mp readable
      exact ih (legible.apply first) others

/-! ### The text of a path -/

/-- What can be read from the path of a member. -/
structure Tells (t : Tree) (x : NodeAddress) (path : NodePath) : Prop where
  parse : NodePath.parse path.text = .ok path
  node : ∀ fresh, path.node fresh = .ok x
  /-- The addresses along it lead from the root down to the member. -/
  chain : ∃ chain : List NodeAddress, path.addressForms = .ok (chain.map NodeAddress.written) ∧
    chain.head?.bind t.search = t.root ∧ chain.IsChain (fun y z => t.parentOf z = some y) ∧
    chain.getLast? = some x
  depth : ∀ height, (x, height) ∈ t.listing ↔ path.depth = height + 1
  leader : path.leader = (t.parentOf x).bind t.search
  /-- Only the root has no leader. -/
  root : path.leader = none ↔ t.root = some path
  /-- The leader is the parent, which lists the path once among those of its children. -/
  parent : ∀ above, path.leader = some above →
    ∃ y siblings, t.parentOf x = some y ∧ (∀ fresh, above.node fresh = .ok y) ∧
      t.childrenOf y = some siblings ∧ siblings.count path = 1
  unique : ∀ y, t.search y = some path → y = x

theorem Sound.exists_parent (h : t.Sound fanOut) (up : t.parentOf x = some y) :
    ∃ q, t.arena.shape.place y = some q ∧ x ∈ q.children := by
  obtain ⟨p, hp, up⟩ := Option.bind_eq_some_iff.mp up
  exact h.child_iff_place.mp ((h.parent_iff hp).mp up)

theorem Sound.count_childrenOf (h : t.Sound fanOut) (legible : t.Legible) (hx : t.search x = some path)
    (up : t.parentOf x = some y) :
    ∃ siblings, t.childrenOf y = some siblings ∧ siblings.count path = 1 := by
  obtain ⟨q, hq, listed⟩ := h.exists_parent up
  refine ⟨q.children.filterMap t.search, by rw [h.childrenOf_eq, hq, Option.map_some], ?_⟩
  rw [List.count_filterMap, ← h.count_children hq listed, List.count]
  refine List.countP_congr fun z _ => ?_
  rw [beq_iff_eq, beq_iff_eq]
  exact ⟨fun hz => h.search_inj legible hz hx, fun same => same ▸ hx⟩

theorem Sound.leader_of_search (h : t.Sound fanOut) (legible : t.Legible)
    (hx : t.search x = some path) : path.leader = (t.parentOf x).bind t.search := by
  obtain ⟨line, hl, rfl⟩ := (h.search_iff x path).mp hx
  have readable : ∀ z ∈ line.reverse, z.Legible := fun z hz =>
    h.legible_line legible hl z (List.mem_reverse.mp hz)
  cases hl with
  | top hp root =>
      rw [parentOf, hp, Option.bind_some, root]
      exact @NodePath.leader_ofAddresses [] _ readable
  | @step x y p above hp up rest =>
      rw [List.reverse_cons] at readable ⊢
      obtain ⟨more, hm⟩ := rest.exists_eq_cons
      have nonempty : above.reverse ≠ [] := by simp [hm]
      rw [NodePath.leader_ofAddresses readable, if_neg nonempty, parentOf, hp, Option.bind_some, up,
        Option.bind_some]
      exact ((h.search_iff y _).mpr ⟨above, rest, rfl⟩).symm

theorem Sound.parentOf_eq_none_iff (h : t.Sound fanOut) (legible : t.Legible)
    (hx : t.search x = some path) : t.parentOf x = none ↔ t.root = some path := by
  rw [h.root_eq]
  constructor
  · intro none
    obtain ⟨p, hp⟩ : ∃ p, t.arena.shape.place x = some p := by
      rw [← Option.ne_none_iff_exists', ne_eq, ← h.search_eq_none_iff, hx]
      nofun
    rw [parentOf, hp] at none
    rw [h.top_iff.mpr ⟨p, hp, none⟩, Option.bind_some, hx]
  · intro root
    obtain ⟨top, ht, found⟩ := Option.bind_eq_some_iff.mp root
    obtain rfl := h.search_inj legible hx found
    obtain ⟨p, hp, none⟩ := h.top_iff.mp ht
    rw [parentOf, hp]
    exact none

theorem Sound.leader_eq_none_iff (h : t.Sound fanOut) (legible : t.Legible)
    (hx : t.search x = some path) : path.leader = none ↔ t.root = some path := by
  rw [← h.parentOf_eq_none_iff legible hx, h.leader_of_search legible hx, Option.bind_eq_none_iff]
  constructor
  · intro none
    by_contra some
    obtain ⟨y, up⟩ := Option.ne_none_iff_exists'.mp some
    obtain ⟨q, hq, -⟩ := h.exists_parent up
    have absent := h.search_eq_none_iff.mp (none y up)
    rw [hq] at absent
    cases absent
  · intro none y up
    rw [none] at up
    cases up

/-- **The path of a member** in a sound tree of legible members. -/
theorem Sound.tells (h : t.Sound fanOut) (legible : t.Legible) (hx : t.search x = some path) :
    t.Tells x path := by
  obtain ⟨line, hl, whole⟩ := (h.search_iff x path).mp hx
  obtain ⟨above, rfl⟩ := hl.exists_eq_cons
  have readable : ∀ z ∈ (x :: above).reverse, z.Legible := fun z hz =>
    h.legible_line legible hl z (List.mem_reverse.mp hz)
  have nonempty : (x :: above).reverse ≠ [] := by simp
  have leader := h.leader_of_search legible hx
  refine
    { parse := ?_
      node := h.node_of_search legible hx
      chain := ⟨(x :: above).reverse, ?_, ?_, ?_, ?_⟩
      depth := fun height => ?_
      leader := leader
      root := h.leader_eq_none_iff legible hx
      parent := fun up found => ?_
      unique := fun y hy => h.search_inj legible hy hx }
  · rw [whole, NodePath.parse_ofAddresses nonempty readable]
  · rw [whole, NodePath.addressForms_ofAddresses nonempty readable]
  · rw [List.head?_reverse, h.getLast?_line hl, h.root_eq]
  · exact List.isChain_reverse.mpr hl.isChain
  · rw [List.getLast?_reverse, List.head?_cons]
  · rw [h.mem_listing_iff hl, whole, NodePath.depth_ofAddresses readable, List.length_reverse]
  · rw [leader] at found
    obtain ⟨y, parent, hy⟩ := Option.bind_eq_some_iff.mp found
    obtain ⟨siblings, hs, once⟩ := h.count_childrenOf legible hx parent
    exact ⟨y, siblings, parent, h.node_of_search legible hy, hs, once⟩

/-- **Paths name the real ancestors.**  After every run of changes whose addresses can be read from
text with a name, the path of each member can be read back and tells who the members from the root
down to it are, hence its height, and the path of its parent. -/
theorem run_tells (fanOut : ℕ) {ops : List Op} (readable : ∀ op ∈ ops, op.Readable)
    (x : NodeAddress) (path : NodePath)
    (hx : ((withFanOut fanOut).run ops).search x = some path) :
    ((withFanOut fanOut).run ops).Tells x path :=
  ((sound_withFanOut fanOut).run ops).2.tells ((legible_withFanOut fanOut).run readable) hx

/-- A replayed entry without a name below a host that looks like an address itself. -/
theorem run_tells_of_three_members :
    let ops : List Op := [.add ⟨"a", "h@h:1", 1⟩, .add ⟨"b", "h", 2⟩,
      .replay Text.Decimal.text [⟨.add, ⟨"h:3"⟩⟩]]
    let t := (withFanOut 1).run ops
    let path : NodePath := ⟨"a@h@h:1:1/b@h:2/0@h:3"⟩
    (∀ op ∈ ops, op.Readable) ∧ t.search ⟨"0", "h", 3⟩ = some path ∧ t.Tells ⟨"0", "h", 3⟩ path := by
  intro ops t path
  have readable : ∀ op ∈ ops, op.Readable := by
    have first : AddressForm.parse "a@h@h:1:1" = .ok ⟨some "a", "h@h:1", 1⟩ := rfl
    have second : AddressForm.parse "b@h:2" = .ok ⟨some "b", "h", 2⟩ := rfl
    simp only [ops, List.forall_mem_cons]
    exact ⟨⟨_, first⟩, ⟨_, second⟩, Op.readable_replay AddressForm.legibleName_text _, nofun⟩
  have found : t.search ⟨"0", "h", 3⟩ = some path := by decide +kernel
  exact ⟨readable, found, run_tells 1 readable _ _ found⟩

end Tree
end TreeCluster
