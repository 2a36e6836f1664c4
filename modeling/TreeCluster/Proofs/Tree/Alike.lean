import TreeCluster.Proofs.Tree.Answers
import TreeCluster.Proofs.Tree.Members

/-! # Trees that look alike

Two sound trees are alike if they have the same shape, in whatever slots their members are
(`Tree.Alike`).  Trees that are alike give the same answers (`Alike.sameAnswers`), and every change
leaves them alike (`Alike.apply`).

The listing of a tree determines its shape (`Alike.of_listing`): with the heights it says who the
children of each member are, hence who its parent is and how many members are below it.  So nothing
of the history of a tree matters but what its listing shows (`run_sameAnswers`). -/

namespace TreeCluster.Tree

variable {fanOut : ℕ} {t t' : Tree} {x y : NodeAddress}

/-- Two sound trees of the same shape. -/
structure Alike (fanOut : ℕ) (t t' : Tree) : Prop where
  left : t.Sound fanOut
  right : t'.Sound fanOut
  shape : t.arena.shape = t'.arena.shape

/-- All that a tree answers, except for what was added or removed last, which tells of its
history. -/
structure SameAnswers (t t' : Tree) : Prop where
  add : ∀ address, (t.add address).2 = (t'.add address).2
  remove : ∀ address, (t.remove address).2 = (t'.remove address).2
  replay : ∀ fresh entries, (t.replay fresh entries).2 = (t'.replay fresh entries).2
  search : t.search = t'.search
  searchName : t.searchName = t'.searchName
  searchEndpoint : t.searchEndpoint = t'.searchEndpoint
  childrenOf : t.childrenOf = t'.childrenOf
  weightOf : t.weightOf = t'.weightOf
  root : t.root = t'.root
  size : t.size = t'.size
  isEmpty : t.isEmpty = t'.isEmpty
  display : t.display = t'.display
  floop : ∀ (m : Type → Type) [Monad m] [LawfulMonad m] (start : ℕ)
    (stop : ℕ → NodePath → m Bool), t.floop start stop = t'.floop start stop
  floopGroup : ∀ (m : Type → Type) [Monad m] [LawfulMonad m]
    (stop : ℕ → List NodePath → m Bool), t.floopGroup stop = t'.floopGroup stop

/-! ### What a listing determines -/

theorem Sound.preorder_listing (h : t.Sound fanOut) :
    t.arena.shape.Preorder (t.arena.shape.top.toList.map (·, 0)) t.listing := by
  obtain ⟨order, lists⟩ := h.exists_lists
  have start : t.arena.labels (t.arena.root.toList.map (·, 0)) =
      t.arena.shape.top.toList.map (·, 0) := by
    rw [Arena.labels_map, Arena.addresses, Arena.shape]
    cases t.arena.root with
    | none => rfl
    | some root =>
        cases hx : t.arena.addressAt root with
        | none => simp [hx]
        | some x => simp [hx]
  have := (Arena.preorder_of_visits lists.preorder).shape h.arena.toIndexed
  rwa [start, ← lists.listing] at this

theorem Sound.mem_listing (h : t.Sound fanOut) {p : Place} (hp : t.arena.shape.place x = some p) :
    ∃ height, (x, height) ∈ t.listing := by
  obtain ⟨order, lists⟩ := h.exists_lists
  obtain ⟨slot, m, -, hm, rfl, -⟩ := h.arena.exists_of_place hp
  obtain ⟨e, he, rfl⟩ := List.mem_map.mp (lists.meets hm)
  rw [lists.listing]
  refine ⟨e.2, List.mem_filterMap.mpr ⟨e, he, ?_⟩⟩
  rw [Arena.addressAt_of hm]
  rfl

theorem Sound.child_iff_place (h : t.Sound fanOut) :
    t.Child x y ↔ ∃ q, t.arena.shape.place y = some q ∧ x ∈ q.children := by
  constructor
  · rintro ⟨child, slot, n, hx, hy, hn, listed⟩
    obtain ⟨n', hn', rfl⟩ := h.exists_of_slotOf hy
    obtain rfl := Option.some.inj (hn.symm.trans hn')
    exact ⟨_, h.arena.place_of hn, List.mem_filterMap.mpr ⟨child, listed, h.arena.addressAt_iff.mpr hx⟩⟩
  · rintro ⟨q, hq, listed⟩
    obtain ⟨slot, n, hy, hn, rfl, rfl⟩ := h.arena.exists_of_place hq
    obtain ⟨child, hc, hx⟩ := List.mem_filterMap.mp listed
    exact ⟨child, slot, n, h.arena.addressAt_iff.mp hx, hy, hn, hc⟩

theorem Sound.count_children (h : t.Sound fanOut) {q : Place} (hq : t.arena.shape.place y = some q)
    (listed : x ∈ q.children) : q.children.count x = 1 := by
  obtain ⟨slot, n, -, hn, -, rfl⟩ := h.arena.exists_of_place hq
  obtain ⟨child, hc, hx⟩ := List.mem_filterMap.mp listed
  obtain ⟨c, hm, back⟩ := h.arena.child hn child hc
  rw [Arena.placeOf, h.arena.count_addresses (h.arena.addressAt_iff.mp hx)]
  exact h.arena.count_child hn hm back

theorem Sound.parent_iff (h : t.Sound fanOut) {p : Place} (hp : t.arena.shape.place x = some p) :
    p.parent = some y ↔ t.Child x y := by
  obtain ⟨slot, m, hs, hm, rfl, rfl⟩ := h.arena.exists_of_place hp
  constructor
  · intro up
    obtain ⟨parent, back, hy⟩ := Option.bind_eq_some_iff.mp up
    exact (h.child_iff (h.arena.addressAt_iff.mp hy) hs).mpr ⟨m, hm, back⟩
  · intro child
    obtain ⟨-, parent, -, hy⟩ := child.exists_slotOf
    obtain ⟨m', hm', back⟩ := (h.child_iff hy hs).mp child
    obtain rfl := Option.some.inj (hm.symm.trans hm')
    exact Option.bind_eq_some_iff.mpr ⟨parent, back, h.arena.addressAt_iff.mpr hy⟩

theorem Sound.weight_eq_ncard (h : t.Sound fanOut) {p : Place}
    (hp : t.arena.shape.place x = some p) : p.weight = {b | t.Below b x}.ncard := by
  have weight := h.weightOf_eq_place x
  obtain ⟨slot, m, hs, -⟩ := h.arena.exists_of_place hp
  rw [h.weightOf_eq, hs, hp] at weight
  exact (Option.some.inj weight).symm

theorem Sound.top_iff (h : t.Sound fanOut) :
    t.arena.shape.top = some x ↔ ∃ p, t.arena.shape.place x = some p ∧ p.parent = none := by
  constructor
  · intro top
    obtain ⟨root, hr, hx⟩ := Option.bind_eq_some_iff.mp top
    obtain ⟨m, hm, none⟩ := h.arena.root hr
    obtain rfl := Option.some.inj ((Arena.addressAt_of hm).symm.trans hx)
    refine ⟨_, h.arena.place_of hm, ?_⟩
    rw [Arena.placeOf, none]
    rfl
  · rintro ⟨p, hp, none⟩
    obtain ⟨slot, m, -, hm, rfl, rfl⟩ := h.arena.exists_of_place hp
    have root : t.arena.root = some slot := by
      by_contra other
      obtain ⟨parent, n, up, hn, -⟩ := h.arena.parent hm other
      rw [Arena.placeOf, up, Option.bind_some, Arena.addressAt_of hn] at none
      cases none
    rw [Arena.shape, root]
    exact Arena.addressAt_of hm

/-- The children of all members determine the shape: with them it is said who the parents are, hence
who is on top, and how many members are below each. -/
theorem Alike.of_children (h : t.Sound fanOut) (h' : t'.Sound fanOut)
    (same : ∀ x, (t.arena.shape.place x).map Place.children =
      (t'.arena.shape.place x).map Place.children) : Alike fanOut t t' := by
  have child : t.Child = t'.Child := by
    funext x y
    have listed (s : Shape) : (∃ q, s.place y = some q ∧ x ∈ q.children) ↔
        ∃ l ∈ (s.place y).map Place.children, x ∈ l := by simp
    rw [eq_iff_iff, h.child_iff_place, h'.child_iff_place, listed, listed, same]
  have below : t.Below = t'.Below := by
    unfold Below
    rw [child]
  have place : t.arena.shape.place = t'.arena.shape.place := by
    funext x
    have children := same x
    cases hp : t.arena.shape.place x with
    | none =>
        rw [hp] at children
        exact (Option.map_eq_none_iff.mp children.symm).symm
    | some p =>
        rw [hp] at children
        obtain ⟨p', hp', children⟩ := Option.map_eq_some_iff.mp children.symm
        have parent : p.parent = p'.parent := by
          ext y
          rw [h.parent_iff hp, h'.parent_iff hp', child]
        have weight : p.weight = p'.weight := by
          rw [h.weight_eq_ncard hp, h'.weight_eq_ncard hp', below]
        rw [hp', Place.ext parent children.symm weight]
  have top : t.arena.shape.top = t'.arena.shape.top := by
    ext x
    rw [h.top_iff, h'.top_iff, place]
  exact ⟨h, h', Shape.ext top place⟩

/-- The members with a listing have the children that it shows. -/
theorem Sound.children_eq_of_listing (h : t.Sound fanOut) (h' : t'.Sound fanOut)
    (same : t.listing = t'.listing) {p : Place} (hp : t.arena.shape.place x = some p) :
    ∃ p', t'.arena.shape.place x = some p' ∧ p.children = p'.children := by
  have falls (top : Option NodeAddress) :
      (top.toList.map (·, 0)).Pairwise fun e f : NodeAddress × ℕ => f.2 ≤ e.2 := by
    cases top <;> simp
  obtain ⟨-, children⟩ :=
    h.preorder_listing.children_eq (same ▸ h'.preorder_listing) (falls _) (falls _)
  obtain ⟨height, listed⟩ := h.mem_listing hp
  obtain ⟨q, p', hq, hp', equal⟩ := children _ listed
  obtain rfl := Option.some.inj (hp.symm.trans hq)
  exact ⟨p', hp', equal⟩

/-- The listing of a tree determines its shape. -/
theorem Alike.of_listing (h : t.Sound fanOut) (h' : t'.Sound fanOut) (same : t.listing = t'.listing) :
    Alike fanOut t t' := by
  refine .of_children h h' fun x => ?_
  cases hp : t.arena.shape.place x with
  | some p =>
      obtain ⟨p', hp', children⟩ := h.children_eq_of_listing h' same hp
      rw [hp', Option.map_some, Option.map_some, children]
  | none =>
      cases hp' : t'.arena.shape.place x with
      | none => rfl
      | some p' =>
          obtain ⟨p, hp'', -⟩ := h'.children_eq_of_listing h same.symm hp'
          rw [hp] at hp''
          cases hp''

/-! ### Changes -/

/-- Adding an address changes nothing if it is there, and else places it as the shape says. -/
theorem Sound.add_cases (h : t.Sound fanOut) (x : NodeAddress) :
    (t.arena.shape.place x ≠ none ∧ (t.add x).1 = t) ∨
    (t.arena.shape.place x = none ∧ t.arena.shape.Inserts fanOut x (t.add x).1.arena.shape) := by
  cases hs : t.arena.slotOf x with
  | some slot =>
      refine .inl ⟨?_, ?_⟩
      · rw [ne_eq, h.arena.place_eq_none_iff, hs]
        nofun
      · unfold Tree.add
        rw [hs]
  | none =>
      refine .inr ⟨h.arena.place_eq_none_iff.mpr hs, ?_⟩
      have placed := h.arena.inserts h.pos x
      rw [h.fanOut_eq] at placed
      unfold Tree.add
      rw [hs]
      exact h.fanOut_eq.symm ▸ placed

theorem Sound.remove_cases (h : t.Sound fanOut) (x : NodeAddress) :
    ((∀ p, t.arena.shape.place x = some p → p.children ≠ []) ∧ t.remove x = (t, false)) ∨
    ∃ p above, t.arena.shape.place x = some p ∧ p.children = [] ∧
      t.arena.shape.Line x (x :: above) ∧ (t.remove x).2 = true ∧
      (t.remove x).1.arena.shape = (t.arena.shape.lower above).cut x := by
  unfold Tree.remove
  cases hs : t.arena.slotOf x with
  | none =>
      refine .inl ⟨fun p hp => ?_, rfl⟩
      rw [h.arena.place_eq_none_iff.mpr hs] at hp
      cases hp
  | some slot =>
      obtain ⟨m, hm, rfl⟩ := h.exists_of_slotOf hs
      have place := h.arena.place_of hm
      have few : (t.arena.placeOf m).children.length = m.children.length :=
        Arena.length_addresses (h.arena.toLinked.full_children hm)
      by_cases leaf : m.children = []
      · obtain ⟨above, line, after⟩ := h.arena.detach_shape hm leaf
        refine .inr ⟨_, above, place, List.length_eq_zero_iff.mp (few.trans (by rw [leaf]; rfl)), line, ?_⟩
        simp only [hm, leaf, ne_eq, not_true_eq_false, if_false, true_and]
        exact after
      · refine .inl ⟨fun p hp => ?_, by simp only [hm, ne_eq, leaf, not_false_eq_true, if_true]⟩
        obtain rfl := Option.some.inj (place.symm.trans hp)
        intro none
        rw [none] at few
        exact leaf (List.length_eq_zero_iff.mp few.symm)

namespace Alike

theorem search_eq (h : Alike fanOut t t') : t.search = t'.search := by
  funext x
  ext path
  rw [h.left.search_iff, h.right.search_iff, h.shape]

theorem add (h : Alike fanOut t t') (x : NodeAddress) :
    Alike fanOut (t.add x).1 (t'.add x).1 := by
  refine ⟨(h.left.add x).2, (h.right.add x).2, ?_⟩
  rcases h.left.add_cases x with ⟨here, same⟩ | ⟨new, placed⟩
  · rcases h.right.add_cases x with ⟨-, same'⟩ | ⟨new', -⟩
    · rw [same, same', h.shape]
    · exact absurd (h.shape ▸ new') here
  · rcases h.right.add_cases x with ⟨here', -⟩ | ⟨-, placed'⟩
    · exact absurd (h.shape ▸ new) here'
    · exact placed.unique (h.shape ▸ placed')

theorem remove (h : Alike fanOut t t') (x : NodeAddress) :
    Alike fanOut (t.remove x).1 (t'.remove x).1 ∧ (t.remove x).2 = (t'.remove x).2 := by
  rcases h.left.remove_cases x with ⟨busy, same⟩ | ⟨p, above, hp, leaf, line, gone, after⟩
  · rcases h.right.remove_cases x with ⟨-, same'⟩ | ⟨p', _, hp', leaf', -⟩
    · rw [same, same']
      exact ⟨h, rfl⟩
    · exact absurd leaf' (busy p' (h.shape ▸ hp'))
  · rcases h.right.remove_cases x with ⟨busy', -⟩ | ⟨p', above', -, -, line', gone', after'⟩
    · exact absurd leaf (busy' p (h.shape ▸ hp))
    · refine ⟨⟨(h.left.remove x).2, (h.right.remove x).2, ?_⟩, gone.trans gone'.symm⟩
      rw [← h.shape] at line' after'
      obtain rfl := (List.cons.inj (line.unique line')).2
      exact after.trans after'.symm

theorem clear (h : Alike fanOut t t') : Alike fanOut t.clear t'.clear :=
  ⟨h.left.clear, h.right.clear, rfl⟩

theorem size_eq (h : Alike fanOut t t') : t.size = t'.size := by
  have := h.left.size_eq.trans (h.shape ▸ h.right.size_eq.symm)
  exact_mod_cast this

theorem isEmpty_eq (h : Alike fanOut t t') : t.isEmpty = t'.isEmpty := by
  have empty_iff (u : Tree) : u.isEmpty = true ↔ u.size = 0 := List.isEmpty_iff_length_eq_zero
  rw [Bool.eq_iff_iff, empty_iff, empty_iff, h.size_eq]

theorem applyEntry (h : Alike fanOut t t') (fresh : String) (e : ReplayEntry) :
    (∃ cause, t.applyEntry fresh e = .error cause ∧ t'.applyEntry fresh e = .error cause) ∨
    ∃ u u', t.applyEntry fresh e = .ok u ∧ t'.applyEntry fresh e = .ok u' ∧ Alike fanOut u u' := by
  unfold Tree.applyEntry
  cases e.action with
  | add =>
      cases e.path.node fresh with
      | error cause => exact .inl ⟨cause, rfl, rfl⟩
      | ok x => exact .inr ⟨_, _, rfl, rfl, h.add x⟩
  | remove =>
      cases e.path.node fresh with
      | error cause => exact .inl ⟨cause, rfl, rfl⟩
      | ok x => exact .inr ⟨_, _, rfl, rfl, (h.remove x).1⟩
  | clean => exact .inr ⟨_, _, rfl, rfl, h.clear⟩

theorem replay (h : Alike fanOut t t') (fresh : ℕ → String) (entries : List ReplayEntry) :
    Alike fanOut (t.replay fresh entries).1 (t'.replay fresh entries).1 ∧
      (t.replay fresh entries).2 = (t'.replay fresh entries).2 := by
  induction entries generalizing t t' fresh with
  | nil => exact ⟨h, rfl⟩
  | cons e entries ih =>
      unfold Tree.replay
      rcases h.applyEntry (fresh 0) e with ⟨cause, refused, refused'⟩ | ⟨u, u', ok, ok', alike⟩
      · rw [refused, refused']
        exact ⟨h, rfl⟩
      · rw [ok, ok']
        exact ih alike _

/-- Every change leaves trees alike. -/
theorem apply (h : Alike fanOut t t') (op : Op) : Alike fanOut (t.apply op) (t'.apply op) := by
  cases op with
  | add x => exact h.add x
  | remove x => exact (h.remove x).1
  | clear => exact h.clear
  | replay fresh entries => exact (h.replay fresh entries).1

theorem run (h : Alike fanOut t t') (ops : List Op) : Alike fanOut (t.run ops) (t'.run ops) := by
  induction ops generalizing t t' with
  | nil => exact h
  | cons op ops ih => exact ih (h.apply op)

/-! ### Answers -/

theorem listing_eq (h : Alike fanOut t t') : t.listing = t'.listing := by
  have preorder' := h.right.preorder_listing
  rw [← h.shape] at preorder'
  exact h.left.preorder_listing.unique preorder'

theorem childrenOf_eq (h : Alike fanOut t t') : t.childrenOf = t'.childrenOf := by
  funext x
  rw [h.left.childrenOf_eq, h.right.childrenOf_eq, h.shape, h.search_eq]

theorem weightOf_eq (h : Alike fanOut t t') : t.weightOf = t'.weightOf := by
  funext x
  rw [h.left.weightOf_eq_place, h.right.weightOf_eq_place, h.shape]

theorem root_eq (h : Alike fanOut t t') : t.root = t'.root := by
  rw [h.left.root_eq, h.right.root_eq, h.shape, h.search_eq]

theorem find_eq (h : Alike fanOut t t') (wanted : NodeAddress → Bool) :
    t.find wanted = t'.find wanted := by
  rw [h.left.find_eq, h.right.find_eq, h.search_eq, h.listing_eq]

/-- Trees that are alike give the same answers. -/
theorem sameAnswers (h : Alike fanOut t t') : SameAnswers t t' where
  add x := by
    have found := congrFun (h.add x).search_eq x
    rw [search_add, search_add] at found
    exact Option.some.inj found
  remove x := (h.remove x).2
  replay fresh entries := (h.replay fresh entries).2
  search := h.search_eq
  searchName := funext fun name => h.find_eq _
  searchEndpoint := funext fun endpoint => h.find_eq _
  childrenOf := h.childrenOf_eq
  weightOf := h.weightOf_eq
  root := h.root_eq
  size := h.size_eq
  isEmpty := h.isEmpty_eq
  display := by
    rw [h.left.display_eq, h.right.display_eq, h.left.fanOut_eq, h.right.fanOut_eq, h.size_eq,
      h.listing_eq, h.weightOf_eq]
  floop m _ _ start stop := by
    rw [h.left.floop_eq, h.right.floop_eq, h.search_eq, h.listing_eq]
  floopGroup m _ _ stop := by
    rw [h.left.floopGroup_eq, h.right.floopGroup_eq, h.root_eq, h.childrenOf_eq, h.listing_eq]

end Alike

/-- **Nothing of a tree's history matters but what its listing shows.**  Take two runs, whatever
they added, removed, cleared and replayed, that end with the same fan-out and with the same members
at the same heights in pre-order.  After every sequence of later changes, the same for both, the two
trees give the same answers. -/
theorem run_sameAnswers {fanOut fanOut' : ℕ} {ops ops' : List Op}
    (room : ((withFanOut fanOut).run ops).fanOut = ((withFanOut fanOut').run ops').fanOut)
    (same : ((withFanOut fanOut).run ops).listing = ((withFanOut fanOut').run ops').listing)
    (later : List Op) :
    SameAnswers (((withFanOut fanOut).run ops).run later)
      (((withFanOut fanOut').run ops').run later) := by
  have sound := ((sound_withFanOut fanOut).run ops).2
  have sound' := ((sound_withFanOut fanOut').run ops').2
  rw [sound.fanOut_eq, sound'.fanOut_eq] at room
  rw [← room] at sound'
  exact ((Alike.of_listing sound sound' same).run later).sameAnswers

/-- A run that leaves a vacant slot behind and one that was cleared: the same listing, with a member
in different slots. -/
theorem run_sameAnswers_of_vacant_slot :
    let ops : List Op := [.add ⟨"a", "h", 1⟩, .add ⟨"b", "h", 2⟩, .add ⟨"c", "h", 3⟩,
      .remove ⟨"b", "h", 2⟩]
    let ops' : List Op := [.add ⟨"b", "h", 2⟩, .clear, .add ⟨"a", "h", 1⟩, .add ⟨"c", "h", 3⟩]
    let t := (withFanOut 2).run ops
    let t' := (withFanOut 2).run ops'
    t.fanOut = t'.fanOut ∧ t.listing = t'.listing ∧
      t.arena.slotOf ⟨"c", "h", 3⟩ = some 2 ∧ t'.arena.slotOf ⟨"c", "h", 3⟩ = some 1 ∧
      SameAnswers (t.run [.add ⟨"b", "h", 2⟩]) (t'.run [.add ⟨"b", "h", 2⟩]) := by
  intro ops ops' t t'
  have room : t.fanOut = t'.fanOut := by cbv
  have same : t.listing = t'.listing := by cbv
  exact ⟨room, same, by cbv, by cbv, run_sameAnswers room same _⟩

end TreeCluster.Tree
