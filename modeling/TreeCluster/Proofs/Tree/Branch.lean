import TreeCluster.Proofs.Tree.Local

/-! # Branches

A branch is a member with the branches of its children below it, in order (`Branch`).  What is said
of a whole tree by recursion from the root down is said of branches: which members there are, in
pre-order and at what heights (`Branch.labels`, `Branch.preorder`).

A shape bears a branch if the children and the weight of each member in it are as in the branch
(`Shape.Bears`).  Every sound tree is the branch of its root (`Sound.exists_shows`), and its listing
is the pre-order of that branch (`Sound.listing_eq`). -/

namespace TreeCluster

/-- A member and the branches of its children, in order. -/
inductive Branch (α : Type) where
  | mk (top : α) (children : List (Branch α))

namespace Branch

variable {α : Type}

/-- The member on top. -/
def top : Branch α → α
  | ⟨x, _⟩ => x

/-- All members, a parent before its children and these in order. -/
def labels : Branch α → List α
  | ⟨x, children⟩ => x :: children.flatMap labels

/-- All members with their heights, of which the one on top is given, in the same order. -/
def preorder (height : ℕ) : Branch α → List (α × ℕ)
  | ⟨x, children⟩ => (x, height) :: children.flatMap (preorder (height + 1))

/-- The number of members. -/
def size (b : Branch α) : ℕ :=
  b.labels.length

/-- What holds of a branch if it holds of the branches of the children holds of every branch. -/
@[induction_eliminator]
theorem induct {motive : Branch α → Prop}
    (mk : ∀ x children, (∀ b ∈ children, motive b) → motive ⟨x, children⟩) : ∀ b, motive b
  | ⟨x, children⟩ => mk x children fun b _ => induct mk b

@[simp] theorem top_mk (x : α) (children : List (Branch α)) : top ⟨x, children⟩ = x := rfl

theorem labels_mk (x : α) (children : List (Branch α)) :
    labels ⟨x, children⟩ = x :: children.flatMap labels := by
  rw [labels]

theorem preorder_mk (height : ℕ) (x : α) (children : List (Branch α)) :
    preorder height ⟨x, children⟩ = (x, height) :: children.flatMap (preorder (height + 1)) := by
  rw [preorder]

theorem size_mk (x : α) (children : List (Branch α)) :
    size ⟨x, children⟩ = (children.map size).sum + 1 := by
  rw [size, labels_mk, List.length_cons, List.length_flatMap]
  rfl

theorem size_pos (b : Branch α) : 0 < b.size := by
  cases b with
  | mk x children => simp [size_mk]

theorem size_single (y : α) : size ⟨y, []⟩ = 1 := by
  simp [size_mk]

theorem labels_subset_of_mem {b : Branch α} {x : α} {children : List (Branch α)} (hb : b ∈ children) :
    b.labels ⊆ labels ⟨x, children⟩ := by
  intro z hz
  rw [labels_mk]
  exact List.mem_cons_of_mem x (List.mem_flatMap.mpr ⟨b, hb, hz⟩)

theorem nodup_labels_of_mem {b : Branch α} {x : α} {children : List (Branch α)} (hb : b ∈ children)
    (once : (labels ⟨x, children⟩).Nodup) : b.labels.Nodup := by
  rw [labels_mk, List.nodup_cons] at once
  exact (List.nodup_flatMap.mp once.2).1 b hb

theorem map_fst_preorder (b : Branch α) (height : ℕ) :
    (b.preorder height).map Prod.fst = b.labels := by
  induction b generalizing height with
  | mk x children ih =>
      rw [preorder_mk, labels_mk, List.map_cons, List.map_flatMap]
      exact congrArg (x :: ·) (List.flatMap_congr fun b hb => ih b hb _)

theorem length_preorder (b : Branch α) (height : ℕ) : (b.preorder height).length = b.size := by
  rw [size, ← b.map_fst_preorder height, List.length_map]

end Branch

namespace Shape

variable {s s' : Shape} {b : Branch NodeAddress}

/-- The members of a branch have the children that they have in the branch, and the weight of each
is the number of members below it. -/
inductive Bears (s : Shape) : Branch NodeAddress → Prop
  | mk {x : NodeAddress} {p : Place} {children : List (Branch NodeAddress)} :
      s.place x = some p → p.children = children.map Branch.top →
        p.weight = (children.map Branch.size).sum → (∀ b ∈ children, Bears s b) →
          Bears s ⟨x, children⟩

/-- The branch of the member on top; a shape without one shows none. -/
structure Shows (s : Shape) (whole : Option (Branch NodeAddress)) : Prop where
  top : whole.map Branch.top = s.top
  bears : ∀ b ∈ whole, s.Bears b

/-- Only the places of its members matter to a branch. -/
theorem Bears.congr (h : s.Bears b) (same : ∀ x ∈ b.labels, s'.place x = s.place x) :
    s'.Bears b := by
  induction h with
  | @mk x p children hp names weight _ ih =>
      rw [Branch.labels_mk, List.forall_mem_cons] at same
      refine .mk (same.1.trans hp) names weight fun b hb => ih b hb fun y hy => ?_
      exact same.2 y (List.mem_flatMap.mpr ⟨b, hb, hy⟩)

theorem Bears.exists_place (h : s.Bears b) {x : NodeAddress} (inside : x ∈ b.labels) :
    ∃ p, s.place x = some p := by
  induction h with
  | mk hp _ _ _ ih =>
      rw [Branch.labels_mk, List.mem_cons, List.mem_flatMap] at inside
      rcases inside with rfl | ⟨b, hb, inside⟩
      · exact ⟨_, hp⟩
      · exact ih b hb inside

theorem preorder_flatMap {branches : List (Branch NodeAddress)} {height : ℕ}
    (walks : ∀ b ∈ branches, s.Preorder [(b.top, height)] (b.preorder height)) :
    s.Preorder ((branches.map Branch.top).map (·, height))
      (branches.flatMap (Branch.preorder height)) := by
  induction branches with
  | nil => exact .nil
  | cons b branches ih =>
      obtain ⟨first, others⟩ := List.forall_mem_cons.mp walks
      rw [List.map_cons, List.map_cons, List.flatMap_cons]
      generalize b.preorder height = order at first
      cases first with
      | cons hp below after =>
          cases after
          rw [List.append_nil, List.cons_append]
          exact .cons hp below (ih others)

/-- A branch lists its members in the pre-order of the shape. -/
theorem Bears.preorder (h : s.Bears b) (height : ℕ) :
    s.Preorder [(b.top, height)] (b.preorder height) := by
  induction h generalizing height with
  | @mk x p children hp names _ _ ih =>
      have below := preorder_flatMap fun b hb => ih b hb (height + 1)
      rw [← names] at below
      rw [Branch.preorder_mk, ← List.append_nil (children.flatMap _)]
      exact .cons hp below .nil

end Shape

namespace Tree

variable {fanOut : ℕ} {t : Tree} {x y : NodeAddress} {whole : Option (Branch NodeAddress)}

/-! ### Members below a member -/

theorem below_iff_exists_child : t.Below y x ↔ ∃ c, t.Child c x ∧ (y = c ∨ t.Below y c) := by
  rw [Below, Relation.TransGen.tail'_iff]
  refine exists_congr fun c => ?_
  rw [Relation.reflTransGen_iff_eq_or_transGen, and_comm, eq_comm (a := c)]

/-- The descendants of a member are all in the branches of its children, if these hold what is below
their tops. -/
theorem Sound.below_iff_mem_flatMap (h : t.Sound fanOut) {p : Place}
    (hp : t.arena.shape.place x = some p) {children : List (Branch NodeAddress)}
    (names : p.children = children.map Branch.top)
    (inner : ∀ b ∈ children, ∀ y, y ∈ b.labels ↔ y = b.top ∨ t.Below y b.top) :
    t.Below y x ↔ y ∈ children.flatMap Branch.labels := by
  have child (c : NodeAddress) : t.Child c x ↔ ∃ b ∈ children, b.top = c := by
    rw [h.child_iff_place, ← List.mem_map, ← names]
    simp [hp]
  rw [below_iff_exists_child, List.mem_flatMap]
  constructor
  · rintro ⟨c, hc, inside⟩
    obtain ⟨b, hb, rfl⟩ := (child c).mp hc
    exact ⟨b, hb, (inner b hb y).mpr inside⟩
  · rintro ⟨b, hb, inside⟩
    exact ⟨b.top, (child b.top).mpr ⟨b, hb, rfl⟩, (inner b hb y).mp inside⟩

theorem Sound.mem_labels_iff (h : t.Sound fanOut) {b : Branch NodeAddress}
    (bears : t.arena.shape.Bears b) (y : NodeAddress) :
    y ∈ b.labels ↔ y = b.top ∨ t.Below y b.top := by
  induction bears generalizing y with
  | mk hp names _ _ ih =>
      rw [Branch.labels_mk, List.mem_cons, Branch.top_mk, h.below_iff_mem_flatMap hp names ih]

theorem Sound.nodup_listing (h : t.Sound fanOut) : (t.listing.map Prod.fst).Nodup := by
  obtain ⟨order, lists⟩ := h.exists_lists
  obtain ⟨order', ok, -, once, -⟩ := h.arena.toWellFormed.checked_preorder
  obtain rfl := Except.ok.inj (lists.preorder.symm.trans ok)
  have names : (t.arena.labels order).map Prod.fst = t.arena.addresses (order.map Prod.fst) := by
    rw [Arena.labels, Arena.addresses, List.map_filterMap, List.filterMap_map]
    exact List.filterMap_congr fun e _ => by simp [Function.comp_def]
  rw [lists.listing, names]
  refine once.filterMap fun slot slot' x hx hx' => ?_
  have there := h.arena.addressAt_iff.mp hx
  rw [h.arena.addressAt_iff.mp hx'] at there
  exact (Option.some.inj there).symm

/-! ### The branch of the root -/

/-- A walk that meets no member twice goes through branches that the shape bears. -/
theorem Sound.exists_bears (h : t.Sound fanOut) {stack order : List (NodeAddress × ℕ)}
    (walk : t.arena.shape.Preorder stack order) (once : (order.map Prod.fst).Nodup) :
    ∃ branches : List (Branch NodeAddress), branches.map Branch.top = stack.map Prod.fst ∧
      branches.flatMap Branch.labels = order.map Prod.fst ∧
      ∀ b ∈ branches, t.arena.shape.Bears b := by
  induction walk with
  | nil => exact ⟨[], rfl, rfl, nofun⟩
  | @cons x height p rest below after hp _ _ ihb ihr =>
      rw [List.map_cons, List.map_append, List.nodup_cons, List.nodup_append'] at once
      obtain ⟨-, inner, outer, -⟩ := once
      obtain ⟨children, names, members, bears⟩ := ihb inner
      obtain ⟨branches, names', members', bears'⟩ := ihr outer
      rw [List.map_map, Function.comp_def, List.map_id'] at names
      have descendants : {y | t.Below y x} = {y | y ∈ (children.flatMap Branch.labels).toFinset} := by
        ext y
        rw [Set.mem_ofPred_eq, Set.mem_ofPred_eq, List.mem_toFinset]
        exact h.below_iff_mem_flatMap hp names.symm fun b hb => h.mem_labels_iff (bears b hb)
      have weight : p.weight = (children.map Branch.size).sum := by
        rw [h.weight_eq_ncard hp, descendants, Finset.setOfPred_mem, Set.ncard_coe_finset,
          List.toFinset_card_of_nodup (members ▸ inner), List.length_flatMap]
        rfl
      refine ⟨⟨x, children⟩ :: branches, ?_, ?_, ?_⟩
      · rw [List.map_cons, names']
        rfl
      · rw [List.flatMap_cons, Branch.labels_mk, members, members', List.map_cons, List.map_append]
        rfl
      · exact List.forall_mem_cons.mpr ⟨.mk hp names.symm weight bears, bears'⟩

/-- Every sound tree is the branch of its root. -/
theorem Sound.exists_shows (h : t.Sound fanOut) : ∃ whole, t.arena.shape.Shows whole := by
  obtain ⟨branches, names, -, bears⟩ := h.exists_bears h.preorder_listing h.nodup_listing
  cases top : t.arena.shape.top with
  | none => exact ⟨none, top.symm, nofun⟩
  | some x =>
      rw [top] at names
      obtain ⟨b, rfl, rfl⟩ : ∃ b, branches = [b] ∧ b.top = x := by
        simpa [List.map_eq_singleton_iff] using names
      refine ⟨some b, top.symm, ?_⟩
      rintro _ ⟨rfl⟩
      exact bears _ List.mem_cons_self

/-- The listing goes through the branch of the root. -/
theorem Sound.listing_eq (h : t.Sound fanOut) (shows : t.arena.shape.Shows whole) :
    t.listing = whole.elim [] (Branch.preorder 0) := by
  refine h.preorder_listing.unique ?_
  rw [← shows.top]
  cases whole with
  | none => exact .nil
  | some b => exact (shows.bears b rfl).preorder 0

theorem Sound.search_ne_none_iff (h : t.Sound fanOut) (shows : t.arena.shape.Shows whole) :
    t.search x ≠ none ↔ ∃ b ∈ whole, x ∈ b.labels := by
  rw [ne_eq, h.search_eq_none_iff]
  constructor
  · intro here
    obtain ⟨p, hp⟩ := Option.ne_none_iff_exists'.mp here
    obtain ⟨height, listed⟩ := h.mem_listing hp
    rw [h.listing_eq shows] at listed
    cases whole with
    | none => cases listed
    | some b =>
        refine ⟨b, rfl, ?_⟩
        rw [← b.map_fst_preorder 0]
        exact List.mem_map_of_mem listed
  · rintro ⟨b, hb, inside⟩
    obtain ⟨p, hp⟩ := (shows.bears b hb).exists_place inside
    rw [hp]
    nofun

theorem Sound.mem_listing_fst_iff (h : t.Sound fanOut) :
    x ∈ t.listing.map Prod.fst ↔ t.search x ≠ none := by
  obtain ⟨whole, shows⟩ := h.exists_shows
  rw [h.listing_eq shows, h.search_ne_none_iff shows]
  cases whole with
  | none => simp
  | some b => simp [b.map_fst_preorder]

theorem Sound.size_eq_length (h : t.Sound fanOut) : t.size = t.listing.length := by
  have members : {x | t.arena.shape.place x ≠ none} =
      {x | x ∈ (t.listing.map Prod.fst).toFinset} := by
    ext x
    rw [Set.mem_ofPred_eq, Set.mem_ofPred_eq, List.mem_toFinset, h.mem_listing_fst_iff, ne_eq, ne_eq,
      h.search_eq_none_iff]
  have size := h.size_eq
  rw [members, Finset.setOfPred_mem, Set.encard_coe_eq_coe_finsetCard,
    List.toFinset_card_of_nodup h.nodup_listing, List.length_map] at size
  exact_mod_cast size

theorem Sound.ncard_level (h : t.Sound fanOut) (level : ℕ) :
    {x | (x, level) ∈ t.listing}.ncard = t.listing.countP fun e => e.2 = level := by
  have members : {x | (x, level) ∈ t.listing} =
      {x | x ∈ ((t.listing.filter fun e => e.2 = level).map Prod.fst).toFinset} := by
    ext x
    simp
  have once : ((t.listing.filter fun e => e.2 = level).map Prod.fst).Nodup :=
    h.nodup_listing.sublist (List.filter_sublist.map Prod.fst)
  rw [members, Finset.setOfPred_mem, Set.ncard_coe_finset, List.toFinset_card_of_nodup once,
    List.length_map, List.countP_eq_length_filter]

end Tree
end TreeCluster
