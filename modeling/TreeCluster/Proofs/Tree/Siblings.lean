import TreeCluster.Proofs.Tree.Visits

/-! # Groups of siblings

A walk over groups of siblings offers the root alone, and then the children of each member that has
some, parents first (`Tree.families`), up to and including the first group that is accepted
(`Sound.floopGroup_eq_findM?`).  Every member is in exactly one of these groups, and at its own
height (`groups_perm`, `Sound.mem_groups`).

A group stands in the order in which its members came (`Arrived.sublist_of_mem_groups`).
`run_floopGroup` puts this together. -/

namespace TreeCluster.Tree

variable {fanOut : ℕ} {t : Tree} {arrivals : List NodeAddress}

/-! ### Groups -/

/-- The children of each member that has some, with their height, for some members with theirs. -/
def families (t : Tree) (order : List (NodeAddress × ℕ)) : List (ℕ × List NodeAddress) :=
  order.filterMap fun e =>
    match t.offspring e.1 with
    | some (x :: more) => some (e.2 + 1, x :: more)
    | _ => none

theorem mem_families {order : List (NodeAddress × ℕ)} {f : ℕ × List NodeAddress} :
    f ∈ t.families order ↔
      ∃ e ∈ order, t.offspring e.1 = some f.2 ∧ f.2 ≠ [] ∧ f.1 = e.2 + 1 := by
  obtain ⟨height, group⟩ := f
  simp only [families, List.mem_filterMap]
  refine exists_congr fun e => and_congr_right fun _ => ?_
  cases hc : t.offspring e.1 with
  | none => simp
  | some children =>
      cases children with
      | nil => grind
      | cons x more => grind

theorem flatMap_families (t : Tree) (order : List (NodeAddress × ℕ)) :
    (t.families order).flatMap Prod.snd =
      (order.map Prod.fst).flatMap fun x => (t.offspring x).getD [] := by
  induction order with
  | nil => rfl
  | cons e order ih =>
      rw [List.map_cons, List.flatMap_cons, ← ih, families, List.filterMap_cons]
      cases t.offspring e.1 with
      | none => rfl
      | some children => cases children <;> rfl

/-- The member on top of a branch and the children of all in it are the members of the branch. -/
theorem perm_of_bears {b : Branch NodeAddress} (bears : t.arena.shape.Bears b) :
    (b.top :: b.labels.flatMap fun x => (t.offspring x).getD []).Perm b.labels := by
  induction bears with
  | @mk x p children hp names _ _ ih =>
      have own : (t.offspring x).getD [] = children.map Branch.top := by
        rw [offspring, hp, Option.map_some, names, Option.getD_some]
      rw [Branch.top_mk, Branch.labels_mk, List.flatMap_cons, own, List.flatMap_assoc]
      refine List.Perm.cons x ((List.map_append_flatMap_perm _ _ _).trans ?_)
      exact List.Perm.flatMap_left children ih

variable {whole : Option (Branch NodeAddress)}

/-- The groups that a walk offers: the root alone, and then the children of each member. -/
def groups (t : Tree) (whole : Option (Branch NodeAddress)) : List (ℕ × List NodeAddress) :=
  whole.elim [] fun b => (0, [b.top]) :: t.families (b.preorder 0)

theorem groups_perm (shows : t.arena.shape.Shows whole) :
    ((t.groups whole).flatMap Prod.snd).Perm ((whole.elim [] (Branch.preorder 0)).map Prod.fst) := by
  cases whole with
  | none => exact .nil
  | some b =>
      simp only [groups, Option.elim_some, List.flatMap_cons, flatMap_families, b.map_fst_preorder]
      exact perm_of_bears (shows.bears b rfl)

theorem Sound.mem_groups (h : t.Sound fanOut) (shows : t.arena.shape.Shows whole)
    {f : ℕ × List NodeAddress} (hf : f ∈ t.groups whole) :
    f.2 ≠ [] ∧ ∀ x ∈ f.2, (x, f.1) ∈ t.listing := by
  cases whole with
  | none => cases hf
  | some b =>
      have listing : t.listing = b.preorder 0 := h.listing_eq shows
      rcases List.mem_cons.mp hf with rfl | hf
      · refine ⟨List.cons_ne_nil _ _, fun x hx => ?_⟩
        obtain rfl := List.mem_singleton.mp hx
        obtain ⟨top, children⟩ := b
        rw [listing, Branch.preorder_mk]
        exact List.mem_cons_self
      · obtain ⟨e, he, hc, some, height⟩ := mem_families.mp hf
        refine ⟨some, fun x hx => ?_⟩
        obtain ⟨q, hq, children⟩ := Option.map_eq_some_iff.mp hc
        obtain ⟨line, hl, length⟩ := h.exists_line_of_listed (listing ▸ he)
        have longer := h.line_of_listed hl hq (children ▸ hx)
        rw [h.mem_listing_iff longer, List.length_cons, length, height]

theorem Arrived.sublist_of_mem_groups (arrived : t.Arrived arrivals) (h : t.Sound fanOut)
    (shows : t.arena.shape.Shows whole) {f : ℕ × List NodeAddress} (hf : f ∈ t.groups whole) :
    f.2.Sublist arrivals := by
  cases whole with
  | none => cases hf
  | some b =>
      rcases List.mem_cons.mp hf with rfl | hf'
      · have listed := (h.mem_groups shows hf).2 b.top (List.mem_singleton_self _)
        have member := h.mem_listing_fst_iff.mp (List.mem_map_of_mem listed)
        exact List.singleton_sublist.mpr ((arrived.mem_iff b.top).mpr member)
      · obtain ⟨e, -, hc, -⟩ := mem_families.mp hf'
        exact arrived.siblings e.1 f.2 hc

/-! ### Walks -/

/-- A walk over groups offers their paths one group after the other, up to the first that is
accepted. -/
theorem Sound.floopGroup_eq_findM? (h : t.Sound fanOut) (shows : t.arena.shape.Shows whole)
    {m : Type → Type} [Monad m] [LawfulMonad m] (stop : ℕ → List NodePath → m Bool) :
    t.floopGroup stop = Option.map Prod.snd <$>
      ((t.groups whole).map fun f => (f.1, f.2.filterMap t.search)).findM? fun call =>
        stop call.1 call.2 := by
  rw [h.floopGroup_eq, h.root_eq, ← shows.top]
  cases whole with
  | none => simp [groups]
  | some b =>
      obtain ⟨path, hp⟩ : ∃ path, t.search b.top = some path := by
        rw [← Option.ne_none_iff_exists', h.search_ne_none_iff shows]
        refine ⟨b, rfl, ?_⟩
        obtain ⟨top, children⟩ := b
        rw [Branch.labels_mk]
        exact List.mem_cons_self
      have below : offer (fun height x => (t.childrenOf x).elim (pure false) fun group =>
            if group.isEmpty then pure false else stop (height + 1) group) t.childrenOf t.listing =
          Option.map Prod.snd <$>
            ((t.families t.listing).map fun f => (f.1, f.2.filterMap t.search)).findM? fun call =>
              stop call.1 call.2 := by
        rw [families, List.map_filterMap]
        refine offer_eq_findM?_filterMap stop fun e _ => ?_
        rw [h.childrenOf_eq, offspring]
        cases hq : t.arena.shape.place e.1 with
        | none => exact .inl ⟨rfl, rfl⟩
        | some q =>
            cases hc : q.children with
            | nil => exact .inl ⟨by simp [hc], by simp [hc]⟩
            | cons x more =>
                obtain ⟨first, found⟩ : ∃ first, t.search x = some first := by
                  rw [← Option.ne_none_iff_exists', ne_eq, h.search_eq_none_iff]
                  exact h.place_ne_none_of_listed hq (hc ▸ List.mem_cons_self)
                exact .inr ⟨(e.2 + 1, first :: more.filterMap t.search), by simp [hc, found],
                  by simp [hc, found], by simp [hc, found]⟩
      rw [h.listing_eq shows, Option.elim_some] at below
      simp only [groups, Option.elim_some, Option.map_some, Option.bind_some, hp, List.map_cons,
        List.filterMap_cons, List.filterMap_nil, List.findM?, map_bind, h.listing_eq shows, below]
      refine bind_congr fun accepted => ?_
      cases accepted with
      | true => simp
      | false => simp

/-- In all groups together a path is as often as it is that of a member. -/
theorem Sound.count_groups (h : t.Sound fanOut) (shows : t.arena.shape.Shows whole)
    (path : NodePath) :
    (((t.groups whole).map fun f => (f.1, f.2.filterMap t.search)).flatMap Prod.snd).count path =
      {x | t.search x = some path}.ncard := by
  have members : {x | t.search x = some path} =
      {x | x ∈ ((t.listing.map Prod.fst).filter fun x => t.search x == some path).toFinset} := by
    ext x
    rw [Set.mem_ofPred_eq, Set.mem_ofPred_eq, List.mem_toFinset, List.mem_filter,
      h.mem_listing_fst_iff, beq_iff_eq]
    exact ⟨fun hx => ⟨by simp [hx], hx⟩, And.right⟩
  have paths : ((t.groups whole).map fun f => (f.1, f.2.filterMap t.search)).flatMap Prod.snd =
      ((t.groups whole).flatMap Prod.snd).filterMap t.search := by
    rw [List.flatMap_map, List.filterMap_flatMap]
  rw [paths, ((groups_perm shows).filterMap t.search).count_eq, ← h.listing_eq shows,
    List.count_filterMap, members, Finset.setOfPred_mem, Set.ncard_coe_finset,
    List.toFinset_card_of_nodup (h.nodup_listing.filter _), List.countP_eq_length_filter]

/-- **A walk over groups visits a partition of the members.**  After every run the tree is the
branch of its root.  The groups are the root alone at height 0, and then, for each member with
children and in pre-order, its children at the height of the member plus one.

* Each member is in exactly one group, at its own height, and no group is empty.
* A group stands in the order in which its members came; this is an order of all members.
* A walk, whatever its predicate does, is that which calls it on the heights of these groups and the
  paths of those in them, in this order, until a call is accepted, and gives the paths of that call.
* Together the groups have each path as often as it is that of a member, hence exactly once if the
  members can be read from text with a name. -/
theorem run_floopGroup (fanOut : ℕ) (ops : List Op) :
    let t := (withFanOut fanOut).run ops
    let arrivals := (withFanOut fanOut).arrivalsIn [] ops
    ∃ whole, t.arena.shape.Shows whole ∧
      let order := whole.elim [] (Branch.preorder 0)
      let groups := t.groups whole
      let offers := groups.map fun f => (f.1, f.2.filterMap t.search)
      (order.map Prod.fst).Nodup ∧
      (∀ x, x ∈ order.map Prod.fst ↔ t.search x ≠ none) ∧
      (groups.flatMap Prod.snd).Perm (order.map Prod.fst) ∧
      (∀ f ∈ groups, f.2 ≠ [] ∧ ∀ x ∈ f.2, (x, f.1) ∈ order ∧ ∃ path, t.search x = some path) ∧
      arrivals.Perm (order.map Prod.fst) ∧
      (∀ f ∈ groups, f.2.Sublist arrivals) ∧
      (∀ (m : Type → Type) [Monad m] [LawfulMonad m] (stop : ℕ → List NodePath → m Bool),
        t.floopGroup stop =
          Option.map Prod.snd <$> offers.findM? fun call => stop call.1 call.2) ∧
      ∀ x path, t.search x = some path →
        (offers.flatMap Prod.snd).count path = {y | t.search y = some path}.ncard ∧
        ((∀ op ∈ ops, op.Readable) → (offers.flatMap Prod.snd).count path = 1) := by
  intro t arrivals
  have arrived : t.Arrived arrivals := arrived_run fanOut ops
  have sound : t.Sound (max fanOut 1) := ((sound_withFanOut fanOut).run ops).2
  obtain ⟨whole, shows⟩ := sound.exists_shows
  refine ⟨whole, shows, ?_⟩
  intro order groups offers
  have listing : t.listing = order := sound.listing_eq shows
  have member : ∀ x, x ∈ order.map Prod.fst ↔ t.search x ≠ none := by
    rw [← listing]
    exact fun x => sound.mem_listing_fst_iff
  have once : (order.map Prod.fst).Nodup := listing ▸ sound.nodup_listing
  have came : arrivals.Perm (order.map Prod.fst) := listing ▸ arrived.perm_listing sound
  refine ⟨once, member, groups_perm shows, fun f hf => ?_, came, fun f hf => ?_,
    fun m _ _ stop => ?_, fun x path hx => ?_⟩
  · obtain ⟨some, listed⟩ := sound.mem_groups shows hf
    refine ⟨some, fun x hx => ?_⟩
    have here : (x, f.1) ∈ order := listing ▸ listed x hx
    exact ⟨here, Option.ne_none_iff_exists'.mp ((member x).mp (List.mem_map_of_mem here))⟩
  · exact arrived.sublist_of_mem_groups sound shows hf
  · exact sound.floopGroup_eq_findM? shows stop
  · have count := sound.count_groups shows path
    refine ⟨count, fun readable => ?_⟩
    have legible := (legible_withFanOut fanOut).run readable
    have only : {y | t.search y = some path} = {x} := by
      ext y
      exact ⟨fun hy => sound.search_inj legible hy hx, fun hy => hy ▸ hx⟩
    rw [count, only, Set.ncard_singleton]

end TreeCluster.Tree
