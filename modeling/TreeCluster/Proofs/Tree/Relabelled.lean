import TreeCluster.Proofs.Tree.Placing

/-! # Who is added does not matter to the shape

Where a branch takes a member depends on sizes and room alone, so a branch with other labels takes
another member in the same place (`Takes.map`).  If one tree is another with other labels, it
therefore stays so when addresses are added to the one and their new labels to the other
(`Sound.exists_relabelled`), and the two have the same outline of heights, weights and numbers of
children (`Sound.outline_eq`).

A tree to which new addresses are added in two orders is a case of this, and so is one to which
different addresses are added: the outline is the same, and the one that comes at some point goes
where any other would have gone (`run_add_outline`). -/

namespace TreeCluster

namespace Branch

variable {α β : Type} {fanOut : ℕ} {y : α} {b b' : Branch α} {f : α → β}

/-- The branch with other labels. -/
def map (f : α → β) : Branch α → Branch β
  | ⟨x, children⟩ => ⟨f x, children.map (map f)⟩

theorem map_mk (f : α → β) (x : α) (children : List (Branch α)) :
    map f ⟨x, children⟩ = ⟨f x, children.map (map f)⟩ := by
  rw [map]

theorem preorder_map (f : α → β) (b : Branch α) (height : ℕ) :
    (b.map f).preorder height = (b.preorder height).map (Prod.map f id) := by
  induction b generalizing height with
  | mk x children ih =>
      rw [map_mk, preorder_mk, preorder_mk, List.map_cons, List.flatMap_map, List.map_flatMap]
      exact congrArg ((f x, height) :: ·) (List.flatMap_congr fun b hb => ih b hb (height + 1))

theorem labels_map (f : α → β) (b : Branch α) : (b.map f).labels = b.labels.map f := by
  rw [← map_fst_preorder _ 0, ← map_fst_preorder b 0, preorder_map, List.map_map, List.map_map]
  rfl

theorem size_map (f : α → β) (b : Branch α) : (b.map f).size = b.size := by
  rw [size, labels_map, List.length_map, size]

theorem top_map (f : α → β) (b : Branch α) : (b.map f).top = f b.top := by
  cases b with
  | mk x children => rw [map_mk, top_mk, top_mk]

theorem map_eq_self {f : α → α} (same : ∀ x ∈ b.labels, f x = x) : b.map f = b := by
  induction b with
  | mk x children ih =>
      rw [labels_mk, List.forall_mem_cons] at same
      have below : children.map (map f) = children.map id := List.map_congr_left fun b hb =>
        ih b hb fun y hy => same.2 y (List.mem_flatMap.mpr ⟨b, hb, hy⟩)
      rw [map_mk, same.1, below, List.map_id]

theorem Takes.map (h : b.Takes fanOut y b') (f : α → β) :
    (b.map f).Takes fanOut (f y) (b'.map f) := by
  induction h with
  | here room =>
      simp only [map_mk, List.map_append, List.map_cons, List.map_nil]
      exact .here (by rwa [List.length_map])
  | @down x front back b b' full first least _ ih =>
      rw [map_mk, map_mk, List.map_append, List.map_append, List.map_cons, List.map_cons]
      refine .down (by simpa using full) ?_ ?_ ih
      · simpa [size_map] using first
      · simpa [size_map] using least

theorem Grows.map {whole : Option (Branch α)} (h : Grows fanOut y whole b') (f : α → β) :
    Grows fanOut (f y) (whole.map (Branch.map f)) (b'.map f) := by
  cases h with
  | first =>
      rw [map_mk]
      exact .first
  | below takes => exact .below (takes.map f)

end Branch

namespace Shape

variable {s s' : Shape} {x : NodeAddress} {b : Branch NodeAddress}
  {f : NodeAddress → NodeAddress}

/-- Corresponding members of a branch and of that with other labels have corresponding children and
the same weight. -/
theorem Bears.exists_place_map (h : s.Bears b) (h' : s'.Bears (b.map f)) (inside : x ∈ b.labels) :
    ∃ p p', s.place x = some p ∧ s'.place (f x) = some p' ∧
      p'.children = p.children.map f ∧ p'.weight = p.weight := by
  induction h with
  | @mk x p children hp names weight _ ih =>
      rw [Branch.map_mk] at h'
      cases h' with
      | @mk _ p' _ hp' names' weight' bears' =>
          rw [Branch.labels_mk, List.mem_cons, List.mem_flatMap] at inside
          rcases inside with rfl | ⟨b, hb, inside⟩
          · refine ⟨p, p', hp, hp', ?_, ?_⟩
            · rw [names, names', List.map_map, List.map_map]
              exact List.map_congr_left fun b _ => b.top_map f
            · rw [weight, weight', List.map_map]
              exact congrArg List.sum (List.map_congr_left fun b _ => b.size_map f)
          · exact ih b hb (bears' _ (List.mem_map_of_mem hb)) inside

end Shape

namespace Tree

variable {fanOut : ℕ} {t t' : Tree} {x y : NodeAddress} {whole : Option (Branch NodeAddress)}
  {f : NodeAddress → NodeAddress}

/-- Height, weight and number of children of all members in pre-order. -/
def outline (t : Tree) : List (ℕ × Option ℕ × Option ℕ) :=
  t.listing.map fun e => (e.2, t.weightOf e.1, (t.childrenOf e.1).map List.length)

/-- The index of a member in pre-order.  With the outline it says where the member is. -/
def position (t : Tree) (x : NodeAddress) : ℕ :=
  (t.listing.map Prod.fst).idxOf x

theorem Sound.map_length_childrenOf (h : t.Sound fanOut) (x : NodeAddress) :
    (t.childrenOf x).map List.length =
      (t.arena.shape.place x).map fun p => p.children.length := by
  rw [h.childrenOf_eq, Option.map_map]
  refine Option.map_congr fun p hp => ?_
  rw [Function.comp_apply, List.length_filterMap_eq_countP, List.countP_eq_length]
  intro child listed
  rw [Option.isSome_iff_ne_none, ne_eq, h.search_eq_none_iff]
  exact h.place_ne_none_of_listed hp listed

theorem Sound.outline_eq (h : t.Sound fanOut) (h' : t'.Sound fanOut)
    (shows : t.arena.shape.Shows whole)
    (shows' : t'.arena.shape.Shows (whole.map (Branch.map f))) : t'.outline = t.outline := by
  unfold outline
  rw [h.listing_eq shows, h'.listing_eq shows']
  cases whole with
  | none => rfl
  | some b =>
      rw [Option.map_some, Option.elim_some, Option.elim_some, Branch.preorder_map, List.map_map]
      refine List.map_congr_left fun e he => ?_
      have inside : e.1 ∈ b.labels := b.map_fst_preorder 0 ▸ List.mem_map_of_mem he
      obtain ⟨p, p', hp, hp', children, weight⟩ :=
        (shows.bears b rfl).exists_place_map (shows'.bears _ rfl) inside
      simp only [Function.comp_apply, Prod.map_fst, Prod.map_snd, id_eq, h.weightOf_eq_place,
        h'.weightOf_eq_place, h.map_length_childrenOf, h'.map_length_childrenOf, hp, hp',
        Option.map_some, children, weight, List.length_map]

/-- Trees that differ in labels alone still do so after corresponding addresses have been added. -/
theorem Sound.exists_relabelled (h : t.Sound fanOut) (h' : t'.Sound fanOut)
    (shows : t.arena.shape.Shows whole)
    (shows' : t'.arena.shape.Shows (whole.map (Branch.map f))) {added : List NodeAddress}
    (once : added.Nodup) (once' : (added.map f).Nodup) (new : ∀ x ∈ added, ¬t.Member x)
    (new' : ∀ x ∈ added.map f, ¬t'.Member x) :
    ∃ whole', (t.run (added.map Op.add)).arena.shape.Shows whole' ∧
      (t'.run ((added.map f).map Op.add)).arena.shape.Shows (whole'.map (Branch.map f)) := by
  induction added generalizing t t' whole with
  | nil => exact ⟨whole, shows, shows'⟩
  | cons y added ih =>
      rw [List.map_cons] at once' new'
      rw [List.map_cons, List.map_cons, List.map_cons, Tree.run, Tree.run, Tree.apply, Tree.apply]
      obtain ⟨outside, once⟩ := List.nodup_cons.mp once
      obtain ⟨outside', once'⟩ := List.nodup_cons.mp once'
      obtain ⟨first, new⟩ := List.forall_mem_cons.mp new
      obtain ⟨first', new'⟩ := List.forall_mem_cons.mp new'
      obtain ⟨b, after, grows⟩ := h.exists_grows first shows
      obtain ⟨b', after', grows'⟩ := h'.exists_grows first' shows'
      obtain rfl := grows'.unique (grows.map f)
      refine ih (h.add y).2 (h'.add (f y)).2 after after' once once' (fun x hx => ?_) fun x hx => ?_
      · rw [h.member_add]
        exact not_or.mpr ⟨fun same => outside (same ▸ hx), new x hx⟩
      · rw [h'.member_add]
        exact not_or.mpr ⟨fun same => outside' (same ▸ hx), new' x hx⟩

theorem Sound.position_eq (h : t.Sound fanOut) (h' : t'.Sound fanOut)
    (shows : t.arena.shape.Shows whole)
    (shows' : t'.arena.shape.Shows (whole.map (Branch.map f))) (here : t.Member x) :
    t'.position (f x) = t.position x := by
  have inside := h.mem_listing_fst_iff.mpr here
  have names : t'.listing.map Prod.fst = (t.listing.map Prod.fst).map f := by
    rw [h.listing_eq shows, h'.listing_eq shows']
    cases whole with
    | none => rfl
    | some b => simp only [Option.map_some, Option.elim_some, Branch.map_fst_preorder, b.labels_map]
  have once := h'.nodup_listing
  rw [names] at once
  have there := once.idxOf_getElem ((t.listing.map Prod.fst).idxOf x)
    ((List.idxOf_lt_length_of_mem inside).trans_eq (List.length_map f).symm)
  rwa [List.getElem_map, List.getElem_idxOf, ← names] at there

/-! ### Two lists of new addresses -/

/-- The address at the same index of the second list, for one that is in the first. -/
def relabel (added added' : List NodeAddress) (x : NodeAddress) : NodeAddress :=
  added'.getD (added.idxOf x) x

theorem relabel_of_notMem {added added' : List NodeAddress} (length : added.length = added'.length)
    (outside : x ∉ added) : relabel added added' x = x := by
  rw [relabel, List.idxOf_eq_length outside, length, List.getD_eq_default _ _ (Nat.le_refl _)]

theorem map_relabel {added added' : List NodeAddress} (once : added.Nodup)
    (length : added.length = added'.length) : added.map (relabel added added') = added' := by
  refine List.ext_getElem (by rw [List.length_map, length]) fun i hi hi' => ?_
  rw [List.length_map] at hi
  rw [List.getElem_map, relabel, once.idxOf_getElem i hi, List.getD_eq_getElem _ _ hi']

/-- **Join order changes labels, never the shape.**  Take the tree that any run leaves, and two lists
of as many addresses that are new to it, in each list all different.  After adding the one or the
other the members are those of the list and those that were there, and the tree has the same heights,
weights and numbers of children in pre-order and the same size.  Those that were there have the same
position, and so have the new members at the same index of the lists.  If one list is the other in
another order, the members are the same. -/
theorem run_add_outline (fanOut : ℕ) (ops : List Op) {added added' : List NodeAddress}
    (once : added.Nodup) (once' : added'.Nodup) (length : added.length = added'.length)
    (new : ∀ x ∈ added ++ added', ¬((withFanOut fanOut).run ops).Member x) :
    let t := (withFanOut fanOut).run ops
    let u := t.run (added.map .add)
    let u' := t.run (added'.map .add)
    (∀ x, u.Member x ↔ x ∈ added ∨ t.Member x) ∧
    (∀ x, u'.Member x ↔ x ∈ added' ∨ t.Member x) ∧
    u'.outline = u.outline ∧ u'.size = u.size ∧
    (∀ x, t.Member x → u'.position x = u.position x) ∧
    (∀ (k : ℕ) x x', added[k]? = some x → added'[k]? = some x' → u'.position x' = u.position x) ∧
    (added.Perm added' → ∀ x, u'.Member x ↔ u.Member x) := by
  intro t u u'
  have sound : t.Sound (max fanOut 1) := ((sound_withFanOut fanOut).run ops).2
  have after : u.Sound (max fanOut 1) := (sound.run (added.map .add)).2
  have after' : u'.Sound (max fanOut 1) := (sound.run (added'.map .add)).2
  have members (x : NodeAddress) : u.Member x ↔ x ∈ added ∨ t.Member x :=
    sound.member_run_add added
  have members' (x : NodeAddress) : u'.Member x ↔ x ∈ added' ∨ t.Member x :=
    sound.member_run_add added'
  obtain ⟨newTo, newTo'⟩ := List.forall_mem_append.mp new
  have second : added.map (relabel added added') = added' := map_relabel once length
  have stays (x : NodeAddress) (here : t.Member x) : relabel added added' x = x :=
    relabel_of_notMem length fun listed => newTo x listed here
  obtain ⟨whole, shows⟩ := sound.exists_shows
  have same : whole.map (Branch.map (relabel added added')) = whole := by
    have each : ∀ b ∈ whole, b.map (relabel added added') = b := fun b hb =>
      Branch.map_eq_self fun x hx => stays x ((sound.search_ne_none_iff shows).mpr ⟨b, hb, hx⟩)
    exact (Option.map_congr each).trans Option.map_id'
  obtain ⟨whole', grown, grown'⟩ := sound.exists_relabelled sound shows (same.symm ▸ shows) once
    (second.symm ▸ once') newTo (second.symm ▸ newTo')
  rw [second] at grown'
  have outlines : u'.outline = u.outline := after.outline_eq after' grown grown'
  have positions (x : NodeAddress) (here : u.Member x) :
      u'.position (relabel added added' x) = u.position x :=
    after.position_eq after' grown grown' here
  refine ⟨members, members', outlines, ?_, fun x here => ?_, fun k x x' hx hx' => ?_,
    fun order x => ?_⟩
  · have entries := congrArg List.length outlines
    rwa [outline, outline, List.length_map, List.length_map, ← after.size_eq_length,
      ← after'.size_eq_length] at entries
  · have there := positions x ((members x).mpr (.inr here))
    rwa [stays x here] at there
  · have there := positions x ((members x).mpr (.inl (List.mem_of_getElem? hx)))
    rw [← second, List.getElem?_map, hx] at hx'
    rwa [Option.some.inj hx'] at there
  · rw [members, members', order.mem_iff]

/-- Two orders of three addresses that are added where a removal left one side lighter. -/
theorem run_add_outline_of_two_orders :
    let r : NodeAddress := ⟨"r", "h", 1⟩
    let a : NodeAddress := ⟨"a", "h", 2⟩
    let b : NodeAddress := ⟨"b", "h", 3⟩
    let c : NodeAddress := ⟨"c", "h", 4⟩
    let x : NodeAddress := ⟨"x", "h", 5⟩
    let y : NodeAddress := ⟨"y", "h", 6⟩
    let z : NodeAddress := ⟨"z", "h", 7⟩
    let t := (withFanOut 2).run [.add r, .add a, .add b, .add c, .remove b]
    let u := t.run ([x, y, z].map .add)
    let u' := t.run ([z, x, y].map .add)
    ([x, y, z].Nodup ∧ [z, x, y].Nodup ∧ [x, y, z].length = [z, x, y].length ∧
      ∀ w ∈ [x, y, z] ++ [z, x, y], ¬t.Member w) ∧
    (u.Member x ∧ u'.Member z) ∧
    u'.outline = u.outline ∧ u'.position z = u.position x ∧ ∀ w, u'.Member w ↔ u.Member w := by
  intro r a b c x y z t u u'
  have once : [x, y, z].Nodup := by decide
  have once' : [z, x, y].Nodup := by decide
  have new : ∀ w ∈ [x, y, z] ++ [z, x, y], ¬t.Member w := by
    simp only [Member, t, r, a, b, c, x, y, z]
    decide +kernel
  have order : [x, y, z].Perm [z, x, y] := by decide
  obtain ⟨after, after', outlines, -, -, positions, members⟩ :=
    run_add_outline 2 [.add r, .add a, .add b, .add c, .remove b] once once' rfl new
  exact ⟨⟨once, once', rfl, new⟩, ⟨(after x).mpr (.inl (by simp)), (after' z).mpr (.inl (by simp))⟩,
    outlines, positions 0 x z rfl rfl, members order⟩

end Tree
end TreeCluster
