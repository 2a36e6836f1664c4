import TreeCluster.Proofs.Tree.Descendants
import TreeCluster.Proofs.Tree.Shape

/-! # What an arena shows

The shape of an arena (`Arena.shape`) puts addresses in the place of slots.  Every change of an arena
is a change of its shape: more or less weight along a lineage, a first member, a new last child, a
member less (`shape_raise`, `shape_lower`, `shape_plant`, `shape_attach`, `shape_cut`).

So is every way through it: a lineage goes through the addresses that lead to the top
(`Lineage.line`), the way down to a member with room is one of the shape, and so is what a walk
meets (`WellFormed.descends`, `Preorder.shape`). -/

namespace TreeCluster.Arena

variable {a : Arena} {slot : ℕ} {x y : NodeAddress}

/-- The address in a slot. -/
def addressAt (a : Arena) (slot : ℕ) : Option NodeAddress :=
  (a.member? slot).map Member.address

/-- The addresses in some slots. -/
def addresses (a : Arena) (slots : List ℕ) : List NodeAddress :=
  slots.filterMap a.addressAt

/-- What can be seen of a member. -/
def placeOf (a : Arena) (m : Member) : Place :=
  ⟨m.parent.bind a.addressAt, a.addresses m.children, m.weight⟩

/-- What can be seen of an arena. -/
def shape (a : Arena) : Shape :=
  ⟨a.root.bind a.addressAt, fun x => ((a.slotOf x).bind a.member?).map a.placeOf⟩

/-! ### Slots and addresses -/

theorem addressAt_of {m : Member} (hm : a.member? slot = some m) :
    a.addressAt slot = some m.address := by
  rw [addressAt, hm]
  rfl

theorem Indexed.addressAt_iff (h : a.Indexed) : a.addressAt slot = some x ↔ a.slotOf x = some slot := by
  rw [h.slotOf_iff, addressAt, Option.map_eq_some_iff]

theorem Indexed.place_of (h : a.Indexed) {m : Member} (hm : a.member? slot = some m) :
    a.shape.place m.address = some (a.placeOf m) := by
  have hs := (h.slotOf_iff m.address slot).mpr ⟨m, hm, rfl⟩
  simp only [shape, hs, Option.bind_some, hm, Option.map_some]

theorem Indexed.exists_of_place (h : a.Indexed) {p : Place} (hp : a.shape.place x = some p) :
    ∃ slot m, a.slotOf x = some slot ∧ a.member? slot = some m ∧ m.address = x ∧
      p = a.placeOf m := by
  obtain ⟨m, hm, rfl⟩ := Option.map_eq_some_iff.mp hp
  obtain ⟨slot, hs, hm⟩ := Option.bind_eq_some_iff.mp hm
  obtain ⟨m', hm', same⟩ := (h.slotOf_iff x slot).mp hs
  obtain rfl := Option.some.inj (hm.symm.trans hm')
  exact ⟨slot, m, hs, hm, same, rfl⟩

theorem Indexed.place_eq_none_iff (h : a.Indexed) : a.shape.place x = none ↔ a.slotOf x = none := by
  constructor
  · intro none
    cases hs : a.slotOf x with
    | none => rfl
    | some slot =>
        obtain ⟨m, hm, rfl⟩ := (h.slotOf_iff x slot).mp hs
        rw [h.place_of hm] at none
        cases none
  · intro none
    simp only [shape, none, Option.bind_none, Option.map_none]

theorem Indexed.count_addresses (h : a.Indexed) (hs : a.slotOf x = some slot) (slots : List ℕ) :
    (a.addresses slots).count x = slots.count slot := by
  rw [addresses, List.count_filterMap, List.count_eq_countP]
  refine List.countP_congr fun other _ => ?_
  rw [beq_iff_eq, beq_iff_eq, h.addressAt_iff, hs, Option.some.injEq, eq_comm]

theorem addresses_cons {s : ℕ} (hs : a.addressAt s = some x) (slots : List ℕ) :
    a.addresses (s :: slots) = x :: a.addresses slots :=
  List.filterMap_cons_some hs

theorem addresses_append (slots more : List ℕ) :
    a.addresses (slots ++ more) = a.addresses slots ++ a.addresses more :=
  List.filterMap_append

theorem map_addressAt {slots : List ℕ} (full : ∀ s ∈ slots, ∃ m, a.member? s = some m) :
    slots.map a.addressAt = (a.addresses slots).map some := by
  induction slots with
  | nil => rfl
  | cons s slots ih =>
      obtain ⟨⟨m, hm⟩, others⟩ := List.forall_mem_cons.mp full
      rw [List.map_cons, ih others, addresses_cons (addressAt_of hm), List.map_cons, addressAt_of hm]

theorem length_addresses {slots : List ℕ} (full : ∀ s ∈ slots, ∃ m, a.member? s = some m) :
    (a.addresses slots).length = slots.length := by
  have := congrArg List.length (map_addressAt full)
  simpa using this.symm

theorem Linked.full_children (h : a.Linked) {m : Member} (hm : a.member? slot = some m) :
    ∀ s ∈ m.children, ∃ c, a.member? s = some c := by
  intro s hs
  obtain ⟨c, hc, -⟩ := h.child hm s hs
  exact ⟨c, hc⟩

theorem Linked.exists_parent (h : a.Linked) {m : Member} {parent : ℕ}
    (hm : a.member? slot = some m) (hp : m.parent = some parent) :
    ∃ p, a.member? parent = some p := by
  obtain ⟨q, p, hq, hmp, -⟩ := h.parent hm (h.not_root hm hp)
  obtain rfl := Option.some.inj (hp.symm.trans hq)
  exact ⟨p, hmp⟩

/-! ### Weights -/

theorem addressAt_reweigh (w : ℕ → ℕ → ℕ) : (a.reweigh w).addressAt = a.addressAt := by
  funext slot
  rw [addressAt, member?_reweigh, Option.map_map]
  rfl

theorem shape_reweigh {w : ℕ → ℕ → ℕ} {v : NodeAddress → ℕ → ℕ}
    (agree : ∀ slot x, a.slotOf x = some slot → w slot = v x) :
    (a.reweigh w).shape = a.shape.reweigh v := by
  ext1
  · simp only [shape, addressAt_reweigh]
    rfl
  · funext x
    have same : (a.reweigh w).slotOf x = a.slotOf x := rfl
    simp only [shape, Shape.reweigh, same]
    cases hs : a.slotOf x with
    | none => rfl
    | some slot =>
        rw [Option.bind_some, Option.bind_some, member?_reweigh]
        cases a.member? slot with
        | none => rfl
        | some m =>
            simp only [Option.map_some, placeOf, addresses, addressAt_reweigh, agree slot x hs]

theorem Indexed.shape_raise (h : a.Indexed) (slots : List ℕ) :
    (a.raise slots).shape = a.shape.raise (a.addresses slots) :=
  shape_reweigh fun slot x hs => by simp only [h.count_addresses hs]

theorem Indexed.shape_lower (h : a.Indexed) (slots : List ℕ) :
    (a.lower slots).shape = a.shape.lower (a.addresses slots) :=
  shape_reweigh fun slot x hs => by simp only [h.count_addresses hs]

/-! ### Members -/

theorem WellFormed.shape_plant (h : a.WellFormed) (hr : a.root = none) (x : NodeAddress) :
    (a.plant x).1.shape = Shape.single x := by
  have wf := h.plant hr x
  have only := @Linked.eq_of_member?_plant a h.toLinked h.toFreeList hr x
  have new : (a.plant x).1.member? (a.plant x).2 = some ⟨x, none, [], 0⟩ :=
    (member?_plant h.toFreeList x _).trans (if_pos rfl)
  ext1
  · have root : (a.plant x).1.root = some (a.plant x).2 := rfl
    rw [shape, root]
    exact addressAt_of new
  · funext y
    by_cases hy : y = x
    · rw [hy]
      exact (wf.place_of new).trans (if_pos rfl).symm
    · refine (wf.place_eq_none_iff.mpr ?_).trans (if_neg hy).symm
      rw [Option.eq_none_iff_forall_ne_some]
      intro slot hs
      obtain ⟨m, hm, rfl⟩ := (wf.slotOf_iff y slot).mp hs
      exact hy (congrArg Member.address (only hm).2)

section Attach

variable {parent : ℕ} {p : Member}

theorem slotOf_attach (a : Arena) (parent : ℕ) (x y : NodeAddress) :
    (a.attach parent x).1.slotOf y =
      if y = x then some (a.attach parent x).2 else a.slotOf y := by
  have index : (a.attach parent x).1.index = a.index.insert x (a.attach parent x).2 :=
    alloc_index a ⟨x, some parent, [], 0⟩
  rw [slotOf, index, Table.get?_insert]
  rfl

/-- A new child of a member, by their addresses. -/
theorem WellFormed.shape_attach (h : a.WellFormed) (hp : a.member? parent = some p) (x : NodeAddress) :
    (a.attach parent x).1.shape = a.shape.attach p.address x := by
  have free := h.toFreeList
  have new := (member?_attach x free hp (a.attach parent x).2).trans (if_pos rfl)
  have found {other : ℕ} {m : Member} (hm : a.member? other = some m) :=
    member?_attach_of x free hp hm
  -- all members stay where they were
  have keeps {other : ℕ} {m : Member} (hm : a.member? other = some m) :
      (a.attach parent x).1.addressAt other = a.addressAt other := by
    rw [addressAt_of (found hm), addressAt_of hm]
    rfl
  have keep {slots : List ℕ} (full : ∀ s ∈ slots, ∃ m, a.member? s = some m) :
      (a.attach parent x).1.addresses slots = a.addresses slots := by
    refine List.filterMap_congr fun s hs => ?_
    obtain ⟨m, hm⟩ := full s hs
    exact keeps hm
  ext1
  · show (a.attach parent x).1.root.bind _ = a.root.bind _
    rw [attach_root]
    cases hr : a.root with
    | none => rfl
    | some root =>
        obtain ⟨m, hm, -⟩ := h.root hr
        exact keeps hm
  · funext y
    simp only [shape, slotOf_attach, Shape.attach]
    by_cases hy : y = x
    · rw [if_pos hy, if_pos hy, Option.bind_some, new]
      simp only [Option.map_some, placeOf, Option.bind_some, keeps hp, addressAt_of hp]
      rfl
    · rw [if_neg hy, if_neg hy]
      cases hs : a.slotOf y with
      | none => rfl
      | some slot =>
          obtain ⟨m, hm, rfl⟩ := (h.slotOf_iff y slot).mp hs
          have full := h.toLinked.full_children hm
          have above : m.parent.bind (a.attach parent x).1.addressAt = m.parent.bind a.addressAt := by
            cases hq : m.parent with
            | none => rfl
            | some q =>
                obtain ⟨n, hn⟩ := h.toLinked.exists_parent hm hq
                exact keeps hn
          have here : slot = parent ↔ m.address = p.address := by
            constructor
            · rintro rfl
              rw [Option.some.inj (hm.symm.trans hp)]
            · intro same
              have := (h.slotOf_iff m.address parent).mpr ⟨p, hp, same.symm⟩
              exact Option.some.inj (hs.symm.trans this)
          simp only [Option.bind_some, hm, found hm, Option.map_some, placeOf, joined, above, ← here]
          by_cases same : slot = parent
          · simp only [if_pos same, addresses_append, keep full, addresses_cons (addressAt_of new)]
            rfl
          · simp only [if_neg same, keep full]

end Attach

section Cut

variable {m : Member}

theorem slotOf_cut (a : Arena) (slot : ℕ) (m : Member) (y : NodeAddress) :
    (a.cut slot m).slotOf y = if y = m.address then none else a.slotOf y := by
  have index : (a.cut slot m).index = a.index.erase m.address := by
    unfold cut disown
    cases m.parent <;> rfl
  rw [slotOf, index]
  exact Table.get?_erase a.index m.address y

theorem addressAt_cut (slot : ℕ) (m : Member) (other : ℕ) :
    (a.cut slot m).addressAt other = if other = slot then none else a.addressAt other := by
  rw [addressAt, member?_cut]
  split
  · rfl
  · rw [Option.map_map]
    rfl

theorem Indexed.addresses_cut (h : a.Indexed) (hm : a.member? slot = some m) (slots : List ℕ) :
    (a.cut slot m).addresses slots = (a.addresses slots).filter (· ≠ m.address) ∧
      (a.cut slot m).addresses (slots.filter (· ≠ slot)) = (a.cut slot m).addresses slots := by
  constructor
  · rw [addresses, addresses, List.filter_filterMap]
    refine List.filterMap_congr fun other _ => ?_
    rw [addressAt_cut]
    by_cases same : other = slot
    · simp [same, addressAt_of hm, Option.filter]
    · rw [if_neg same]
      cases hx : a.addressAt other with
      | none => rfl
      | some x =>
          have apart : x ≠ m.address := by
            rintro rfl
            have own := (h.slotOf_iff m.address slot).mpr ⟨m, hm, rfl⟩
            exact same (Option.some.inj ((h.addressAt_iff.mp hx).symm.trans own))
          simp [apart, Option.filter]
  · rw [addresses, addresses, List.filterMap_filter]
    refine List.filterMap_congr fun other _ => ?_
    rw [addressAt_cut]
    by_cases same : other = slot
    · simp [same]
    · simp [same]

/-- A member without children less, by their addresses. -/
theorem WellFormed.shape_cut (h : a.WellFormed) (hm : a.member? slot = some m)
    (leaf : m.children = []) : (a.cut slot m).shape = a.shape.cut m.address := by
  have own := (h.slotOf_iff m.address slot).mpr ⟨m, hm, rfl⟩
  ext1
  · show (a.cut slot m).root.bind _ = if a.shape.top = some m.address then none else a.shape.top
    rw [cut_root]
    by_cases top : a.root = some slot
    · have here : a.shape.top = some m.address := by
        rw [shape, top]
        exact addressAt_of hm
      rw [if_pos top, if_pos here]
      rfl
    · have elsewhere : a.shape.top ≠ some m.address := by
        intro here
        obtain ⟨root, hr, same⟩ := Option.bind_eq_some_iff.mp here
        rw [h.addressAt_iff, own] at same
        exact top (hr.trans same.symm)
      rw [if_neg top, if_neg elsewhere, shape]
      cases hr : a.root with
      | none => rfl
      | some root =>
          have apart : root ≠ slot := fun same => top (same ▸ hr)
          rw [Option.bind_some, Option.bind_some, addressAt_cut, if_neg apart]
  · funext y
    simp only [shape, slotOf_cut, Shape.cut]
    by_cases hy : y = m.address
    · rw [if_pos hy, if_pos hy, Option.bind_none, Option.map_none]
    · rw [if_neg hy, if_neg hy]
      cases hs : a.slotOf y with
      | none => rfl
      | some other =>
          obtain ⟨n, hn, rfl⟩ := (h.slotOf_iff y other).mp hs
          have apart : other ≠ slot := by
            rintro rfl
            rw [Option.some.inj (hm.symm.trans hn)] at hy
            exact hy rfl
          have above : n.parent.bind (a.cut slot m).addressAt = n.parent.bind a.addressAt := by
            cases hq : n.parent with
            | none => rfl
            | some q =>
                -- the parent has a child, so it is not the member that is taken out
                have stays : q ≠ slot := by
                  rintro rfl
                  have listed := (h.toLinked.mem_children_iff hm hn).mpr hq
                  rw [leaf] at listed
                  cases listed
                rw [Option.bind_some, Option.bind_some, addressAt_cut, if_neg stays]
          obtain ⟨names, gone⟩ := h.addresses_cut hm n.children
          simp only [Option.bind_some, hn, member?_cut_of hn apart, Option.map_some, placeOf, parted,
            above]
          split
          · rw [gone, names]
          · rw [names]

end Cut

/-! ### Up to the root -/

/-- A lineage goes through the addresses that lead to the top. -/
theorem Lineage.line {line : List ℕ} (hl : a.Lineage slot line) (h : a.Indexed)
    (hx : a.addressAt slot = some x) : a.shape.Line x (a.addresses line) := by
  induction hl generalizing x with
  | root _ hm hp =>
      obtain rfl := Option.some.inj ((addressAt_of hm).symm.trans hx)
      refine addresses_cons hx [] ▸ .top (h.place_of hm) ?_
      rw [placeOf, hp]
      rfl
  | step hm hp hl ih =>
      obtain rfl := Option.some.inj ((addressAt_of hm).symm.trans hx)
      obtain ⟨p, hmp⟩ := hl.exists_member hl.self_mem
      have up := addressAt_of hmp
      rw [addresses_cons hx]
      refine .step (h.place_of hm) ?_ (ih up)
      rw [placeOf, hp]
      exact up

/-! ### Down to a member with room -/

theorem Indexed.weight_shape (h : a.Indexed) (hx : a.addressAt slot = some x) :
    a.shape.weight x = a.weight slot := by
  obtain ⟨m, hm, rfl⟩ := Option.map_eq_some_iff.mp hx
  simp only [Shape.weight, h.place_of hm, Arena.weight, hm]
  rfl

/-- The first lightest slot and the first lightest address. -/
theorem Indexed.lighter_shape (h : a.Indexed) {best : ℕ} (hb : a.addressAt best = some x)
    {slots : List ℕ} (full : ∀ s ∈ slots, ∃ m, a.member? s = some m) :
    a.addressAt (a.lighter best slots) = some (a.shape.lighter x (a.addresses slots)) := by
  induction slots generalizing best x with
  | nil => exact hb
  | cons s slots ih =>
      obtain ⟨⟨m, hm⟩, others⟩ := List.forall_mem_cons.mp full
      rw [addresses_cons (addressAt_of hm), lighter, Shape.lighter, h.weight_shape hb,
        h.weight_shape (addressAt_of hm)]
      by_cases less : a.weight s < a.weight best
      · rw [if_pos less, if_pos less]
        exact ih (addressAt_of hm) others
      · rw [if_neg less, if_neg less]
        exact ih hb others

theorem Indexed.lightest_shape (h : a.Indexed) {slots : List ℕ}
    (full : ∀ s ∈ slots, ∃ m, a.member? s = some m) {child : ℕ}
    (lightest : a.lightest slots = some child) :
    ∃ y, a.addressAt child = some y ∧ a.shape.lightest (a.addresses slots) = some y := by
  cases slots with
  | nil => cases lightest
  | cons s slots =>
      obtain rfl := Option.some.inj lightest
      obtain ⟨⟨m, hm⟩, others⟩ := List.forall_mem_cons.mp full
      refine ⟨_, h.lighter_shape (addressAt_of hm) others, ?_⟩
      rw [addresses_cons (addressAt_of hm)]
      rfl

/-- The way down is that of the shape, also in the weight that it adds. -/
theorem WellFormed.descends (h : a.WellFormed) {fanOut fuel p : ℕ} {b : Arena}
    (hx : a.addressAt slot = some x) (ok : Checked.descend a fanOut slot fuel = .ok (b, p)) :
    ∃ y above, a.addressAt p = some y ∧ a.shape.Descends fanOut x (y :: above) ∧
      b.shape = a.shape.raise (y :: above) := by
  induction fuel generalizing a slot x with
  | zero => cases ok
  | succ fuel ih =>
      obtain ⟨m, hm, rfl⟩ := Option.map_eq_some_iff.mp hx
      have full := h.toLinked.full_children hm
      have place := h.place_of hm
      have few : (a.placeOf m).children.length = m.children.length := length_addresses full
      have once : (a.raise [slot]).shape = a.shape.raise [m.address] := by
        rw [h.toIndexed.shape_raise, addresses_cons hx]
        rfl
      unfold Checked.descend at ok
      simp only [Checked.member_of hm, Checked.ok_bind, modify_eq_raise] at ok
      by_cases room : m.children.length < fanOut
      · simp only [if_pos room] at ok
        obtain ⟨rfl, rfl⟩ := Prod.mk.inj (Except.ok.inj ok)
        exact ⟨m.address, [], hx, .here place (few ▸ room), once⟩
      · simp only [if_neg room] at ok
        have wf : (a.raise [slot]).WellFormed := h.reweigh _
        have hm' : (a.raise [slot]).member? slot = some _ := member?_reweigh_of hm
        have full' := wf.toLinked.full_children hm'
        cases hc : m.children with
        | nil =>
            rw [hc] at ok
            cases ok
        | cons first more =>
            have nonempty : m.children ≠ [] := by
              rw [hc]
              exact List.cons_ne_nil _ _
            obtain ⟨child, listed, plain, checked⟩ := checked_lightest nonempty full'
            simp only [checked, Checked.ok_bind] at ok
            obtain ⟨z, hz, lightest⟩ := wf.toIndexed.lightest_shape full' plain
            obtain ⟨y, above, hy, way, after⟩ := ih wf hz ok
            have same : (a.raise [slot]).addressAt = a.addressAt := addressAt_reweigh _
            rw [once] at lightest way after
            rw [same] at hy
            rw [addresses, same] at lightest
            refine ⟨y, above ++ [m.address], hy, .down place (few ▸ room) lightest way, ?_⟩
            rw [after, Shape.raise_raise]
            rfl

/-! ### Placing and taking out -/

variable {fanOut : ℕ}

theorem Sound.inserts (h : a.Sound fanOut) (hw : 0 < fanOut) (x : NodeAddress) :
    a.shape.Inserts fanOut x (a.insert fanOut x).1.shape := by
  unfold insert
  cases hr : a.root with
  | none =>
      have rootless : a.shape.top = none := by
        rw [shape, hr]
        rfl
      have planted : (a.plant x).1.shape = Shape.single x := h.toWellFormed.shape_plant hr x
      exact planted ▸ .first rootless
  | some root =>
      obtain ⟨m, hm, none⟩ := h.root hr
      obtain ⟨way, p, n, plain, checked, line, hn, room⟩ :=
        h.toWellFormed.checked_descend hw (.root hr hm none) (a.slots.size + 1) (by simp)
      obtain ⟨y, above, hy, descends, raised⟩ := h.toWellFormed.descends (addressAt_of hm) checked
      have top : a.shape.top = some m.address := by
        rw [shape, hr]
        exact addressAt_of hm
      have wf : (a.raise way).WellFormed := h.toWellFormed.reweigh _
      have hn' : (a.raise way).member? p = some _ := member?_reweigh_of hn
      obtain rfl := Option.some.inj ((addressAt_of hn).symm.trans hy)
      have attached := wf.shape_attach hn' x
      rw [raised] at attached
      simp only [plain]
      show Shape.Inserts fanOut x a.shape ((a.raise way).attach p x).1.shape
      rw [attached]
      exact .below top descends

theorem Sound.detach_shape (h : a.Sound fanOut) {m : Member} (hm : a.member? slot = some m)
    (leaf : m.children = []) :
    ∃ above, a.shape.Line m.address (m.address :: above) ∧
      (a.detach slot m).shape = (a.shape.lower above).cut m.address := by
  obtain ⟨line, hl⟩ := h.lineage hm
  obtain ⟨above, rfl⟩ := hl.exists_eq_cons
  have up := hl.line h.toIndexed (addressAt_of hm)
  rw [addresses_cons (addressAt_of hm)] at up
  have outside : slot ∉ above := (List.nodup_cons.mp hl.nodup).1
  have wf : (a.lower above).WellFormed := h.toWellFormed.reweigh _
  have hm' : (a.lower above).member? slot = some m := by
    rw [lower, member?_reweigh_of hm, List.count_eq_zero.mpr outside]
    rfl
  refine ⟨a.addresses above, up, ?_⟩
  rw [(h.detach_eq hm hl).1, wf.shape_cut hm' leaf, h.toIndexed.shape_lower]

/-! ### Walks -/

/-- The addresses in some slots, with the heights of these. -/
def labels (a : Arena) (order : List (ℕ × ℕ)) : List (NodeAddress × ℕ) :=
  order.filterMap fun e => (a.addressAt e.1).map (·, e.2)

theorem labels_cons {height : ℕ} (hx : a.addressAt slot = some x) (order : List (ℕ × ℕ)) :
    a.labels ((slot, height) :: order) = (x, height) :: a.labels order :=
  List.filterMap_cons_some (by rw [hx]; rfl)

theorem labels_append (order more : List (ℕ × ℕ)) :
    a.labels (order ++ more) = a.labels order ++ a.labels more :=
  List.filterMap_append

theorem labels_map (slots : List ℕ) (height : ℕ) :
    a.labels (slots.map (·, height)) = (a.addresses slots).map (·, height) := by
  rw [labels, List.filterMap_map, addresses, List.map_filterMap]
  rfl

/-- A walk meets the members in the pre-order of the shape. -/
theorem Preorder.shape {stack order : List (ℕ × ℕ)} (h : a.Preorder stack order) (hi : a.Indexed) :
    a.shape.Preorder (a.labels stack) (a.labels order) := by
  induction h with
  | nil => exact .nil
  | cons hm _ _ ihb ihr =>
      rw [labels_cons (addressAt_of hm), labels_cons (addressAt_of hm), labels_append]
      refine .cons (hi.place_of hm) ?_ ihr
      rw [labels_map] at ihb
      exact ihb

end TreeCluster.Arena
