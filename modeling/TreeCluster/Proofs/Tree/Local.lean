import TreeCluster.Proofs.Tree.Alike

/-! # Changes of membership are local

A tree may have one member more than another, without children (`Shape.Gains`).  Placing a new
address leads from the second to the first, and taking out a member without children leads back
(`Sound.gains_add`, `Sound.gains_remove`).

Then every other member has the same path and the same parent in both trees, and its children stand
in the same order.  Only the members above the one in question have another weight, by one
(`Gains.oneMore`).  So an address that is placed and taken out again leaves nothing behind but the
memory of it, and a member keeps its path until it is taken out or the tree is cleared
(`run_local`). -/

namespace TreeCluster

variable {x y : NodeAddress}

namespace Shape

variable {s s' : Shape}

/-- A shape and the same with one more member, which has no children.  Weights are left open. -/
structure Gains (s : Shape) (x : NodeAddress) (s' : Shape) : Prop where
  absent : s.place x = none
  leaf : ∃ p, s'.place x = some p ∧ p.children = []
  others : ∀ y, y ≠ x → (s.place y).map (fun p => (p.parent, p.children)) =
    (s'.place y).map fun p => (p.parent, p.children.filter (· ≠ x))

theorem filter_ne_of_notMem {l : List NodeAddress} (h : x ∉ l) : l.filter (· ≠ x) = l :=
  List.filter_eq_self.mpr fun _ hy => decide_eq_true fun same => h (same ▸ hy)

theorem gains_single (vacant : ∀ y, s.place y = none) (x : NodeAddress) : s.Gains x (single x) where
  absent := vacant x
  leaf := ⟨_, if_pos rfl, rfl⟩
  others y hy := by simp [vacant, single, hy]

theorem gains_attach (new : s.place x = none)
    (unlisted : ∀ y p, s.place y = some p → x ∉ p.children) (way : List NodeAddress)
    (parent : NodeAddress) : s.Gains x ((s.raise way).attach parent x) where
  absent := new
  leaf := ⟨_, if_pos rfl, rfl⟩
  others y hy := by
    simp only [attach, raise, reweigh, if_neg hy]
    cases hp : s.place y with
    | none => rfl
    | some p =>
        have kept := filter_ne_of_notMem (unlisted y p hp)
        simp only [Option.map_some]
        split
        · rw [List.filter_append, kept]
          simp
        · rw [kept]

theorem gains_cut {p : Place} (hp : s.place x = some p) (leaf : p.children = [])
    (above : List NodeAddress) : ((s.lower above).cut x).Gains x s where
  absent := if_pos rfl
  leaf := ⟨p, hp, leaf⟩
  others y hy := by
    simp only [cut, lower, reweigh, if_neg hy, Option.map_map]
    rfl

namespace Gains

variable {p : Place}

theorem exists_after (h : s.Gains x s') (hp : s.place y = some p) :
    ∃ p', s'.place y = some p' ∧ p'.parent = p.parent ∧
      p'.children.filter (· ≠ x) = p.children := by
  have apart : y ≠ x := by
    rintro rfl
    rw [h.absent] at hp
    cases hp
  have same := h.others y apart
  rw [hp] at same
  obtain ⟨p', hp', same⟩ := Option.map_eq_some_iff.mp same.symm
  exact ⟨p', hp', (Prod.mk.inj same).1, (Prod.mk.inj same).2⟩

theorem exists_before (h : s.Gains x s') (apart : y ≠ x) (hp : s'.place y = some p) :
    ∃ q, s.place y = some q ∧ p.parent = q.parent ∧ p.children.filter (· ≠ x) = q.children := by
  have same := h.others y apart
  rw [hp] at same
  obtain ⟨q, hq, same⟩ := Option.map_eq_some_iff.mp same
  exact ⟨q, hq, (Prod.mk.inj same).1.symm, (Prod.mk.inj same).2.symm⟩

theorem place_eq_none_iff (h : s.Gains x s') (apart : y ≠ x) :
    s'.place y = none ↔ s.place y = none := by
  have same := congrArg Option.isNone (h.others y apart)
  rw [Option.isNone_map, Option.isNone_map] at same
  rw [← Option.isNone_iff_eq_none, ← Option.isNone_iff_eq_none, same]

theorem line (h : s.Gains x s') {line : List NodeAddress} (hl : s.Line y line) :
    s'.Line y line := by
  induction hl with
  | top hp root =>
      obtain ⟨p', hp', parent, -⟩ := h.exists_after hp
      exact .top hp' (parent.trans root)
  | step hp up _ ih =>
      obtain ⟨p', hp', parent, -⟩ := h.exists_after hp
      exact .step hp' (parent.trans up) ih

end Gains

end Shape

namespace Tree

variable {fanOut : ℕ} {t t' : Tree}

theorem Sound.search_eq_none_iff (h : t.Sound fanOut) :
    t.search x = none ↔ t.arena.shape.place x = none := by
  rw [h.arena.place_eq_none_iff, search, Option.map_eq_none_iff]

theorem Sound.place_ne_none_of_listed (h : t.Sound fanOut) {q : Place}
    (hq : t.arena.shape.place y = some q) (listed : x ∈ q.children) :
    t.arena.shape.place x ≠ none := by
  obtain ⟨slot, -, hs, -⟩ := (h.child_iff_place.mpr ⟨q, hq, listed⟩).exists_slotOf
  exact (h.exists_slotOf_iff x).mp ⟨slot, hs⟩

theorem Sound.place_eq_none_of_topless (h : t.Sound fanOut) (topless : t.arena.shape.top = none)
    (y : NodeAddress) : t.arena.shape.place y = none := by
  rw [← h.search_eq_none_iff, Option.eq_none_iff_forall_ne_some]
  intro path found
  obtain ⟨line, up, -⟩ := (h.search_iff y path).mp found
  obtain ⟨z, p, -, hp, root⟩ := up.exists_getLast?
  rw [h.top_iff.mpr ⟨p, hp, root⟩] at topless
  cases topless

theorem Sound.finite_below (h : t.Sound fanOut) (y : NodeAddress) : {b | t.Below b y}.Finite := by
  refine (Set.finite_of_encard_eq_coe h.size_eq.symm).subset fun b hb => ?_
  obtain ⟨slot, hs⟩ := Below.exists_slotOf hb
  exact (h.exists_slotOf_iff b).mp ⟨slot, hs⟩

/-! ### One member more -/

/-- Two sound trees, the second with one more member, which has no children. -/
structure Gains (fanOut : ℕ) (t : Tree) (x : NodeAddress) (t' : Tree) : Prop where
  before : t.Sound fanOut
  after : t'.Sound fanOut
  shape : t.arena.shape.Gains x t'.arena.shape

/-- A new address is one member more. -/
theorem Sound.gains_add (h : t.Sound fanOut) (new : t.search x = none) :
    Gains fanOut t x (t.add x).1 := by
  rw [h.search_eq_none_iff] at new
  refine ⟨h, (h.add x).2, ?_⟩
  rcases h.add_cases x with ⟨here, -⟩ | ⟨-, placed⟩
  · exact absurd new here
  · generalize (t.add x).1.arena.shape = s at placed
    cases placed with
    | first topless => exact Shape.gains_single (h.place_eq_none_of_topless topless) x
    | below _ _ =>
        refine Shape.gains_attach new (fun y p hp listed => ?_) _ _
        exact h.place_ne_none_of_listed hp listed new

/-- Without a member that had no children, a tree is one to which it can be added back. -/
theorem Sound.gains_remove (h : t.Sound fanOut) (childless : t.childrenOf x = some []) :
    (t.remove x).2 = true ∧ Gains fanOut (t.remove x).1 x t := by
  have sound := (h.remove x).2
  rw [h.childrenOf_eq] at childless
  obtain ⟨p, hp, none⟩ := Option.map_eq_some_iff.mp childless
  have leaf : p.children = [] := by
    rw [List.filterMap_eq_nil_iff] at none
    refine List.eq_nil_iff_forall_not_mem.mpr fun child listed => ?_
    exact h.place_ne_none_of_listed hp listed (h.search_eq_none_iff.mp (none child listed))
  rcases h.remove_cases x with ⟨busy, -⟩ | ⟨_, above, -, -, -, gone, after⟩
  · exact absurd leaf (busy p hp)
  · exact ⟨gone, sound, h, after ▸ Shape.gains_cut hp leaf above⟩

namespace Gains

variable {b : NodeAddress}

theorem child (h : Gains fanOut t x t') (hc : t.Child b y) : t'.Child b y := by
  obtain ⟨q, hq, listed⟩ := h.before.child_iff_place.mp hc
  obtain ⟨q', hq', -, same⟩ := h.shape.exists_after hq
  exact h.after.child_iff_place.mpr ⟨q', hq', List.mem_of_mem_filter (same ▸ listed)⟩

theorem not_child (h : Gains fanOut t x t') : ¬t'.Child b x := by
  intro hc
  obtain ⟨q, hq, listed⟩ := h.after.child_iff_place.mp hc
  obtain ⟨p, hp, leaf⟩ := h.shape.leaf
  obtain rfl := Option.some.inj (hq.symm.trans hp)
  rw [leaf] at listed
  cases listed

theorem child_before (h : Gains fanOut t x t') (other : b ≠ x) (hc : t'.Child b y) :
    t.Child b y := by
  have apart : y ≠ x := fun same => h.not_child (same ▸ hc)
  obtain ⟨q', hq', listed⟩ := h.after.child_iff_place.mp hc
  obtain ⟨q, hq, -, same⟩ := h.shape.exists_before apart hq'
  refine h.before.child_iff_place.mpr ⟨q, hq, ?_⟩
  rw [← same]
  exact List.mem_filter.mpr ⟨listed, decide_eq_true other⟩

theorem below (h : Gains fanOut t x t') (hb : t.Below b y) : t'.Below b y :=
  Relation.TransGen.mono (fun _ _ => h.child) _ _ hb

/-- The way down to another member does not come through one without children. -/
theorem below_before (h : Gains fanOut t x t') (other : b ≠ x) (hb : t'.Below b y) :
    t.Below b y := by
  induction hb using Relation.TransGen.head_induction_on with
  | single hc => exact .single (h.child_before other hc)
  | @head b c hc _ ih =>
      have apart : c ≠ x := fun same => h.not_child (same ▸ hc)
      exact .head (h.child_before other hc) (ih apart)

theorem not_below_before (h : Gains fanOut t x t') : ¬t.Below x y := by
  intro hb
  obtain ⟨slot, hs⟩ := hb.exists_slotOf
  exact (h.before.exists_slotOf_iff x).mp ⟨slot, hs⟩ h.shape.absent

theorem not_below_self (h : Gains fanOut t x t') : ¬t'.Below b x := by
  intro hb
  cases hb with
  | single hc => exact h.not_child hc
  | tail _ hc => exact h.not_child hc

/-! ### Weights -/

theorem weightOf_eq (h : Gains fanOut t x t') (apart : y ≠ x) {k : ℕ}
    (more : {b | t'.Below b y}.ncard = {b | t.Below b y}.ncard + k) :
    t'.weightOf y = (t.weightOf y).map (· + k) := by
  rw [h.before.weightOf_eq_place, h.after.weightOf_eq_place]
  cases hp : t.arena.shape.place y with
  | none => rw [(h.shape.place_eq_none_iff apart).mpr hp]; rfl
  | some p =>
      obtain ⟨p', hp', -⟩ := h.shape.exists_after hp
      rw [hp', Option.map_some, Option.map_some, Option.map_some, h.before.weight_eq_ncard hp,
        h.after.weight_eq_ncard hp', more]

theorem weightOf_of_below (h : Gains fanOut t x t') (hb : t'.Below x y) :
    t'.weightOf y = (t.weightOf y).map (· + 1) := by
  refine h.weightOf_eq (fun same => h.not_below_self (same ▸ hb)) ?_
  have whole : {b | t'.Below b y} = insert x {b | t.Below b y} := by
    ext b
    constructor
    · intro below
      by_cases same : b = x
      · exact .inl same
      · exact .inr (h.below_before same below)
    · rintro (rfl | below)
      · exact hb
      · exact h.below below
  have new : x ∉ {b | t.Below b y} := h.not_below_before
  rw [whole, Set.ncard_insert_of_notMem new (h.before.finite_below y)]

theorem weightOf_of_not_below (h : Gains fanOut t x t') (apart : y ≠ x) (hb : ¬t'.Below x y) :
    t'.weightOf y = t.weightOf y := by
  have same : {b | t'.Below b y} = {b | t.Below b y} := by
    ext b
    refine ⟨fun below => h.below_before ?_ below, h.below⟩
    rintro rfl
    exact hb below
  have weight := h.weightOf_eq (k := 0) apart (by rw [same, add_zero])
  simpa only [add_zero, Option.map_id'] using weight

/-! ### Paths and children -/

theorem search_eq (h : Gains fanOut t x t') (apart : y ≠ x) : t'.search y = t.search y := by
  cases found : t.search y with
  | none =>
      rw [h.before.search_eq_none_iff] at found
      rw [h.after.search_eq_none_iff, h.shape.place_eq_none_iff apart, found]
  | some path =>
      obtain ⟨line, up, rfl⟩ := (h.before.search_iff y path).mp found
      exact (h.after.search_iff y _).mpr ⟨line, h.shape.line up, rfl⟩

theorem filterMap_search (h : Gains fanOut t x t') {others : List NodeAddress} (hx : x ∉ others) :
    others.filterMap t'.search = others.filterMap t.search :=
  List.filterMap_congr fun _ hy => h.search_eq fun same => hx (same ▸ hy)

theorem childrenOf_of_not_child (h : Gains fanOut t x t') (apart : y ≠ x) (hc : ¬t'.Child x y) :
    t'.childrenOf y = t.childrenOf y := by
  rw [h.before.childrenOf_eq, h.after.childrenOf_eq]
  cases hp : t.arena.shape.place y with
  | none => rw [(h.shape.place_eq_none_iff apart).mpr hp]; rfl
  | some p =>
      obtain ⟨p', hp', -, same⟩ := h.shape.exists_after hp
      have unlisted : x ∉ p'.children := fun listed => hc (h.after.child_iff_place.mpr ⟨p', hp', listed⟩)
      rw [hp', Option.map_some, Option.map_some, ← same, Shape.filter_ne_of_notMem unlisted,
        h.filterMap_search unlisted]

theorem childrenOf_of_child (h : Gains fanOut t x t') (hc : t'.Child x y) {path : NodePath}
    (found : t'.search x = some path) :
    ∃ front back, t.childrenOf y = some (front ++ back) ∧
      t'.childrenOf y = some (front ++ path :: back) := by
  have apart : y ≠ x := fun same => h.not_child (same ▸ hc)
  obtain ⟨p', hp', listed⟩ := h.after.child_iff_place.mp hc
  obtain ⟨p, hp, -, same⟩ := h.shape.exists_before apart hp'
  have once := h.after.count_children hp' listed
  obtain ⟨front, back, split, outside⟩ := List.eq_append_cons_of_mem listed
  rw [split, List.count_append, List.count_cons_self, List.count_eq_zero.mpr outside] at once
  have outside' : x ∉ back := List.count_eq_zero.mp (by omega)
  have children : p.children = front ++ back := by
    rw [← same, split, List.filter_append, Shape.filter_ne_of_notMem outside,
      List.filter_cons_of_neg (by simp), Shape.filter_ne_of_notMem outside']
  refine ⟨front.filterMap t.search, back.filterMap t.search, ?_, ?_⟩
  · rw [h.before.childrenOf_eq, hp, Option.map_some, children, List.filterMap_append]
  · rw [h.after.childrenOf_eq, hp', Option.map_some, split, List.filterMap_append,
      List.filterMap_cons_some found, h.filterMap_search outside, h.filterMap_search outside']

end Gains

/-! ### What can be seen of it -/

/-- The address of a member's parent; the root has none. -/
def parentOf (t : Tree) (x : NodeAddress) : Option NodeAddress :=
  (t.arena.shape.place x).bind Place.parent

/-- The addresses of a member's children, in order. -/
def offspring (t : Tree) (x : NodeAddress) : Option (List NodeAddress) :=
  (t.arena.shape.place x).map Place.children

/-- What two trees answer, the second of which has one more member, without children. -/
structure OneMore (t : Tree) (x : NodeAddress) (t' : Tree) : Prop where
  absent : t.search x = none
  present : ∃ path, t'.search x = some path
  childless : t'.childrenOf x = some []
  weightless : t'.weightOf x = some 0
  search : ∀ y, y ≠ x → t'.search y = t.search y
  parentOf : ∀ y, y ≠ x → t'.parentOf y = t.parentOf y
  offspring : ∀ y, y ≠ x → t.offspring y = (t'.offspring y).map (List.filter (· ≠ x))
  childrenOf : ∀ y, y ≠ x → ¬t'.Child x y → t'.childrenOf y = t.childrenOf y
  /-- The paths of its siblings stand in the same order before and after its own. -/
  siblings : ∀ y path, t'.Child x y → t'.search x = some path → ∃ front back,
    t.childrenOf y = some (front ++ back) ∧ t'.childrenOf y = some (front ++ path :: back)
  /-- Those above it weigh one more. -/
  above : ∀ y, t'.Below x y → t'.weightOf y = (t.weightOf y).map (· + 1)
  aside : ∀ y, y ≠ x → ¬t'.Below x y → t'.weightOf y = t.weightOf y

theorem Gains.oneMore (h : Gains fanOut t x t') : t.OneMore x t' := by
  obtain ⟨p, hp, leaf⟩ := h.shape.leaf
  refine
    { absent := h.before.search_eq_none_iff.mpr h.shape.absent
      present := ?_
      childless := ?_
      weightless := ?_
      search := fun y apart => h.search_eq apart
      parentOf := fun y apart => ?_
      offspring := fun y apart => ?_
      childrenOf := fun y => h.childrenOf_of_not_child
      siblings := fun y path hc found => h.childrenOf_of_child hc found
      above := fun y => h.weightOf_of_below
      aside := fun y => h.weightOf_of_not_below }
  · rw [← Option.ne_none_iff_exists', ne_eq, h.after.search_eq_none_iff, hp]
    nofun
  · rw [h.after.childrenOf_eq, hp, Option.map_some, leaf]
    rfl
  · have none : {b | t'.Below b x} = ∅ := Set.eq_empty_of_forall_notMem fun b => h.not_below_self
    rw [h.after.weightOf_eq_place, hp, Option.map_some, h.after.weight_eq_ncard hp, none,
      Set.ncard_empty]
  · have same := congrArg (Option.bind · Prod.fst) (h.shape.others y apart)
    simpa [Tree.parentOf, Option.bind_map] using same.symm
  · have same := congrArg (Option.map Prod.snd) (h.shape.others y apart)
    rw [Option.map_map, Option.map_map] at same
    rw [Tree.offspring, Tree.offspring, Option.map_map]
    exact same

/-! ### There and back -/

theorem Sound.childrenOf_add (h : t.Sound fanOut) (new : t.search x = none) :
    (t.add x).1.childrenOf x = some [] :=
  (h.gains_add new).oneMore.childless

/-- A new address that is taken out again leaves the tree as it was. -/
theorem Sound.alike_remove_add (h : t.Sound fanOut) (new : t.search x = none) :
    Alike fanOut ((t.add x).1.remove x).1 t := by
  have there := h.gains_add new
  obtain ⟨-, back⟩ := there.after.gains_remove (h.childrenOf_add new)
  refine .of_children back.before h fun y => ?_
  by_cases same : y = x
  · rw [same, there.shape.absent, back.shape.absent]
  · exact (back.oneMore.offspring y same).trans (there.oneMore.offspring y same).symm

/-! ### What changes nothing -/

theorem add_of_present {path : NodePath} (here : t.search x = some path) : t.add x = (t, path) := by
  obtain ⟨slot, hs, rfl⟩ := Option.map_eq_some_iff.mp here
  rw [add, hs]

theorem remove_of_absent (gone : t.search x = none) : t.remove x = (t, false) := by
  rw [search, Option.map_eq_none_iff] at gone
  rw [remove, gone]

theorem Sound.remove_of_parent (h : t.Sound fanOut) {path : NodePath} {more : List NodePath}
    (children : t.childrenOf x = some (path :: more)) : t.remove x = (t, false) := by
  rcases h.remove_cases x with ⟨-, same⟩ | ⟨p, -, hp, leaf, -⟩
  · exact same
  · rw [h.childrenOf_eq, hp, Option.map_some, leaf] at children
    cases children

theorem Sound.childrenOf_of_removed (h : t.Sound fanOut) (gone : (t.remove x).2 = true) :
    t.childrenOf x = some [] := by
  rcases h.remove_cases x with ⟨-, same⟩ | ⟨p, -, hp, leaf, -⟩
  · rw [same] at gone
    cases gone
  · rw [h.childrenOf_eq, hp, Option.map_some, leaf]
    rfl

/-! ### Paths along a run -/

/-- No entry of a log takes an address out or clears the tree.  A removal may be refused. -/
def SparesEntries (x : NodeAddress) (fresh : ℕ → String) : Tree → List ReplayEntry → Prop
  | _, [] => True
  | t, e :: rest =>
    e.action ≠ .clean ∧
      (e.action = .remove → e.path.node (fresh 0) = .ok x → (t.remove x).2 = false) ∧
      ∀ u, t.applyEntry (fresh 0) e = .ok u → SparesEntries x (fun k => fresh (k + 1)) u rest

/-- A change neither takes an address out nor clears the tree.  A removal may be refused. -/
def Spares (t : Tree) (x : NodeAddress) : Op → Prop
  | .add _ => True
  | .remove y => y = x → (t.remove x).2 = false
  | .clear => False
  | .replay fresh entries => SparesEntries x fresh t entries

/-- No change of a run takes an address out or clears the tree. -/
def SparesAll (x : NodeAddress) : Tree → List Op → Prop
  | _, [] => True
  | t, op :: ops => t.Spares x op ∧ SparesAll x (t.apply op) ops

variable {path : NodePath}

theorem Sound.search_of_add (h : t.Sound fanOut) (found : t.search x = some path)
    (y : NodeAddress) : (t.add y).1.search x = some path := by
  cases hy : t.search y with
  | some _ => rw [add_of_present hy, found]
  | none =>
      have apart : x ≠ y := by
        rintro rfl
        rw [hy] at found
        cases found
      rw [(h.gains_add hy).search_eq apart, found]

theorem Sound.search_of_remove (h : t.Sound fanOut) (found : t.search x = some path)
    {y : NodeAddress} (spared : y = x → (t.remove x).2 = false) :
    (t.remove y).1.search x = some path := by
  cases gone : (t.remove y).2 with
  | false => rw [fst_remove_of_refused gone, found]
  | true =>
      have apart : x ≠ y := by
        rintro rfl
        rw [spared rfl] at gone
        cases gone
      obtain ⟨-, back⟩ := h.gains_remove (h.childrenOf_of_removed gone)
      rw [← back.search_eq apart, found]

theorem Sound.search_of_replay (h : t.Sound fanOut) (found : t.search x = some path)
    {fresh : ℕ → String} {entries : List ReplayEntry} (spared : SparesEntries x fresh t entries) :
    (t.replay fresh entries).1.search x = some path := by
  induction entries generalizing t fresh with
  | nil => exact found
  | cons e rest ih =>
      obtain ⟨kept, refused, later⟩ := spared
      unfold Tree.replay
      cases applied : t.applyEntry (fresh 0) e with
      | error cause => exact found
      | ok u =>
          refine ih ((h.applyEntry (fresh 0) e).2 u applied) ?_ (later u applied)
          rcases applyEntry_cases applied with ⟨clean, -⟩ | ⟨-, y, -, rfl⟩ | ⟨action, y, read, rfl⟩
          · exact absurd clean kept
          · exact h.search_of_add found y
          · exact h.search_of_remove found fun same => refused action (same ▸ read)

theorem Sound.search_of_apply (h : t.Sound fanOut) (found : t.search x = some path) {op : Op}
    (spared : t.Spares x op) : (t.apply op).search x = some path := by
  cases op with
  | add y => exact h.search_of_add found y
  | remove y => exact h.search_of_remove found spared
  | clear => exact absurd spared id
  | replay fresh entries => exact h.search_of_replay found spared

theorem Sound.search_of_run (h : t.Sound fanOut) (found : t.search x = some path) {ops : List Op}
    (spared : SparesAll x t ops) : (t.run ops).search x = some path := by
  induction ops generalizing t with
  | nil => exact found
  | cons op ops ih => exact ih (h.apply op).2 (h.search_of_apply found spared.1) spared.2

/-- **Changes of membership are local.**  Take the tree that any run leaves, and an address.

If it is new, placing it makes one member more: every other member keeps its path, its parent and the
order of its children, and only those above the new member weigh more, by one.  Taking it out again
leaves a tree that gives the same answers as before, now and after any later changes.  Taking out a
member without children is the reverse of placing it.  Adding a member, removing an address that is
none and removing a member with children change nothing.

So a member keeps its path through all changes that neither take it out nor clear the tree. -/
theorem run_local (fanOut : ℕ) (ops : List Op) (x : NodeAddress) :
    let t := (withFanOut fanOut).run ops
    (t.search x = none →
      t.OneMore x (t.add x).1 ∧ (t.add x).1.search x = some (t.add x).2 ∧
      ((t.add x).1.remove x).2 = true ∧ ((t.add x).1.remove x).1.fanOut = t.fanOut ∧
      (∀ later, SameAnswers (((t.add x).1.remove x).1.run later) (t.run later)) ∧
      t.remove x = (t, false)) ∧
    (t.childrenOf x = some [] → (t.remove x).2 = true ∧ (t.remove x).1.OneMore x t) ∧
    (∀ path more, t.childrenOf x = some (path :: more) → t.remove x = (t, false)) ∧
    ∀ path, t.search x = some path →
      t.add x = (t, path) ∧ ∀ later, SparesAll x t later → (t.run later).search x = some path := by
  intro t
  have sound := ((sound_withFanOut fanOut).run ops).2
  refine ⟨fun new => ?_, fun childless => ?_, fun path more => sound.remove_of_parent,
    fun path here => ⟨add_of_present here, fun later => sound.search_of_run here⟩⟩
  · have there := sound.gains_add new
    obtain ⟨gone, back⟩ := there.after.gains_remove (sound.childrenOf_add new)
    have alike := sound.alike_remove_add new
    exact ⟨there.oneMore, search_add t x, gone, back.before.fanOut_eq.trans sound.fanOut_eq.symm,
      fun later => (alike.run later).sameAnswers, remove_of_absent new⟩
  · obtain ⟨gone, back⟩ := sound.gains_remove childless
    exact ⟨gone, back.oneMore⟩

/-- A tree of two members, one below the other, and a third address: it is new, the lower member has
no children, the upper one has, and the lower one keeps its path while its removal is refused. -/
theorem run_local_of_two_members :
    let r : NodeAddress := ⟨"r", "h", 1⟩
    let a : NodeAddress := ⟨"a", "h", 2⟩
    let b : NodeAddress := ⟨"b", "h", 3⟩
    let t := (withFanOut 1).run [.add r, .add a]
    (t.search b = none ∧ t.OneMore b (t.add b).1 ∧
      SameAnswers ((t.add b).1.remove b).1 t ∧ t.remove b = (t, false)) ∧
    (t.childrenOf a = some [] ∧ (t.remove a).1.OneMore a t) ∧
    (t.childrenOf r = some [⟨"r@h:1/a@h:2"⟩] ∧ t.remove r = (t, false)) ∧
    (t.search a = some ⟨"r@h:1/a@h:2"⟩ ∧ SparesAll a t [.add b, .remove a, .remove b] ∧
      t.add a = (t, ⟨"r@h:1/a@h:2"⟩) ∧
      (t.run [.add b, .remove a, .remove b]).search a = some ⟨"r@h:1/a@h:2"⟩) := by
  intro r a b t
  have new : t.search b = none := by cbv
  have childless : t.childrenOf a = some [] := by cbv
  have children : t.childrenOf r = some [⟨"r@h:1/a@h:2"⟩] := by cbv
  have here : t.search a = some ⟨"r@h:1/a@h:2"⟩ := by cbv
  have spared : SparesAll a t [.add b, .remove a, .remove b] :=
    ⟨trivial, fun _ => by cbv, fun same => absurd same (by decide), trivial⟩
  obtain ⟨more, -, -, -, restored, nothing⟩ := (run_local 1 [.add r, .add a] b).1 new
  obtain ⟨-, less⟩ := (run_local 1 [.add r, .add a] a).2.1 childless
  obtain ⟨again, keeps⟩ := (run_local 1 [.add r, .add a] a).2.2.2 _ here
  exact ⟨⟨new, more, restored [], nothing⟩, ⟨childless, less⟩,
    ⟨children, (run_local 1 [.add r, .add a] r).2.2.1 _ _ children⟩,
    here, spared, again, keeps _ spared⟩

end Tree
end TreeCluster
