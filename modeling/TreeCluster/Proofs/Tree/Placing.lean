import TreeCluster.Proofs.Tree.Branch
import TreeCluster.Proofs.Tree.Rebuilt

/-! # Where a new member goes

A branch takes a member as the last child of the one on top, if that has room, and else in the first
lightest branch below it (`Branch.Takes`).  This is where a sound tree places a new address
(`Sound.exists_grows`), and a branch and the member leave no choice (`Branch.Grows.unique`).

A run that only adds goes through such placements of the addresses that are new
(`Sound.member_run_add`). -/

namespace TreeCluster

namespace Branch

variable {α : Type} {fanOut : ℕ} {y : α} {b b' b'' : Branch α}

/-- The branch with one more member, which becomes the last child of the first one with room that is
met on the way down to the first lightest branch each time. -/
inductive Takes (fanOut : ℕ) (y : α) : Branch α → Branch α → Prop
  | here {x : α} {children : List (Branch α)} :
      children.length < fanOut → Takes fanOut y ⟨x, children⟩ ⟨x, children ++ [⟨y, []⟩]⟩
  | down {x : α} {front back : List (Branch α)} {b b' : Branch α} :
      ¬(front ++ b :: back).length < fanOut → (∀ a ∈ front, b.size < a.size) →
        (∀ a ∈ back, b.size ≤ a.size) → Takes fanOut y b b' →
          Takes fanOut y ⟨x, front ++ b :: back⟩ ⟨x, front ++ b' :: back⟩

/-- The branch of the root with one more member; without a root it is the only one. -/
inductive Grows (fanOut : ℕ) (y : α) : Option (Branch α) → Branch α → Prop
  | first : Grows fanOut y none ⟨y, []⟩
  | below {b b' : Branch α} : Takes fanOut y b b' → Grows fanOut y (some b) b'

/-- Of two first lightest branches neither comes after the other. -/
theorem front_length_le {front back front' back' : List (Branch α)}
    (same : front ++ b :: back = front' ++ b' :: back') (least : ∀ a ∈ back, b.size ≤ a.size)
    (first : ∀ a ∈ front', b'.size < a.size) : front'.length ≤ front.length := by
  rcases List.append_eq_append_iff.mp same with ⟨middle, rfl, rest⟩ | ⟨middle, rfl, -⟩
  · cases middle with
    | nil => simp
    | cons c middle =>
        obtain ⟨rfl, rfl⟩ := List.cons.inj rest
        have less := first b (by simp)
        have more := least b' (by simp)
        omega
  · simp

theorem Takes.unique (h : b.Takes fanOut y b') (h' : b.Takes fanOut y b'') : b' = b'' := by
  induction h generalizing b'' with
  | here room =>
      cases h' with
      | here _ => rfl
      | down full _ _ _ => exact absurd room full
  | @down x front back b b' full first least _ ih =>
      generalize whole : front ++ b :: back = children at h'
      cases h' with
      | here room => exact absurd room (whole ▸ full)
      | down _ first' least' rest =>
          have length := Nat.le_antisymm (front_length_le whole.symm least' first)
            (front_length_le whole least first')
          obtain ⟨rfl, tail⟩ := List.append_inj whole length
          obtain ⟨rfl, rfl⟩ := List.cons.inj tail
          rw [ih rest]

theorem Grows.unique {whole : Option (Branch α)} (h : Grows fanOut y whole b')
    (h' : Grows fanOut y whole b'') : b' = b'' := by
  cases h with
  | first =>
      cases h' with
      | first => rfl
  | below h =>
      cases h' with
      | below h' => exact h.unique h'

theorem Takes.top_eq (h : b.Takes fanOut y b') : b'.top = b.top := by
  cases h with
  | here _ => rfl
  | down _ _ _ _ => rfl

theorem Takes.size_eq (h : b.Takes fanOut y b') : b'.size = b.size + 1 := by
  induction h with
  | here _ => simp [size_mk]
  | down _ _ _ _ ih =>
      simp only [size_mk, List.map_append, List.map_cons, List.sum_append, List.sum_cons, ih]
      omega

end Branch

namespace Shape

variable {s : Shape} {fanOut : ℕ} {x y : NodeAddress} {b : Branch NodeAddress}

/-! ### The lightest of some members -/

theorem exists_lighter_split (s : Shape) (best : NodeAddress) (more : List NodeAddress) :
    ∃ front back, best :: more = front ++ s.lighter best more :: back ∧
      (∀ z ∈ front, s.weight (s.lighter best more) < s.weight z) ∧
      ∀ z ∈ back, s.weight (s.lighter best more) ≤ s.weight z := by
  induction more generalizing best with
  | nil => exact ⟨[], [], rfl, nofun, nofun⟩
  | cons x more ih =>
      rw [lighter]
      by_cases less : s.weight x < s.weight best
      · rw [if_pos less]
        obtain ⟨front, back, split, first, least⟩ := ih x
        refine ⟨best :: front, back, by rw [split, List.cons_append], ?_, least⟩
        refine List.forall_mem_cons.mpr ⟨?_, first⟩
        cases front with
        | nil => rwa [← (List.cons.inj split).1]
        | cons z front =>
            obtain ⟨rfl, -⟩ := List.cons.inj split
            exact (first x List.mem_cons_self).trans less
      · rw [if_neg less]
        obtain ⟨front, back, split, first, least⟩ := ih best
        cases front with
        | nil =>
            obtain ⟨same, rfl⟩ := List.cons.inj split
            refine ⟨[], x :: more, by rw [← same, List.nil_append], nofun, ?_⟩
            rw [← same] at least ⊢
            exact List.forall_mem_cons.mpr ⟨Nat.le_of_not_lt less, least⟩
        | cons z front =>
            obtain ⟨rfl, rest⟩ := List.cons.inj split
            obtain ⟨heavier, others⟩ := List.forall_mem_cons.mp first
            refine ⟨best :: x :: front, back, congrArg (best :: x :: ·) rest, ?_, least⟩
            refine List.forall_mem_cons.mpr ⟨heavier, List.forall_mem_cons.mpr ⟨?_, others⟩⟩
            exact heavier.trans_le (Nat.le_of_not_lt less)

theorem lightest_split {members : List NodeAddress} (h : s.lightest members = some x) :
    ∃ front back, members = front ++ x :: back ∧ (∀ z ∈ front, s.weight x < s.weight z) ∧
      ∀ z ∈ back, s.weight x ≤ s.weight z := by
  cases members with
  | nil => cases h
  | cons best more =>
      obtain rfl := Option.some.inj h
      exact s.exists_lighter_split best more

theorem Bears.weight_add_one (h : s.Bears b) : s.weight b.top + 1 = b.size := by
  cases h with
  | mk hp _ weight _ => simp only [Shape.weight, Branch.top_mk, hp, weight, Branch.size_mk]

/-! ### Placing a member in a branch -/

theorem place_raise_of_notMem {way : List NodeAddress} {z : NodeAddress} (aside : z ∉ way) :
    (s.raise way).place z = s.place z := by
  simp only [raise, reweigh, List.count_eq_zero.mpr aside]
  exact Option.map_id_apply

theorem place_attach_of_ne {parent z : NodeAddress} (other : z ≠ y) (apart : z ≠ parent) :
    (s.attach parent y).place z = s.place z := by
  simp only [attach, if_neg other, if_neg apart]
  exact Option.map_id_apply

/-- A branch without members on the way stays as it is. -/
theorem Bears.raise_attach (h : s.Bears b) (new : y ∉ b.labels) {parent : NodeAddress}
    {above : List NodeAddress} (aside : b.labels.Disjoint (parent :: above)) :
    ((s.raise (parent :: above)).attach parent y).Bears b := by
  refine h.congr fun z hz => ?_
  have other : z ≠ y := fun same => new (same ▸ hz)
  have apart : z ≠ parent := fun same => aside hz (same ▸ List.mem_cons_self)
  rw [place_attach_of_ne other apart, place_raise_of_notMem (aside hz)]

theorem bears_here {x : NodeAddress} {children : List (Branch NodeAddress)}
    (h : s.Bears ⟨x, children⟩) (once : x ∉ children.flatMap Branch.labels)
    (new : y ∉ x :: children.flatMap Branch.labels) :
    ((s.raise [x]).attach x y).Bears ⟨x, children ++ [⟨y, []⟩]⟩ := by
  rw [List.mem_cons, not_or] at new
  obtain ⟨other, new⟩ := new
  cases h with
  | @mk _ p _ hp names weight bears =>
      have here : ((s.raise [x]).attach x y).place x =
          some ⟨p.parent, p.children ++ [y], p.weight + 1⟩ := by
        simp [attach, raise, reweigh, hp, Ne.symm other]
      have leaf : ((s.raise [x]).attach x y).Bears ⟨y, []⟩ :=
        .mk (if_pos rfl) rfl rfl fun b hb => absurd hb List.not_mem_nil
      refine .mk here ?_ ?_ (List.forall_mem_append.mpr ⟨fun b hb => ?_, by simpa using leaf⟩)
      · simp [names]
      · simp [weight, Branch.size_mk]
      · refine (bears b hb).raise_attach (fun inside => new ?_) fun z hz hx => once ?_
        · exact List.mem_flatMap.mpr ⟨b, hb, inside⟩
        · obtain rfl := List.mem_singleton.mp hx
          exact List.mem_flatMap.mpr ⟨b, hb, hz⟩

theorem disjoint_of_nodup {front back : List (Branch NodeAddress)}
    (once : ((front ++ b :: back).flatMap Branch.labels).Nodup) {a : Branch NodeAddress}
    (ha : a ∈ front ∨ a ∈ back) : a.labels.Disjoint b.labels := by
  rw [List.flatMap_append, List.flatMap_cons, List.nodup_append', List.nodup_append'] at once
  obtain ⟨-, ⟨-, -, apart⟩, apart'⟩ := once
  intro z hz hz'
  rcases ha with ha | ha
  · exact apart' (List.mem_flatMap.mpr ⟨a, ha, hz⟩) (List.mem_append_left _ hz')
  · exact apart hz' (List.mem_flatMap.mpr ⟨a, ha, hz⟩)

/-- Where a branch takes the new member, that above it takes it. -/
theorem bears_down {x parent : NodeAddress} {above : List NodeAddress}
    {front back : List (Branch NodeAddress)} {b' : Branch NodeAddress}
    (h : s.Bears ⟨x, front ++ b :: back⟩)
    (once : (Branch.labels ⟨x, front ++ b :: back⟩).Nodup)
    (new : y ∉ Branch.labels ⟨x, front ++ b :: back⟩)
    (inside : parent :: above ⊆ b.labels) (takes : b.Takes fanOut y b')
    (inner : ((s.raise (parent :: (above ++ [x]))).attach parent y).Bears b') :
    ((s.raise (parent :: (above ++ [x]))).attach parent y).Bears ⟨x, front ++ b' :: back⟩ := by
  rw [Branch.labels_mk, List.mem_cons, not_or] at new
  rw [Branch.labels_mk, List.nodup_cons] at once
  obtain ⟨outside, once⟩ := once
  have notMem : x ∉ parent :: above :=
    fun hx => outside (List.mem_flatMap.mpr ⟨b, by simp, inside hx⟩)
  have other : x ≠ parent := fun same => notMem (same ▸ List.mem_cons_self)
  cases h with
  | @mk _ p _ hp names weight bears =>
      have here : ((s.raise (parent :: (above ++ [x]))).attach parent y).place x =
          some ⟨p.parent, p.children, p.weight + 1⟩ := by
        have once : (parent :: (above ++ [x])).count x = 1 := by
          rw [← List.cons_append, List.count_append, List.count_eq_zero.mpr notMem]
          simp
        simp [attach, raise, reweigh, hp, Ne.symm new.1, other, once]
      refine .mk here ?_ ?_ ?_
      · simp [names, takes.top_eq]
      · simp only [weight, List.map_append, List.map_cons, List.sum_append, List.sum_cons,
          takes.size_eq]
        omega
      · have others : ∀ a, a ∈ front ∨ a ∈ back →
            ((s.raise (parent :: (above ++ [x]))).attach parent y).Bears a := by
          intro a ha
          have listed : a ∈ front ++ b :: back := by
            rw [List.mem_append, List.mem_cons]
            exact ha.imp id .inr
          refine (bears a listed).raise_attach (fun hy => new.2 ?_) fun z hz hw => ?_
          · exact List.mem_flatMap.mpr ⟨a, listed, hy⟩
          · rw [← List.cons_append, List.mem_append, List.mem_singleton] at hw
            rcases hw with hw | rfl
            · exact disjoint_of_nodup once ha hz (inside hw)
            · exact outside (List.mem_flatMap.mpr ⟨a, listed, hz⟩)
        intro a ha
        rw [List.mem_append, List.mem_cons] at ha
        rcases ha with ha | rfl | ha
        · exact others a (.inl ha)
        · exact inner
        · exact others a (.inr ha)

/-- The lightest of the members on top of some branches is that of the first smallest branch. -/
theorem lightest_branch {branches : List (Branch NodeAddress)} (bears : ∀ a ∈ branches, s.Bears a)
    (h : s.lightest (branches.map Branch.top) = some x) :
    ∃ front b back, branches = front ++ b :: back ∧ b.top = x ∧
      (∀ a ∈ front, b.size < a.size) ∧ ∀ a ∈ back, b.size ≤ a.size := by
  obtain ⟨front', back', split, first, least⟩ := lightest_split h
  obtain ⟨front, _, rfl, rfl, tops⟩ := List.map_eq_append_iff.mp split
  obtain ⟨b, back, rfl, rfl, rfl⟩ := List.map_eq_cons_iff.mp tops
  have size : ∀ a ∈ front ++ b :: back, s.weight a.top + 1 = a.size :=
    fun a ha => (bears a ha).weight_add_one
  refine ⟨front, b, back, rfl, rfl, fun a ha => ?_, fun a ha => ?_⟩
  · rw [← size b (by simp), ← size a (by simp [ha])]
    exact Nat.succ_lt_succ (first a.top (List.mem_map_of_mem ha))
  · rw [← size b (by simp), ← size a (by simp [ha])]
    exact Nat.succ_le_succ (least a.top (List.mem_map_of_mem ha))

/-- The way down from the member on top to one with room ends where the branch takes a new member,
and the shape after the placement bears the branch with it. -/
theorem Bears.exists_takes (h : s.Bears b) (once : b.labels.Nodup) (new : y ∉ b.labels)
    {way : List NodeAddress} (descends : Descends fanOut s b.top way) :
    ∃ parent above b', way = parent :: above ∧ way ⊆ b.labels ∧ b.Takes fanOut y b' ∧
      ((s.raise way).attach parent y).Bears b' := by
  induction b generalizing s way with
  | mk x children ih =>
      have outside : x ∉ children.flatMap Branch.labels := by
        rw [Branch.labels_mk, List.nodup_cons] at once
        exact once.1
      cases h with
      | @mk _ p _ hp names weight bears =>
          have whole : s.Bears ⟨x, children⟩ := .mk hp names weight bears
          have length : p.children.length = children.length := by rw [names, List.length_map]
          cases descends with
          | here hp' room =>
              obtain rfl := Option.some.inj (hp.symm.trans hp')
              rw [Branch.labels_mk] at new ⊢
              exact ⟨x, [], _, rfl, by simp, .here (length ▸ room), bears_here whole outside new⟩
          | down hp' full lightest rest =>
              obtain rfl := Option.some.inj (hp.symm.trans hp')
              -- the branches below do not see that the member on top weighs more by now
              have kept : ∀ a ∈ children, (s.raise [x]).Bears a := by
                intro a ha
                refine (bears a ha).congr fun z hz => place_raise_of_notMem fun same => outside ?_
                obtain rfl := List.mem_singleton.mp same
                exact List.mem_flatMap.mpr ⟨a, ha, hz⟩
              obtain ⟨front, b, back, rfl, rfl, first, least⟩ :=
                lightest_branch kept (names ▸ lightest)
              have hb : b ∈ front ++ b :: back := by simp
              obtain ⟨parent, above, b', rfl, inside, takes, inner⟩ :=
                ih b hb (kept b hb) (Branch.nodup_labels_of_mem hb once)
                  (fun hy => new (Branch.labels_subset_of_mem hb hy)) rest
              rw [raise_raise] at inner
              refine ⟨parent, above ++ [x], _, rfl, List.append_subset.mpr ⟨?_, ?_⟩,
                .down (length ▸ full) first least takes, bears_down whole once new inside takes inner⟩
              · exact List.Subset.trans inside (Branch.labels_subset_of_mem hb)
              · simp [Branch.labels_mk]

end Shape

namespace Tree

variable {fanOut : ℕ} {t : Tree} {x y : NodeAddress} {whole : Option (Branch NodeAddress)}

theorem Sound.nodup_labels (h : t.Sound fanOut) {b : Branch NodeAddress}
    (shows : t.arena.shape.Shows (some b)) : b.labels.Nodup := by
  have once := h.nodup_listing
  rwa [h.listing_eq shows, Option.elim_some, b.map_fst_preorder] at once

/-- A new address is placed where the branch of the root takes it. -/
theorem Sound.exists_grows (h : t.Sound fanOut) (new : ¬t.Member y)
    (shows : t.arena.shape.Shows whole) :
    ∃ b', (t.add y).1.arena.shape.Shows (some b') ∧ Branch.Grows fanOut y whole b' := by
  have absent : t.arena.shape.place y = none := h.search_eq_none_iff.mp (not_not.mp new)
  rcases h.add_cases y with ⟨here, -⟩ | ⟨-, placed⟩
  · exact absurd absent here
  · generalize (t.add y).1.arena.shape = s at placed
    cases placed with
    | first topless =>
        cases whole with
        | some b => cases shows.top.trans topless
        | none =>
            refine ⟨⟨y, []⟩, ⟨rfl, ?_⟩, .first⟩
            rintro _ ⟨rfl⟩
            exact .mk (if_pos rfl) rfl rfl nofun
    | @below top parent above found descends =>
        cases whole with
        | none => cases shows.top.trans found
        | some b =>
            obtain rfl := Option.some.inj (shows.top.trans found)
            have outside : y ∉ b.labels :=
              fun hy => new ((h.search_ne_none_iff shows).mpr ⟨b, rfl, hy⟩)
            obtain ⟨_, _, b', way, -, takes, bears⟩ :=
              (shows.bears b rfl).exists_takes (h.nodup_labels shows) outside descends
            obtain ⟨rfl, rfl⟩ := List.cons.inj way
            refine ⟨b', ⟨?_, ?_⟩, .below takes⟩
            · rw [Option.map_some, takes.top_eq]
              exact shows.top
            · rintro _ ⟨rfl⟩
              exact bears

/-- After adding addresses these are members with those before. -/
theorem Sound.member_run_add (h : t.Sound fanOut) (added : List NodeAddress) :
    (t.run (added.map Op.add)).Member x ↔ x ∈ added ∨ t.Member x := by
  induction added generalizing t with
  | nil => simp [Tree.run]
  | cons y added ih =>
      rw [List.map_cons, Tree.run, ih (h.apply (.add y)).2, Tree.apply, h.member_add]
      simp only [List.mem_cons]
      tauto

end Tree
end TreeCluster
