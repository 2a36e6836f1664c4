import TreeCluster.Proofs.Tree.Arrivals
import TreeCluster.Proofs.Tree.Placing

/-! # Trees that only grow are balanced

As long as members are only added, the branches of siblings have sizes that fall in the order of
insertion, and by no more than one altogether; where there is room for another child, they are
single members (`Branch.Spread`).  This holds of all siblings of a branch (`Branch.Balanced`) and
stays so when it takes a member (`Takes.balanced`).

Then the members above any height are as many as there is room for, or all of them
(`Balanced.countP_preorder`), so that every level but the deepest is full and the greatest height is
the least that the number of members allows (`run_add_balanced`). -/

namespace TreeCluster

namespace Branch

variable {α : Type} {fanOut : ℕ} {y : α} {b b' : Branch α} {children front back : List (Branch α)}

/-! ### Siblings -/

/-- Siblings whose branches are as even in size as they can be. -/
structure Spread (fanOut : ℕ) (siblings : List (Branch α)) : Prop where
  fits : siblings.length ≤ fanOut
  single : siblings.length < fanOut → ∀ b ∈ siblings, b.size = 1
  falls : siblings.Pairwise fun a b => b.size ≤ a.size
  close : ∀ a ∈ siblings, ∀ b ∈ siblings, a.size ≤ b.size + 1

theorem spread_nil : Spread fanOut ([] : List (Branch α)) :=
  ⟨Nat.zero_le fanOut, nofun, .nil, nofun⟩

theorem Spread.concat (h : Spread fanOut children) (room : children.length < fanOut) (y : α) :
    Spread fanOut (children ++ [⟨y, []⟩]) := by
  have all : ∀ b ∈ children ++ [⟨y, []⟩], b.size = 1 := by
    refine List.forall_mem_append.mpr ⟨h.single room, fun b hb => ?_⟩
    rw [List.mem_singleton.mp hb, size_single]
  refine ⟨by simpa using room, fun _ => all, ?_, fun a ha b hb => ?_⟩
  · exact List.pairwise_of_forall_mem_list fun a ha b hb => by rw [all a ha, all b hb]
  · rw [all a ha, all b hb]
    exact Nat.le_succ 1

/-- Among siblings without room one more member in the first lightest branch keeps them even. -/
theorem Spread.rise (h : Spread fanOut (front ++ b :: back))
    (full : ¬(front ++ b :: back).length < fanOut) (first : ∀ a ∈ front, b.size < a.size)
    (least : ∀ a ∈ back, b.size ≤ a.size) (more : b'.size = b.size + 1) :
    Spread fanOut (front ++ b' :: back) := by
  have length : (front ++ b' :: back).length = (front ++ b :: back).length := by simp
  obtain ⟨ordered, ⟨after, ordered'⟩, before⟩ :=
    (List.pairwise_append.mp h.falls).imp_right (And.imp_left List.pairwise_cons.mp)
  have hb : b ∈ front ++ b :: back := by simp
  have high : ∀ a ∈ front, a.size = b.size + 1 := fun a ha =>
    Nat.le_antisymm (h.close a (by simp [ha]) b hb) (first a ha)
  have low : ∀ a ∈ back, a.size = b.size := fun a ha =>
    Nat.le_antisymm (after a ha) (least a ha)
  have sizes : ∀ a ∈ front ++ b' :: back, b.size ≤ a.size ∧ a.size ≤ b.size + 1 := by
    intro a ha
    rw [List.mem_append, List.mem_cons] at ha
    rcases ha with ha | rfl | ha
    · have := high a ha
      omega
    · omega
    · have := low a ha
      omega
  refine ⟨length ▸ h.fits, fun room => absurd (length ▸ room) full, ?_, fun a ha c hc => ?_⟩
  · refine List.pairwise_append.mpr ⟨ordered, List.pairwise_cons.mpr ⟨fun a ha => ?_, ordered'⟩, ?_⟩
    · rw [low a ha, more]
      exact Nat.le_succ _
    · intro a ha c hc
      rw [high a ha]
      exact (sizes c (List.mem_append_right _ hc)).2
  · have := (sizes a ha).2
    have := (sizes c hc).1
    omega

/-! ### Branches -/

/-- All siblings of the branch are as even as they can be. -/
inductive Balanced (fanOut : ℕ) : Branch α → Prop
  | mk {x : α} {children : List (Branch α)} :
      Spread fanOut children → (∀ b ∈ children, Balanced fanOut b) → Balanced fanOut ⟨x, children⟩

theorem balanced_single (y : α) : Balanced fanOut ⟨y, []⟩ :=
  .mk spread_nil nofun

/-- A branch that takes a member stays balanced. -/
theorem Takes.balanced (h : b.Takes fanOut y b') (even : b.Balanced fanOut) :
    b'.Balanced fanOut := by
  induction h with
  | here room =>
      cases even with
      | mk spread below =>
          refine .mk (spread.concat room y) (List.forall_mem_append.mpr ⟨below, fun b hb => ?_⟩)
          rw [List.mem_singleton.mp hb]
          exact balanced_single y
  | @down x front back b b' full first least takes ih =>
      cases even with
      | mk spread below =>
          refine .mk (spread.rise full first least takes.size_eq) fun a ha => ?_
          rw [List.mem_append, List.mem_cons] at ha
          rcases ha with ha | rfl | ha
          · exact below a (by simp [ha])
          · exact ih (below b (by simp))
          · exact below a (by simp [ha])

/-! ### Levels -/

/-- Numbers that differ by at most one are all cut off at a bound or none of them is. -/
theorem sum_map_min_of_close {sizes : List ℕ} (close : ∀ a ∈ sizes, ∀ b ∈ sizes, a ≤ b + 1) (bound : ℕ) :
    (sizes.map (min · bound)).sum = min sizes.sum (sizes.length * bound) := by
  by_cases small : ∀ a ∈ sizes, a ≤ bound
  · have same : sizes.map (min · bound) = sizes :=
      (List.map_congr_left fun a ha => min_eq_left (small a ha)).trans (List.map_id' sizes)
    have few : sizes.sum ≤ sizes.length * bound := List.sum_le_card_nsmul sizes bound small
    rw [same, min_eq_left few]
  · obtain ⟨a, ha, large⟩ := by simpa using small
    have large : ∀ b ∈ sizes, bound ≤ b := fun b hb => by
      have := close a ha b hb
      omega
    have same : sizes.map (min · bound) = sizes.map fun _ => bound :=
      List.map_congr_left fun a ha => min_eq_right (large a ha)
    have many : sizes.length * bound ≤ sizes.sum := List.card_nsmul_le_sum sizes bound large
    rw [same, List.map_const', List.sum_replicate, smul_eq_mul, min_eq_right many]

theorem Spread.sum_map_min (h : Spread fanOut children) (bound : ℕ) :
    (children.map fun b => min b.size bound).sum =
      min (children.map size).sum (fanOut * bound) := by
  have close : ∀ a ∈ children.map size, ∀ b ∈ children.map size, a ≤ b + 1 := by
    simpa [List.mem_map] using h.close
  have cut := sum_map_min_of_close close bound
  rw [List.map_map, List.length_map] at cut
  refine cut.trans ?_
  rcases Nat.lt_or_eq_of_le h.fits with room | full
  · have sum : (children.map size).sum = children.length := by
      rw [List.map_congr_left (h.single room), List.map_const', List.sum_replicate, smul_eq_mul,
        mul_one]
    rw [sum]
    rcases Nat.eq_zero_or_pos bound with rfl | pos
    · simp
    · rw [min_eq_left (Nat.le_mul_of_pos_right _ pos),
        min_eq_left (h.fits.trans (Nat.le_mul_of_pos_right _ pos))]
  · rw [full]

theorem le_of_mem_preorder {e : α × ℕ} {height : ℕ} (h : e ∈ b.preorder height) :
    height ≤ e.2 := by
  induction b generalizing height with
  | mk x children ih =>
      rw [preorder_mk, List.mem_cons, List.mem_flatMap] at h
      rcases h with rfl | ⟨b, hb, inside⟩
      · exact Nat.le_refl height
      · exact Nat.le_of_succ_le (ih b hb inside)

/-- The members of a balanced branch on its first levels are as many as there is room for, or
all. -/
theorem Balanced.countP_preorder (h : b.Balanced fanOut) (height levels : ℕ) :
    (b.preorder height).countP (fun e => e.2 < height + levels) =
      min b.size (∑ i ∈ Finset.range levels, fanOut ^ i) := by
  induction h generalizing height levels with
  | @mk x children spread _ ih =>
      cases levels with
      | zero =>
          rw [Finset.range_zero, Finset.sum_empty, Nat.min_zero, List.countP_eq_zero]
          intro e he
          simpa using le_of_mem_preorder he
      | succ levels =>
          -- all children are cut off at the same bound, which is what even sizes are made for
          have below : ∀ b ∈ children,
              (b.preorder (height + 1)).countP (fun e => e.2 < height + (levels + 1)) =
                min b.size (∑ i ∈ Finset.range levels, fanOut ^ i) := by
            intro b hb
            rw [← ih b hb (height + 1) levels, Nat.add_right_comm, Nat.add_assoc]
          rw [preorder_mk, List.countP_cons_of_pos (by simp), List.countP_flatMap,
            geom_sum_succ, size_mk, Nat.add_min_add_right, ← spread.sum_map_min]
          exact congrArg (·.sum + 1) (List.map_congr_left below)

theorem countP_lt_succ (order : List (α × ℕ)) (level : ℕ) :
    order.countP (fun e => e.2 < level + 1) =
      order.countP (fun e => e.2 < level) + order.countP (fun e => e.2 = level) := by
  induction order with
  | nil => rfl
  | cons e order ih =>
      simp only [List.countP_cons, ih, decide_eq_true_eq]
      grind

theorem exists_isLeast_room (pos : 0 < fanOut) (n : ℕ) :
    ∃ deepest, IsLeast {level | n ≤ ∑ i ∈ Finset.range (level + 1), fanOut ^ i} deepest := by
  have each : ∀ i ∈ Finset.range (n + 1), 1 ≤ fanOut ^ i := fun i _ => Nat.one_le_pow i _ pos
  have room := Finset.card_nsmul_le_sum _ _ 1 each
  rw [Finset.card_range, smul_eq_mul, mul_one] at room
  have enough : {level | n ≤ ∑ i ∈ Finset.range (level + 1), fanOut ^ i}.Nonempty :=
    ⟨n, Nat.le_of_succ_le room⟩
  exact ⟨_, isLeast_csInf enough⟩

/-- A balanced branch has the least height that its size allows, and all levels above the deepest
are full. -/
theorem Balanced.exists_isGreatest (h : b.Balanced fanOut) (pos : 0 < fanOut) :
    ∃ deepest, IsGreatest {level | ∃ x, (x, level) ∈ b.preorder 0} deepest ∧
      IsLeast {level | b.size ≤ ∑ i ∈ Finset.range (level + 1), fanOut ^ i} deepest ∧
      ∀ level < deepest, (b.preorder 0).countP (fun e => e.2 = level) = fanOut ^ level := by
  have count (level : ℕ) : (b.preorder 0).countP (fun e => e.2 < level) =
      min b.size (∑ i ∈ Finset.range level, fanOut ^ i) := by
    simpa only [Nat.zero_add] using h.countP_preorder 0 level
  obtain ⟨deepest, least⟩ := exists_isLeast_room pos b.size
  have before (level : ℕ) (higher : level < deepest) :
      ∑ i ∈ Finset.range (level + 1), fanOut ^ i < b.size :=
    Nat.lt_of_not_le fun fits => absurd (least.2 fits) (Nat.not_le_of_lt higher)
  have all := (count (deepest + 1)).trans (min_eq_left least.1)
  refine ⟨deepest, ⟨?_, ?_⟩, least, fun level higher => ?_⟩
  -- the levels above the deepest have no room for all, and with it they have
  · have short : (b.preorder 0).countP (fun e => e.2 < deepest) < b.size := by
      rw [count]
      cases deepest with
      | zero => simpa using b.size_pos
      | succ level => exact (min_le_right _ _).trans_lt (before level level.lt_succ_self)
    rw [countP_lt_succ] at all
    have there : 0 < (b.preorder 0).countP fun e => e.2 = deepest := by omega
    obtain ⟨⟨x, level⟩, listed, same⟩ := List.countP_pos_iff.mp there
    obtain rfl := of_decide_eq_true same
    exact ⟨x, listed⟩
  · rintro level ⟨x, hx⟩
    rw [← b.length_preorder 0, List.countP_eq_length] at all
    exact Nat.le_of_lt_succ (by simpa using all _ hx)
  · have wide := before level higher
    have upTo := count (level + 1)
    rw [countP_lt_succ, count level, min_eq_right wide.le] at upTo
    rw [Finset.sum_range_succ] at wide upTo
    rw [min_eq_right (by omega)] at upTo
    omega

end Branch

namespace Shape

variable {s : Shape} {fanOut : ℕ} {x : NodeAddress} {b : Branch NodeAddress}

theorem Bears.exists_spread (h : s.Bears b) (even : b.Balanced fanOut) (inside : x ∈ b.labels) :
    ∃ p children, s.place x = some p ∧ p.children = children.map Branch.top ∧
      (∀ b ∈ children, s.Bears b) ∧ Branch.Spread fanOut children := by
  induction h with
  | @mk x p children hp names _ bears ih =>
      cases even with
      | mk spread below =>
          rw [Branch.labels_mk, List.mem_cons, List.mem_flatMap] at inside
          rcases inside with rfl | ⟨b, hb, inside⟩
          · exact ⟨p, children, hp, names, bears, spread⟩
          · exact ih b hb (below b hb) inside

end Shape

namespace Tree

variable {fanOut : ℕ} {t : Tree} {x : NodeAddress} {whole : Option (Branch NodeAddress)}

theorem Sound.exists_balanced (h : t.Sound fanOut) (shows : t.arena.shape.Shows whole)
    (even : ∀ b ∈ whole, b.Balanced fanOut) (added : List NodeAddress) :
    ∃ whole', (t.run (added.map Op.add)).arena.shape.Shows whole' ∧
      ∀ b ∈ whole', b.Balanced fanOut := by
  induction added generalizing t whole with
  | nil => exact ⟨whole, shows, even⟩
  | cons y added ih =>
      have sound := (h.add y).2
      rw [List.map_cons, Tree.run, Tree.apply]
      by_cases here : t.Member y
      · obtain ⟨path, found⟩ := Option.ne_none_iff_exists'.mp here
        have same : (t.add y).1 = t := congrArg Prod.fst (add_of_present found)
        exact ih sound (by rwa [same]) even
      · obtain ⟨b', shows', grows⟩ := h.exists_grows here shows
        refine ih sound shows' ?_
        rintro _ ⟨rfl⟩
        cases grows with
        | first => exact Branch.balanced_single y
        | below takes => exact takes.balanced (even _ rfl)

theorem Sound.exists_weights (h : t.Sound fanOut) {b : Branch NodeAddress}
    (shows : t.arena.shape.Shows (some b)) (even : b.Balanced fanOut)
    {children : List NodeAddress} (hc : t.offspring x = some children) :
    ∃ weights : List ℕ, children.map t.weightOf = weights.map some ∧
      weights.Pairwise (· ≥ ·) ∧ ∀ v ∈ weights, ∀ w ∈ weights, v ≤ w + 1 := by
  obtain ⟨p, hp, rfl⟩ := Option.map_eq_some_iff.mp hc
  have here : t.search x ≠ none := by
    rw [ne_eq, h.search_eq_none_iff, hp]
    nofun
  obtain ⟨_, ⟨rfl⟩, inside⟩ := (h.search_ne_none_iff shows).mp here
  obtain ⟨p', branches, hp', names, bears, spread⟩ := (shows.bears b rfl).exists_spread even inside
  obtain rfl := Option.some.inj (hp.symm.trans hp')
  have weight : ∀ a ∈ branches, t.weightOf a.top = some (a.size - 1) := by
    intro a ha
    cases bears a ha with
    | mk place _ weight _ =>
        rw [Branch.top_mk, h.weightOf_eq_place, place, Option.map_some, weight, Branch.size_mk,
          Nat.add_sub_cancel]
  refine ⟨branches.map fun a => a.size - 1, ?_, ?_, ?_⟩
  · rw [names, List.map_map, List.map_map]
    exact List.map_congr_left weight
  · exact List.pairwise_map.mpr (spread.falls.imp fun le => Nat.sub_le_sub_right le 1)
  · intro v hv w hw
    obtain ⟨a, ha, rfl⟩ := List.mem_map.mp hv
    obtain ⟨c, hc, rfl⟩ := List.mem_map.mp hw
    have := spread.close a ha c hc
    omega

theorem Sound.shows_none (h : t.Sound fanOut) (empty : t.size = 0) :
    t.arena.shape.Shows none := by
  obtain ⟨whole, shows⟩ := h.exists_shows
  cases whole with
  | none => exact shows
  | some b =>
      rw [h.size_eq_length, h.listing_eq shows, Option.elim_some, b.length_preorder] at empty
      exact absurd empty b.size_pos.ne'

/-- **Trees that only grow are balanced.**  Add any addresses, at least one, to a tree that a run left
without members.  The members are the addresses that were added, each once, and their order of
arrival is that in which they first occur among the additions.  Every level above the deepest is
full, so that the greatest height is the least that has room for all members.  The children of every
member stand in the order of arrival, and in this order their weights fall, by no more than one
altogether. -/
theorem run_add_balanced (fanOut : ℕ) (ops : List Op) {added : List NodeAddress}
    (empty : ((withFanOut fanOut).run ops).size = 0) (adds : added ≠ []) :
    let t := ((withFanOut fanOut).run ops).run (added.map .add)
    let width := max fanOut 1
    let arrivals := (withFanOut fanOut).arrivalsIn [] (ops ++ added.map .add)
    ((∀ x, t.Member x ↔ x ∈ added) ∧ t.size = added.toFinset.card) ∧
    arrivals = added.eraseDups ∧
    (∃ deepest, IsGreatest {level | ∃ x, (x, level) ∈ t.listing} deepest ∧
      IsLeast {level | t.size ≤ ∑ i ∈ Finset.range (level + 1), width ^ i} deepest ∧
      ∀ level < deepest, {x | (x, level) ∈ t.listing}.ncard = width ^ level) ∧
    ∀ x children, t.offspring x = some children → children.Sublist arrivals ∧
      ∃ weights : List ℕ, children.map t.weightOf = weights.map some ∧
        weights.Pairwise (· ≥ ·) ∧ ∀ v ∈ weights, ∀ w ∈ weights, v ≤ w + 1 := by
  intro t width arrivals
  have start : ((withFanOut fanOut).run ops).Sound width := ((sound_withFanOut fanOut).run ops).2
  have sound : t.Sound width := (start.run (added.map .add)).2
  have before := start.shows_none empty
  have members (x : NodeAddress) : t.Member x ↔ x ∈ added := by
    have nobody : ¬((withFanOut fanOut).run ops).Member x := by
      rw [Member, start.search_ne_none_iff before]
      nofun
    rw [start.member_run_add, or_iff_left nobody]
  have arrived : t.Arrived arrivals := by
    simp only [arrivals, arrivalsIn_append]
    exact (arrived_run fanOut ops).run start (added.map .add)
  obtain ⟨whole, shows, even⟩ := start.exists_balanced before nofun added
  obtain ⟨first, hf⟩ := List.exists_mem_of_ne_nil added adds
  obtain ⟨b, ⟨rfl⟩, -⟩ := (sound.search_ne_none_iff shows).mp ((members first).mpr hf)
  have listing : t.listing = b.preorder 0 := sound.listing_eq shows
  have size : t.size = b.size := by rw [sound.size_eq_length, listing, b.length_preorder]
  have addresses : b.labels.toFinset = added.toFinset := by
    ext x
    rw [List.mem_toFinset, List.mem_toFinset, ← members, ← b.map_fst_preorder 0, ← listing]
    exact sound.mem_listing_fst_iff
  refine ⟨⟨members, ?_⟩, arrivalsIn_add_of_empty fanOut ops added empty, ?_, fun x children hc =>
    ⟨arrived.siblings x children hc, sound.exists_weights shows (even b rfl) hc⟩⟩
  · rw [size, ← addresses, List.toFinset_card_of_nodup (sound.nodup_labels shows), Branch.size]
  · simp only [sound.ncard_level]
    rw [size, listing]
    exact (even b rfl).exists_isGreatest (Nat.le_max_right fanOut 1)

/-- Five addresses, one of them twice, in a tree from which the only member was taken out. -/
theorem run_add_balanced_of_five_addresses :
    let r : NodeAddress := ⟨"r", "h", 1⟩
    let a : NodeAddress := ⟨"a", "h", 2⟩
    let b : NodeAddress := ⟨"b", "h", 3⟩
    let c : NodeAddress := ⟨"c", "h", 4⟩
    let d : NodeAddress := ⟨"d", "h", 5⟩
    let start := (withFanOut 2).run [.add a, .remove a]
    let t := start.run ([r, a, b, a, c, d].map .add)
    start.size = 0 ∧ [r, a, b, a, c, d] ≠ [] ∧ t.size = 5 ∧
      (withFanOut 2).arrivalsIn [] ([.add a, .remove a] ++ [r, a, b, a, c, d].map .add) =
        [r, a, b, c, d] ∧
      ∃ deepest, IsGreatest {level | ∃ x, (x, level) ∈ t.listing} deepest ∧
        ∀ level < deepest, {x | (x, level) ∈ t.listing}.ncard = 2 ^ level := by
  intro r a b c d start t
  have empty : start.size = 0 := by
    simp only [start, a]
    decide +kernel
  have adds : [r, a, b, a, c, d] ≠ [] := List.cons_ne_nil _ _
  obtain ⟨⟨-, size⟩, came, ⟨deepest, greatest, -, full⟩, -⟩ :=
    run_add_balanced 2 [.add a, .remove a] empty adds
  have first : [r, a, b, a, c, d].eraseDups = [r, a, b, c, d] := by decide
  exact ⟨empty, adds, size.trans (by decide), came.trans first, deepest, greatest, full⟩

end Tree
end TreeCluster
