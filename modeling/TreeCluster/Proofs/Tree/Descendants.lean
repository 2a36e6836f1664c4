import TreeCluster.Proofs.Tree.Run

/-! # Descendants

A member is below another if children lead from the other down to it (`Tree.Below`).  In a sound
tree these are the members that come through the other's slot on their way up to the root
(`Sound.below_iff`), so the weight of a member is the number of its descendants
(`run_weightOf`). -/

namespace TreeCluster.Tree

variable {fanOut : ℕ} {t : Tree}

/-- The first address is among the children of the second. -/
def Child (t : Tree) (b a : NodeAddress) : Prop :=
  ∃ child slot m, t.arena.slotOf b = some child ∧ t.arena.slotOf a = some slot ∧
    t.arena.member? slot = some m ∧ child ∈ m.children

/-- The first address is a proper descendant of the second. -/
def Below (t : Tree) : NodeAddress → NodeAddress → Prop :=
  Relation.TransGen t.Child

theorem Sound.child_iff (h : t.Sound fanOut) {a b : NodeAddress} {slot child : ℕ}
    (ha : t.arena.slotOf a = some slot) (hb : t.arena.slotOf b = some child) :
    t.Child b a ↔ ∃ c, t.arena.member? child = some c ∧ c.parent = some slot := by
  constructor
  · rintro ⟨child', slot', m, hb', ha', hm, listed⟩
    obtain rfl := Option.some.inj (hb.symm.trans hb')
    obtain rfl := Option.some.inj (ha.symm.trans ha')
    exact h.arena.child hm _ listed
  · rintro ⟨c, hc, back⟩
    obtain ⟨m, hm, -⟩ := h.exists_of_slotOf ha
    exact ⟨child, slot, m, hb, ha, hm, (h.arena.mem_children_iff hm hc).mpr back⟩

theorem Child.exists_slotOf {a b : NodeAddress} (h : t.Child b a) :
    ∃ child slot, t.arena.slotOf b = some child ∧ t.arena.slotOf a = some slot := by
  obtain ⟨child, slot, m, hb, ha, -, -⟩ := h
  exact ⟨child, slot, hb, ha⟩

theorem Below.exists_slotOf {a b : NodeAddress} (h : t.Below b a) :
    ∃ x, t.arena.slotOf b = some x := by
  induction h using Relation.TransGen.head_induction_on with
  | single hc =>
      obtain ⟨x, _, hx, -⟩ := hc.exists_slotOf
      exact ⟨x, hx⟩
  | head hc _ _ =>
      obtain ⟨x, _, hx, -⟩ := hc.exists_slotOf
      exact ⟨x, hx⟩

/-- Descendants are the members with the slot further up in their lineage. -/
theorem Sound.below_iff (h : t.Sound fanOut) {a b : NodeAddress} {slot x : ℕ} {line : List ℕ}
    (ha : t.arena.slotOf a = some slot) (hb : t.arena.slotOf b = some x)
    (hl : t.arena.Lineage x line) : t.Below b a ↔ slot ∈ line.tail := by
  constructor
  · intro below
    induction below using Relation.TransGen.head_induction_on generalizing x line with
    | single hc =>
        obtain ⟨c, hm, back⟩ := (h.child_iff ha hb).mp hc
        obtain ⟨above, rfl, up⟩ := hl.up hm back
        exact up.self_mem
    | @head b c hc _ ih =>
        obtain ⟨_, s, -, hs⟩ := hc.exists_slotOf
        obtain ⟨m, hm, back⟩ := (h.child_iff hs hb).mp hc
        obtain ⟨above, rfl, up⟩ := hl.up hm back
        exact List.mem_of_mem_tail (ih hs up)
  · intro inside
    induction hl generalizing b with
    | root _ _ _ => cases inside
    | @step x parent m line hm back up ih =>
        obtain ⟨p, hp⟩ := up.exists_member up.self_mem
        have hs := (h.arena.slotOf_iff p.address parent).mpr ⟨p, hp, rfl⟩
        have child : t.Child b p.address := (h.child_iff hs hb).mpr ⟨m, hm, back⟩
        obtain ⟨above, rfl⟩ := up.exists_eq_cons
        rcases List.mem_cons.mp inside with rfl | higher
        · obtain ⟨q, hq, same⟩ := h.exists_of_slotOf ha
          obtain rfl := Option.some.inj (hp.symm.trans hq)
          exact .single (same ▸ child)
        · exact .head child (ih hs higher)

/-- The slots below a member are those of its descendants. -/
theorem Sound.card_below (h : t.Sound fanOut) {a : NodeAddress} {slot : ℕ}
    (ha : t.arena.slotOf a = some slot) :
    (t.arena.below slot).card = {b | t.Below b a}.ncard := by
  -- an address is one of a single slot, so the slots can be counted instead
  have image : ((t.arena.below slot : Finset ℕ) : Set ℕ) =
      (fun b => (t.arena.slotOf b).getD 0) '' {b | t.Below b a} := by
    ext x
    constructor
    · intro hx
      cases hm : t.arena.member? x with
      | none => exact absurd hx (Arena.not_mem_below hm)
      | some m =>
          obtain ⟨line, hl⟩ := h.arena.lineage hm
          have hb := (h.arena.slotOf_iff m.address x).mpr ⟨m, hm, rfl⟩
          refine ⟨m.address, (h.below_iff ha hb hl).mpr ((Arena.mem_below hl).mp hx), ?_⟩
          simp only [hb, Option.getD_some]
    · rintro ⟨b, below, rfl⟩
      obtain ⟨x, hb⟩ := Below.exists_slotOf below
      obtain ⟨m, hm, -⟩ := h.exists_of_slotOf hb
      obtain ⟨line, hl⟩ := h.arena.lineage hm
      simp only [hb, Option.getD_some]
      exact (Arena.mem_below hl).mpr ((h.below_iff ha hb hl).mp below)
  have apart : Set.InjOn (fun b => (t.arena.slotOf b).getD 0) {b | t.Below b a} := by
    intro b hb c hc same
    obtain ⟨x, hx⟩ := Below.exists_slotOf hb
    obtain ⟨y, hy⟩ := Below.exists_slotOf hc
    simp only [hx, hy, Option.getD_some] at same
    obtain ⟨m, hm, rfl⟩ := h.exists_of_slotOf hx
    obtain ⟨n, hn, rfl⟩ := h.exists_of_slotOf hy
    rw [← same, hm] at hn
    rw [Option.some.inj hn]
  rw [← Set.ncard_coe_finset, image, apart.ncard_image]

theorem Sound.weightOf_eq (h : t.Sound fanOut) (address : NodeAddress) :
    t.weightOf address =
      (t.arena.slotOf address).map fun _ => {b | t.Below b address}.ncard := by
  unfold weightOf
  cases hs : t.arena.slotOf address with
  | none => rfl
  | some slot =>
      obtain ⟨m, hm, -⟩ := h.exists_of_slotOf hs
      simp only [Option.bind_eq_bind, Option.bind_some, hm, Option.map_some]
      rw [h.arena.weight_eq hm, h.card_below hs]
      rfl

theorem Sound.length_childrenOf_le (h : t.Sound fanOut) {address : NodeAddress}
    {paths : List NodePath} (hp : paths ∈ t.childrenOf address) : paths.length ≤ fanOut := by
  unfold childrenOf at hp
  cases hs : t.arena.slotOf address with
  | none =>
      rw [hs] at hp
      cases hp
  | some slot =>
      obtain ⟨m, hm, -⟩ := h.exists_of_slotOf hs
      simp only [hs, Option.bind_eq_bind, Option.bind_some, hm] at hp
      obtain rfl := Option.some.inj hp
      rw [List.length_map, ← h.fanOut_eq]
      exact h.arena.room hm

/-- After every run a member has at most as many children as the fan-out allows, at least one,
and its weight is the number of its descendants.  No removal has met a member without weight to
take off, and no placement a full member without children. -/
theorem run_weightOf (fanOut : ℕ) (ops : List Op) :
    let t := (withFanOut fanOut).run ops
    (∀ address, ∀ paths ∈ t.childrenOf address, paths.length ≤ max fanOut 1) ∧
      (∀ address, t.weightOf address =
        (t.arena.slotOf address).map fun _ => {b | t.Below b address}.ncard) ∧
      Checked.run (withFanOut fanOut) ops = .ok t := by
  intro t
  obtain ⟨checked, sound⟩ := (sound_withFanOut fanOut).run ops
  exact ⟨fun _ _ hp => sound.length_childrenOf_le hp, sound.weightOf_eq, checked⟩

end TreeCluster.Tree
