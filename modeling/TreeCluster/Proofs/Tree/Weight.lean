import TreeCluster.Proofs.Tree.Change

/-! # Weights and room

The slots below a slot are those with it further up in their lineage (`Arena.below`).  An arena is
sound if it is well formed, every weight is the number of slots below, and no member has more
children than the fan-out allows (`Arena.Sound`).

A new child keeps an arena sound if one is added to the weight of all above it, and the loss of
one if it is taken off again (`Sound.attach`, `Sound.cut`). -/

namespace TreeCluster.Arena

variable {a : Arena}

/-! ### More and less weight -/

theorem reweigh_reweigh (v w : ℕ → ℕ → ℕ) :
    (a.reweigh v).reweigh w = a.reweigh fun slot weight => w slot (v slot weight) := by
  apply ext_member?
  · simp
  · intro slot
    rw [member?_reweigh, member?_reweigh, member?_reweigh, Option.map_map]
    rfl
  · rfl
  · rfl
  · rfl

/-- Adds to the weight of a slot as often as it is in a list. -/
def raise (a : Arena) (slots : List ℕ) : Arena :=
  a.reweigh fun slot weight => weight + slots.count slot

/-- Takes off the weight of a slot as often as it is in a list. -/
def lower (a : Arena) (slots : List ℕ) : Arena :=
  a.reweigh fun slot weight => weight - slots.count slot

theorem raise_raise (first more : List ℕ) :
    (a.raise first).raise more = a.raise (more ++ first) := by
  unfold raise
  rw [reweigh_reweigh]
  congr 1
  funext slot weight
  rw [List.count_append]
  omega

theorem lower_lower (first more : List ℕ) :
    (a.lower first).lower more = a.lower (first ++ more) := by
  unfold lower
  rw [reweigh_reweigh]
  congr 1
  funext slot weight
  rw [List.count_append]
  omega

theorem modify_eq_reweigh (slot : ℕ) (f : ℕ → ℕ) (w : ℕ → ℕ → ℕ) (here : w slot = f)
    (there : ∀ other, other ≠ slot → w other = id) :
    a.modify slot (fun m => { m with weight := f m.weight }) = a.reweigh w := by
  apply ext_member?
  · rw [size_reweigh]
    exact Array.size_modify
  · intro other
    rw [member?_modify, member?_reweigh]
    by_cases ho : other = slot
    · rw [if_pos ho, ho, here]
    · rw [if_neg ho, there other ho]
      exact Option.map_id'.symm
  · rfl
  · rfl
  · rfl

theorem modify_eq_raise (slot : ℕ) :
    a.modify slot (fun m => { m with weight := m.weight + 1 }) = a.raise [slot] := by
  apply modify_eq_reweigh slot (· + 1)
  · simp
  · intro other ho
    simp [Ne.symm ho]
    rfl

theorem modify_eq_lower (slot : ℕ) :
    a.modify slot (fun m => { m with weight := m.weight - 1 }) = a.lower [slot] := by
  apply modify_eq_reweigh slot (· - 1)
  · simp
  · intro other ho
    simp [Ne.symm ho]
    rfl

/-- Weights and children change independently. -/
theorem disown_lower (parent : Option ℕ) (slot : ℕ) (slots : List ℕ) :
    (a.disown parent slot).lower slots = (a.lower slots).disown parent slot := by
  cases parent with
  | none => rfl
  | some parent =>
      apply ext_member?
      · simp [lower, disown, modify]
      · intro other
        rw [lower, lower, member?_reweigh, member?_disown, member?_disown, member?_reweigh,
          Option.map_map, Option.map_map]
        rfl
      · rfl
      · rfl
      · rfl

/-! ### The slots below a slot -/

theorem lineFrom_reweigh (w : ℕ → ℕ → ℕ) (slot fuel : ℕ) :
    (a.reweigh w).lineFrom slot fuel = a.lineFrom slot fuel := by
  induction fuel generalizing slot with
  | zero => rfl
  | succ fuel ih =>
      unfold lineFrom
      rw [member?_reweigh]
      cases a.member? slot with
      | none => rfl
      | some m =>
          cases hp : m.parent with
          | none => simp [hp]
          | some parent => simp [hp, ih]

theorem line_of_vacant {slot : ℕ} (h : a.member? slot = none) : a.line slot = [] := by
  unfold line
  cases a.slots.size with
  | zero => rfl
  | succ size => rw [lineFrom, h]

/-- The slots that come through a slot on their way up to the root. -/
def below (a : Arena) (slot : ℕ) : Finset ℕ :=
  (Finset.range a.slots.size).filter fun x => slot ∈ (a.line x).tail

theorem mem_below {slot x : ℕ} {line : List ℕ} (hl : a.Lineage x line) :
    x ∈ a.below slot ↔ slot ∈ line.tail := by
  obtain ⟨m, hm⟩ := hl.exists_member hl.self_mem
  rw [below, Finset.mem_filter, Finset.mem_range, hl.line_eq]
  exact and_iff_right (lt_of_member? hm)

theorem not_mem_below {slot x : ℕ} (h : a.member? x = none) : x ∉ a.below slot := by
  rw [below, Finset.mem_filter, line_of_vacant h]
  simp

theorem below_reweigh (w : ℕ → ℕ → ℕ) (slot : ℕ) : (a.reweigh w).below slot = a.below slot := by
  unfold below line
  simp only [size_reweigh, lineFrom_reweigh]

theorem WellFormed.below_of_vacant (h : a.WellFormed) {slot : ℕ} (hs : a.member? slot = none) :
    a.below slot = ∅ := by
  apply Finset.eq_empty_of_forall_notMem
  intro x hx
  cases hm : a.member? x with
  | none => exact not_mem_below hm hx
  | some m =>
      obtain ⟨line, hl⟩ := h.lineage hm
      obtain ⟨n, hn⟩ := hl.exists_member (List.mem_of_mem_tail ((mem_below hl).mp hx))
      rw [hs] at hn
      cases hn

theorem WellFormed.below_attach (h : a.WellFormed) {parent : ℕ} {line : List ℕ}
    (hl : a.Lineage parent line) (address : NodeAddress) (other : ℕ) :
    (a.attach parent address).1.below other =
      if other ∈ line then Insert.insert (a.attach parent address).2 (a.below other)
      else a.below other := by
  obtain ⟨p, hp⟩ := hl.exists_member hl.self_mem
  have free := h.toFreeList
  have new := hl.attach_slot address free hp
  have vacant := @member?_attach_slot a parent address free
  have found := member?_attach address free hp
  set slot := (a.attach parent address).2
  ext x
  by_cases hx : x = slot
  · rw [hx, mem_below new, List.tail_cons]
    split
    · next inside => simp [inside]
    · next outside => simp [outside, not_mem_below vacant]
  · have same : x ∈ (a.attach parent address).1.below other ↔ x ∈ a.below other := by
      cases hm : a.member? x with
      | none =>
          refine iff_of_false (not_mem_below ?_) (not_mem_below hm)
          rw [found, if_neg hx, hm]
          rfl
      | some m =>
          obtain ⟨line', hl'⟩ := h.lineage hm
          rw [mem_below hl', mem_below (hl'.attach address free hp)]
    rw [same]
    split
    · simp [hx]
    · rfl

theorem WellFormed.card_below_attach (h : a.WellFormed) {parent : ℕ} {line : List ℕ}
    (hl : a.Lineage parent line) (address : NodeAddress) (other : ℕ) :
    ((a.attach parent address).1.below other).card = (a.below other).card + line.count other := by
  rw [h.below_attach hl]
  split
  · next inside =>
      have new : (a.attach parent address).2 ∉ a.below other :=
        not_mem_below (member?_attach_slot address h.toFreeList)
      rw [Finset.card_insert_of_notMem new, List.count_eq_one_of_mem hl.nodup inside]
  · next outside => rw [List.count_eq_zero.mpr outside, add_zero]

theorem WellFormed.below_cut (h : a.WellFormed) {slot : ℕ} {m : Member}
    (hm : a.member? slot = some m) (leaf : m.children = []) (other : ℕ) :
    (a.cut slot m).below other = (a.below other).erase slot := by
  ext x
  rw [Finset.mem_erase]
  by_cases hx : x = slot
  · refine iff_of_false (not_mem_below ?_) fun both => both.1 hx
    rw [member?_cut, if_pos hx]
  · rw [and_iff_right hx]
    cases hn : a.member? x with
    | none =>
        refine iff_of_false (not_mem_below ?_) (not_mem_below hn)
        rw [member?_cut, if_neg hx, hn]
        rfl
    | some n =>
        obtain ⟨line, hl⟩ := h.lineage hn
        rw [mem_below hl, mem_below (hl.cut h.toLinked hm leaf hx)]

theorem WellFormed.card_below_cut (h : a.WellFormed) {slot : ℕ} {m : Member} {above : List ℕ}
    (hm : a.member? slot = some m) (leaf : m.children = [])
    (hl : a.Lineage slot (slot :: above)) (other : ℕ) :
    ((a.cut slot m).below other).card = (a.below other).card - above.count other := by
  rw [h.below_cut hm leaf]
  by_cases inside : other ∈ above
  · rw [Finset.card_erase_of_mem ((mem_below hl).mpr inside),
      List.count_eq_one_of_mem (List.nodup_cons.mp hl.nodup).2 inside]
  · rw [Finset.erase_eq_of_notMem fun hx => inside ((mem_below hl).mp hx),
      List.count_eq_zero.mpr inside, Nat.sub_zero]

/-! ### Soundness -/

/-- Weights count the slots below, and children do not exceed the fan-out. -/
structure Sound (fanOut : ℕ) (a : Arena) : Prop extends WellFormed a where
  weight_eq {slot : ℕ} {m : Member} : a.member? slot = some m → m.weight = (a.below slot).card
  room {slot : ℕ} {m : Member} : a.member? slot = some m → m.children.length ≤ fanOut

variable {fanOut : ℕ}

theorem sound_empty : empty.Sound fanOut where
  toWellFormed := wellFormed_empty
  weight_eq h := by cases h
  room h := by cases h

theorem Sound.plant (h : a.Sound fanOut) (hr : a.root = none) (address : NodeAddress) :
    (a.plant address).1.Sound fanOut := by
  have line := Lineage.plant h.toFreeList address
  have only := @Linked.eq_of_member?_plant a h.toLinked h.toFreeList hr address
  refine ⟨h.toWellFormed.plant hr address, ?_, ?_⟩
  · intro slot m hm
    have alone : (a.plant address).1.below slot = ∅ := by
      apply Finset.eq_empty_of_forall_notMem
      intro x hx
      cases hn : (a.plant address).1.member? x with
      | none => exact not_mem_below hn hx
      | some n =>
          rw [(only hn).1, mem_below line] at hx
          cases hx
    rw [(only hm).2, alone]
    rfl
  · intro slot m hm
    rw [(only hm).2]
    exact Nat.zero_le fanOut

theorem Sound.of_member?_raise (h : a.Sound fanOut) {line : List ℕ} {slot : ℕ} {m : Member}
    (hm : (a.raise line).member? slot = some m) :
    m.weight = (a.below slot).card + line.count slot ∧ m.children.length ≤ fanOut := by
  obtain ⟨m₀, hm₀, rfl⟩ := exists_of_member?_reweigh hm
  have few : m₀.children.length ≤ fanOut := h.room hm₀
  exact ⟨congrArg (· + line.count slot) (h.weight_eq hm₀), few⟩

/-- A new child of a member with room. -/
theorem Sound.attach (h : a.Sound fanOut) {parent : ℕ} {p : Member} {line : List ℕ}
    (hp : a.member? parent = some p) (hl : a.Lineage parent line)
    (room : p.children.length < fanOut) {address : NodeAddress}
    (fresh : a.slotOf address = none) :
    ((a.raise line).attach parent address).1.Sound fanOut := by
  have wf : (a.raise line).WellFormed := h.toWellFormed.reweigh _
  have hl' : (a.raise line).Lineage parent line := hl.reweigh _
  have hp' : (a.raise line).member? parent = some _ := member?_reweigh_of hp
  have split := @eq_or_exists_of_member?_attach _ parent _ address wf.toFreeList hp'
  have vacant := @member?_attach_slot (a.raise line) parent address wf.toFreeList
  have below : ∀ other, (a.raise line).below other = a.below other := below_reweigh _
  refine ⟨wf.attach address hp' fresh, ?_, ?_⟩
  · intro other m hm
    rw [wf.card_below_attach hl']
    rcases split hm with ⟨rfl, rfl⟩ | ⟨m₁, hm₁, rfl⟩
    · have outside : ((a.raise line).attach parent address).2 ∉ line := by
        intro inside
        obtain ⟨n, hn⟩ := hl'.exists_member inside
        rw [vacant] at hn
        cases hn
      rw [wf.below_of_vacant vacant, List.count_eq_zero.mpr outside]
      rfl
    · rw [below]
      exact (h.of_member?_raise hm₁).1
  · intro other m hm
    rcases split hm with ⟨-, rfl⟩ | ⟨m₁, hm₁, rfl⟩
    · exact Nat.zero_le fanOut
    · by_cases ho : other = parent
      · rw [ho, hp'] at hm₁
        obtain rfl := Option.some.inj hm₁
        simpa [joined, ho] using room
      · simpa [joined, ho] using (h.of_member?_raise hm₁).2

/-- The loss of a member without children. -/
theorem Sound.cut (h : a.Sound fanOut) {slot : ℕ} {m : Member} {above : List ℕ}
    (hm : a.member? slot = some m) (leaf : m.children = [])
    (hl : a.Lineage slot (slot :: above)) : ((a.lower above).cut slot m).Sound fanOut := by
  have wf : (a.lower above).WellFormed := h.toWellFormed.reweigh _
  have hl' : (a.lower above).Lineage slot (slot :: above) := hl.reweigh _
  have below : ∀ other, (a.lower above).below other = a.below other := below_reweigh _
  have outside : slot ∉ above := (List.nodup_cons.mp hl.nodup).1
  have hm' : (a.lower above).member? slot = some m := by
    rw [lower, member?_reweigh_of hm, List.count_eq_zero.mpr outside]
    rfl
  refine ⟨wf.cut hm' leaf, ?_, ?_⟩
  · intro other n hn
    obtain ⟨-, n₁, hn₁, rfl⟩ := exists_of_member?_cut hn
    obtain ⟨n₀, hn₀, rfl⟩ := exists_of_member?_reweigh hn₁
    rw [wf.card_below_cut hm' leaf hl', below]
    exact congrArg (· - above.count other) (h.weight_eq hn₀)
  · intro other n hn
    obtain ⟨-, n₁, hn₁, rfl⟩ := exists_of_member?_cut hn
    obtain ⟨n₀, hn₀, rfl⟩ := exists_of_member?_reweigh hn₁
    have before := h.room hn₀
    unfold parted
    split
    · exact (List.length_filter_le _ _).trans before
    · exact before

end TreeCluster.Arena
