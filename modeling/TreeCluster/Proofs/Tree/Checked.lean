import TreeCluster.Proofs.Tree.Weight

/-! # Checked operations

The operations on an arena take a slot without a member for the end of their way, stop when they
have taken as many steps as there are slots, stop at a full member without children, and take
nothing off a weight of zero.  The checked operations do the same work but report each of these
(`Fault`).

In a sound arena none is ever reported: a checked operation succeeds with what the operation
itself gives (`Lineage.checked_chainFrom`, `Sound.checked_insert`, `Sound.checked_detach`).  On
the way it turns out what descending and lightening amount to: they raise and lower the weights
of one lineage (`WellFormed.checked_descend`, `Lineage.checked_lighten`). -/

namespace TreeCluster

/-- What an operation on an arena could run into. -/
inductive Fault where
  /-- A slot that has to have a member has none. -/
  | vacant
  /-- There have been more steps than there are slots. -/
  | endless
  /-- A member that has lost one below has no weight. -/
  | weightless
  /-- A member without room has no children. -/
  | childless
  deriving DecidableEq

namespace Arena.Checked

/-- The member in a slot. -/
def member (a : Arena) (slot : ℕ) : Except Fault Member :=
  match a.member? slot with
  | none => .error .vacant
  | some m => .ok m

/-- The addresses from a slot up to the root. -/
def chainFrom (a : Arena) (slot : ℕ) : ℕ → Except Fault (List NodeAddress)
  | 0 => .error .endless
  | fuel + 1 => do
    let m ← member a slot
    match m.parent with
    | none => return [m.address]
    | some parent =>
      let rest ← chainFrom a parent fuel
      return m.address :: rest

/-- The first lightest of some slots. -/
def lightest (a : Arena) (slots : List ℕ) : Except Fault ℕ := do
  let _ ← slots.mapM (member a)
  match a.lightest slots with
  | none => throw .childless
  | some slot => return slot

/-- Goes down from `slot` to the first member with room for a child. -/
def descend (a : Arena) (fanOut slot : ℕ) : ℕ → Except Fault (Arena × ℕ)
  | 0 => .error .endless
  | fuel + 1 => do
    let m ← member a slot
    let a := a.modify slot fun m => { m with weight := m.weight + 1 }
    if m.children.length < fanOut then return (a, slot)
    let child ← lightest a m.children
    descend a fanOut child fuel

/-- Takes one off the weight of a slot and of all above it. -/
def lighten (a : Arena) (slot : ℕ) : ℕ → Except Fault Arena
  | 0 => .error .endless
  | fuel + 1 => do
    let m ← member a slot
    if m.weight = 0 then throw .weightless
    let a := a.modify slot fun m => { m with weight := m.weight - 1 }
    match m.parent with
    | none => return a
    | some parent => lighten a parent fuel

/-- Places a new address. -/
def insert (a : Arena) (fanOut : ℕ) (address : NodeAddress) : Except Fault (Arena × ℕ) :=
  match a.root with
  | none => return a.plant address
  | some root => do
    let (a, parent) ← descend a fanOut root (a.slots.size + 1)
    let _ ← member a parent
    return a.attach parent address

/-- Takes out a member without children. -/
def detach (a : Arena) (slot : ℕ) (m : Member) : Except Fault Arena :=
  match m.parent with
  | none => return a.release slot m.address
  | some parent => do
    let _ ← member a parent
    let a ← lighten (a.disown (some parent) slot) parent a.slots.size
    return a.release slot m.address

@[simp] theorem ok_bind {α β : Type} (x : α) (f : α → Except Fault β) :
    (Except.ok x >>= f) = f x := rfl

theorem member_of {a : Arena} {slot : ℕ} {m : Member} (h : a.member? slot = some m) :
    member a slot = .ok m := by
  unfold member
  rw [h]

end Arena.Checked

namespace Arena

variable {a : Arena} {slot : ℕ}

/-! ### Paths -/

theorem Lineage.checked_chainFrom {line : List ℕ} (hl : a.Lineage slot line) {fuel : ℕ}
    (hf : line.length ≤ fuel) :
    Checked.chainFrom a slot fuel = .ok (a.chainFrom slot fuel) := by
  induction hl generalizing fuel with
  | root _ hm hp =>
      cases fuel with
      | zero => cases hf
      | succ fuel =>
          unfold Checked.chainFrom chainFrom
          simp only [Checked.member_of hm, hm, hp, Checked.ok_bind]
          rfl
  | step hm hp _ ih =>
      cases fuel with
      | zero => cases hf
      | succ fuel =>
          have rest := ih (Nat.le_of_succ_le_succ hf)
          unfold Checked.chainFrom chainFrom
          simp only [Checked.member_of hm, hm, hp, rest, Checked.ok_bind]
          rfl

/-! ### Descending -/

theorem lighter_mem (best : ℕ) (slots : List ℕ) : a.lighter best slots ∈ best :: slots := by
  induction slots generalizing best with
  | nil => exact List.mem_singleton_self best
  | cons s slots ih =>
      unfold lighter
      by_cases h : a.weight s < a.weight best
      · rw [if_pos h]
        exact List.mem_cons_of_mem _ (ih s)
      · rw [if_neg h]
        rcases List.mem_cons.mp (ih best) with same | later
        · rw [same]
          exact List.mem_cons_self
        · exact List.mem_cons_of_mem _ (List.mem_cons_of_mem _ later)

theorem checked_members {slots : List ℕ} (full : ∀ s ∈ slots, ∃ m, a.member? s = some m) :
    ∃ members, slots.mapM (Checked.member a) = .ok members := by
  induction slots with
  | nil => exact ⟨[], rfl⟩
  | cons s slots ih =>
      obtain ⟨m, hm⟩ := full s List.mem_cons_self
      obtain ⟨members, rest⟩ := ih fun s' hs => full s' (List.mem_cons_of_mem _ hs)
      refine ⟨m :: members, ?_⟩
      rw [List.mapM_cons, Checked.member_of hm, rest]
      rfl

theorem checked_lightest {slots : List ℕ} (nonempty : slots ≠ [])
    (full : ∀ s ∈ slots, ∃ m, a.member? s = some m) :
    ∃ s ∈ slots, a.lightest slots = some s ∧ Checked.lightest a slots = .ok s := by
  obtain ⟨members, read⟩ := checked_members full
  cases slots with
  | nil => cases nonempty rfl
  | cons s slots =>
      refine ⟨a.lighter s slots, lighter_mem s slots, rfl, ?_⟩
      unfold Checked.lightest
      rw [read]
      rfl

/-- A member with children has a lightest child, whose lineage goes on with its own. -/
theorem WellFormed.exists_lightest (h : a.WellFormed) {m : Member} (hm : a.member? slot = some m)
    (nonempty : m.children ≠ []) {line : List ℕ} (hl : a.Lineage slot line) :
    ∃ child, a.lightest m.children = some child ∧ Checked.lightest a m.children = .ok child ∧
      a.Lineage child (child :: line) := by
  have full : ∀ s ∈ m.children, ∃ c, a.member? s = some c := by
    intro s hs
    obtain ⟨c, hc, -⟩ := h.child hm s hs
    exact ⟨c, hc⟩
  obtain ⟨child, listed, plain, checked⟩ := checked_lightest nonempty full
  obtain ⟨c, hc, back⟩ := h.child hm child listed
  exact ⟨child, plain, checked, .step hc back hl⟩

theorem Lineage.of_reweigh {line : List ℕ} {w : ℕ → ℕ → ℕ}
    (h : (a.reweigh w).Lineage slot line) : a.Lineage slot line := by
  refine h.congr rfl fun other _ m hm => ?_
  obtain ⟨m₀, hm₀, rfl⟩ := exists_of_member?_reweigh hm
  exact ⟨m₀, hm₀, rfl⟩

/-- The way down ends at a member with room, and one is added to the weight of all on it. -/
theorem WellFormed.checked_descend (h : a.WellFormed) {fanOut : ℕ} (hw : 0 < fanOut)
    {above : List ℕ} (hl : a.Lineage slot (slot :: above)) (fuel : ℕ)
    (hf : a.slots.size ≤ fuel + above.length) :
    ∃ way p m, a.descend fanOut slot fuel = (a.raise way, p) ∧
      Checked.descend a fanOut slot fuel = .ok (a.raise way, p) ∧
      a.Lineage p (way ++ above) ∧ a.member? p = some m ∧ m.children.length < fanOut := by
  induction fuel generalizing a slot above with
  | zero =>
      -- every step makes the lineage longer, and it has no more slots than the arena
      have := hl.length_le
      rw [List.length_cons] at this
      omega
  | succ fuel ih =>
      obtain ⟨m, hm⟩ := hl.exists_member hl.self_mem
      unfold descend Checked.descend
      simp only [hm, Checked.member_of hm, Checked.ok_bind, modify_eq_raise]
      by_cases room : m.children.length < fanOut
      · simp only [room, if_true]
        exact ⟨[slot], slot, m, rfl, rfl, hl, hm, room⟩
      · simp only [room, if_false]
        have wf : (a.raise [slot]).WellFormed := h.reweigh _
        have hm' : (a.raise [slot]).member? slot = some _ := member?_reweigh_of hm
        have nonempty : m.children ≠ [] := by
          rintro none
          rw [none] at room
          exact room hw
        obtain ⟨child, plain, checked, down⟩ := wf.exists_lightest hm' nonempty (hl.reweigh _)
        have size : (a.raise [slot]).slots.size = a.slots.size := size_reweigh a _
        obtain ⟨way, p, n, plain', checked', line, hn, room'⟩ :=
          ih wf down (by rw [size, List.length_cons]; omega)
        obtain ⟨n₀, hn₀, rfl⟩ := exists_of_member?_reweigh hn
        simp only [plain, checked, Checked.ok_bind]
        refine ⟨way ++ [slot], p, n₀, ?_, ?_, ?_, hn₀, room'⟩
        · rw [plain', raise_raise]
        · rw [checked', raise_raise]
        · rw [List.append_assoc]
          exact line.of_reweigh

/-! ### Lightening -/

/-- Where all above have weight, one is taken off each. -/
theorem Lineage.checked_lighten {line : List ℕ} (hl : a.Lineage slot line) (fuel : ℕ)
    (hf : line.length ≤ fuel)
    (heavy : ∀ s ∈ line, ∀ m, a.member? s = some m → m.weight ≠ 0) :
    a.lighten slot fuel = a.lower line ∧ Checked.lighten a slot fuel = .ok (a.lower line) := by
  induction line generalizing a slot fuel with
  | nil =>
      obtain ⟨above, h⟩ := hl.exists_eq_cons
      cases h
  | cons s above ih =>
      cases fuel with
      | zero => cases hf
      | succ fuel =>
          unfold lighten Checked.lighten
          cases hl with
          | root hr hm hp =>
              have weight := heavy s List.mem_cons_self _ hm
              simp only [hm, Checked.member_of hm, Checked.ok_bind, weight, hp, if_false]
              exact ⟨modify_eq_lower s, congrArg _ (modify_eq_lower s)⟩
          | @step _ parent m _ hm hp hl =>
              have apart : s ∉ above := (List.nodup_cons.mp (Lineage.step hm hp hl).nodup).1
              have weight := heavy s List.mem_cons_self _ hm
              -- a lineage meets no slot twice, so those further up still have their weight
              have heavy' : ∀ x ∈ above, ∀ n, (a.lower [s]).member? x = some n → n.weight ≠ 0 := by
                intro x hx n hn
                obtain ⟨n₀, hn₀, rfl⟩ := exists_of_member?_reweigh hn
                have other : s ≠ x := by
                  rintro rfl
                  exact apart hx
                have before := heavy x (List.mem_cons_of_mem _ hx) n₀ hn₀
                simpa [other] using before
              obtain ⟨plain, checked⟩ :=
                ih (a := a.lower [s]) (hl.reweigh _) fuel (Nat.le_of_succ_le_succ hf) heavy'
              simp only [hm, Checked.member_of hm, Checked.ok_bind, weight, hp, if_false,
                modify_eq_lower]
              rw [lower_lower] at plain checked
              exact ⟨plain, checked⟩

/-! ### Placing and taking out -/

/-- A new address is placed without a fault, in a slot with a lineage. -/
theorem Sound.checked_insert {fanOut : ℕ} (h : a.Sound fanOut) (hw : 0 < fanOut)
    {address : NodeAddress} (fresh : a.slotOf address = none) :
    Checked.insert a fanOut address = .ok (a.insert fanOut address) ∧
      (a.insert fanOut address).1.Sound fanOut ∧
      ∃ line, (a.insert fanOut address).1.Lineage (a.insert fanOut address).2 line := by
  unfold insert Checked.insert
  cases hr : a.root with
  | none => exact ⟨rfl, h.plant hr address, _, Lineage.plant h.toFreeList address⟩
  | some root =>
      obtain ⟨m, hm, top⟩ := h.root hr
      obtain ⟨way, p, n, plain, checked, line, hn, room⟩ :=
        h.toWellFormed.checked_descend hw (.root hr hm top) (a.slots.size + 1) (by simp)
      rw [List.append_nil] at line
      have hn' : (a.raise way).member? p = some _ := member?_reweigh_of hn
      have wf : (a.raise way).WellFormed := h.toWellFormed.reweigh _
      have line' : (a.raise way).Lineage p way := line.reweigh _
      simp only [plain, checked, Checked.ok_bind, Checked.member_of hn']
      exact ⟨rfl, h.attach hn line room fresh, _, line'.attach_slot address wf.toFreeList hn'⟩

theorem lower_nil : a.lower [] = a := by
  apply ext_member?
  · simp [lower]
  · intro slot
    rw [lower, member?_reweigh]
    exact Option.map_id'
  · rfl
  · rfl
  · rfl

theorem Lineage.disown {line : List ℕ} (hl : a.Lineage slot line) (parent : Option ℕ) (x : ℕ) :
    (a.disown parent x).Lineage slot line := by
  refine hl.congr (disown_root parent x) fun other _ m hm => ?_
  rw [member?_disown, hm]
  exact ⟨_, rfl, rfl⟩

/-- A member is taken out without a fault: one is taken off the weight of all above it, and then it
is cut off. -/
theorem Sound.detach_eq {fanOut : ℕ} (h : a.Sound fanOut) {m : Member}
    (hm : a.member? slot = some m) {above : List ℕ} (hl : a.Lineage slot (slot :: above)) :
    a.detach slot m = (a.lower above).cut slot m ∧
      Checked.detach a slot m = .ok (a.detach slot m) := by
  have heavy : ∀ s ∈ above, ∀ n, a.member? s = some n → n.weight ≠ 0 := by
    intro s hs n hn
    rw [h.weight_eq hn]
    exact Finset.card_ne_zero_of_mem ((mem_below hl).mpr hs)
  unfold detach Checked.detach Arena.cut
  cases hl with
  | root hr hm' hp =>
      obtain rfl := Option.some.inj (hm.symm.trans hm')
      rw [hp, lower_nil]
      exact ⟨rfl, rfl⟩
  | @step _ parent _ _ hm' hp hl =>
      obtain rfl := Option.some.inj (hm.symm.trans hm')
      obtain ⟨p, hmp⟩ := hl.exists_member hl.self_mem
      have heavy' : ∀ s ∈ above, ∀ n, (a.disown (some parent) slot).member? s = some n →
          n.weight ≠ 0 := by
        intro s hs n hn
        rw [member?_disown] at hn
        obtain ⟨n₀, hn₀, rfl⟩ := Option.map_eq_some_iff.mp hn
        exact heavy s hs n₀ hn₀
      obtain ⟨plain, checked⟩ := (hl.disown (some parent) slot).checked_lighten
        a.slots.size hl.length_le heavy'
      rw [hp, ← disown_lower, ← plain]
      simp only [Checked.member_of hmp, checked, Checked.ok_bind, ← plain]
      exact ⟨rfl, rfl⟩

/-- A member without children is taken out without a fault. -/
theorem Sound.checked_detach {fanOut : ℕ} (h : a.Sound fanOut) {m : Member}
    (hm : a.member? slot = some m) (leaf : m.children = []) :
    Checked.detach a slot m = .ok (a.detach slot m) ∧ (a.detach slot m).Sound fanOut := by
  obtain ⟨line, hl⟩ := h.lineage hm
  obtain ⟨above, rfl⟩ := hl.exists_eq_cons
  obtain ⟨plain, checked⟩ := h.detach_eq hm hl
  exact ⟨checked, plain ▸ h.cut hm leaf hl⟩

end Arena
end TreeCluster
