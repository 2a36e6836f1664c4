import TreeCluster.Proofs.Table
import TreeCluster.Proofs.Tree.Visible

/-! # What a tree answers

The members of a tree in pre-order with their heights are its listing (`Tree.listing`).

In a sound tree every answer is one of the shape and of the listing.  The path of a member is made
of the addresses that lead to the top (`Sound.search_iff`), and with the paths of the members come
those of their children and of the root.  A walk offers the members of the listing
(`Sound.offer_listing`), and so do the queries that walk. -/

namespace TreeCluster

namespace Arena

variable {a : Arena} {slot : ℕ}

theorem Lineage.chainFrom_eq {line : List ℕ} (hl : a.Lineage slot line) {fuel : ℕ}
    (hf : line.length ≤ fuel) : a.chainFrom slot fuel = a.addresses line := by
  induction hl generalizing fuel with
  | root _ hm hp =>
      cases fuel with
      | zero => cases hf
      | succ fuel =>
          simp only [chainFrom, hm, hp, addresses_cons (addressAt_of hm)]
          rfl
  | step hm hp _ ih =>
      cases fuel with
      | zero => cases hf
      | succ fuel =>
          simp only [chainFrom, hm, hp, addresses_cons (addressAt_of hm),
            ih (Nat.le_of_succ_le_succ hf)]

end Arena

namespace Tree

variable {fanOut : ℕ} {t : Tree} {slot : ℕ} {x : NodeAddress}

/-- The members with their heights, parents first. -/
def listing (t : Tree) : List (NodeAddress × ℕ) :=
  let visit (height slot : ℕ) : StateM (List (NodeAddress × ℕ)) Bool := do
    match t.arena.member? slot with
    | some m => modify ((m.address, height) :: ·)
    | none => pure ()
    return false
  ((t.arena.walk visit).run []).2.reverse

/-! ### Members -/

theorem Sound.search_of (h : t.Sound fanOut) (hx : t.arena.addressAt slot = some x) :
    t.search x = some (t.pathOf slot) := by
  rw [search, h.arena.addressAt_iff.mp hx, Option.map_some]

/-- The path of a member goes through the addresses that lead to it from the top. -/
theorem Sound.search_iff (h : t.Sound fanOut) (x : NodeAddress) (path : NodePath) :
    t.search x = some path ↔
      ∃ line, t.arena.shape.Line x line ∧ path = .ofAddresses line.reverse := by
  have found {slot : ℕ} {m : Member} (hm : t.arena.member? slot = some m) :
      ∃ line, t.arena.shape.Line m.address line ∧
        t.search m.address = some (.ofAddresses line.reverse) := by
    obtain ⟨line, hl⟩ := h.arena.lineage hm
    refine ⟨_, hl.line h.arena.toIndexed (Arena.addressAt_of hm), ?_⟩
    rw [h.search_of (Arena.addressAt_of hm), pathOf, Arena.ancestry, hl.chainFrom_eq hl.length_le]
  constructor
  · intro hp
    obtain ⟨slot, hs, -⟩ := Option.map_eq_some_iff.mp hp
    obtain ⟨m, hm, rfl⟩ := h.exists_of_slotOf hs
    obtain ⟨line, up, hp'⟩ := found hm
    exact ⟨line, up, Option.some.inj (hp.symm.trans hp')⟩
  · rintro ⟨line, up, rfl⟩
    obtain ⟨p, hp⟩ := up.exists_place up.self_mem
    obtain ⟨slot, m, -, hm, rfl, -⟩ := h.arena.exists_of_place hp
    obtain ⟨line', up', hp'⟩ := found hm
    rw [hp', up.unique up']

theorem Sound.map_pathOf (h : t.Sound fanOut) {slots : List ℕ}
    (full : ∀ s ∈ slots, ∃ m, t.arena.member? s = some m) :
    slots.map t.pathOf = (t.arena.addresses slots).filterMap t.search := by
  induction slots with
  | nil => rfl
  | cons s slots ih =>
      obtain ⟨⟨m, hm⟩, others⟩ := List.forall_mem_cons.mp full
      have hx := Arena.addressAt_of hm
      rw [List.map_cons, ih others, Arena.addresses_cons hx, List.filterMap_cons_some (h.search_of hx)]

theorem Sound.childrenOf_eq (h : t.Sound fanOut) (x : NodeAddress) :
    t.childrenOf x = (t.arena.shape.place x).map fun p => p.children.filterMap t.search := by
  unfold childrenOf
  cases hs : t.arena.slotOf x with
  | none => rw [h.arena.place_eq_none_iff.mpr hs]; rfl
  | some slot =>
      obtain ⟨m, hm, rfl⟩ := h.exists_of_slotOf hs
      simp only [Option.bind_eq_bind, Option.bind_some, hm, h.arena.place_of hm, Option.map_some,
        h.map_pathOf (h.arena.toLinked.full_children hm)]
      rfl

theorem Sound.weightOf_eq_place (h : t.Sound fanOut) (x : NodeAddress) :
    t.weightOf x = (t.arena.shape.place x).map Place.weight := by
  unfold weightOf
  cases hs : t.arena.slotOf x with
  | none => rw [h.arena.place_eq_none_iff.mpr hs]; rfl
  | some slot =>
      obtain ⟨m, hm, rfl⟩ := h.exists_of_slotOf hs
      simp only [Option.bind_eq_bind, Option.bind_some, hm, h.arena.place_of hm, Option.map_some]
      rfl

theorem Sound.root_eq (h : t.Sound fanOut) : t.root = t.arena.shape.top.bind t.search := by
  unfold root Arena.shape
  cases hr : t.arena.root with
  | none => rfl
  | some root =>
      obtain ⟨m, hm, -⟩ := h.arena.root hr
      have hx := Arena.addressAt_of hm
      simp only [Option.map_some, Option.bind_some, hx, h.search_of hx]

theorem Sound.exists_slotOf_iff (h : t.Sound fanOut) (x : NodeAddress) :
    (∃ slot, t.arena.slotOf x = some slot) ↔ t.arena.shape.place x ≠ none := by
  rw [ne_eq, h.arena.place_eq_none_iff, ← ne_eq, Option.ne_none_iff_exists']

theorem Sound.size_eq (h : t.Sound fanOut) :
    (t.size : ℕ∞) = {x | t.arena.shape.place x ≠ none}.encard := by
  rw [size, Table.size_eq_encard h.arena.keys]
  exact congrArg Set.encard (Set.ext h.exists_slotOf_iff)

/-! ### Walks -/

/-- Offers members with their heights in order until one is accepted; gives the answer for it. -/
def offer {m : Type → Type} [Monad m] {ρ : Type} (accept : ℕ → NodeAddress → m Bool)
    (answer : NodeAddress → Option ρ) : List (NodeAddress × ℕ) → m (Option ρ)
  | [] => return none
  | (x, height) :: rest => do
    if ← accept height x then return answer x
    offer accept answer rest

theorem labels_full {e : ℕ × ℕ} (full : ∃ m, t.arena.member? e.1 = some m)
    (order : List (ℕ × ℕ)) :
    ∃ x, t.arena.addressAt e.1 = some x ∧
      t.arena.labels (e :: order) = (x, e.2) :: t.arena.labels order := by
  obtain ⟨m, hm⟩ := full
  exact ⟨m.address, Arena.addressAt_of hm, Arena.labels_cons (Arena.addressAt_of hm) order⟩

theorem map_visitAll {m : Type → Type} [Monad m] [LawfulMonad m] {ρ : Type}
    {visit : ℕ → ℕ → m Bool} {accept : ℕ → NodeAddress → m Bool} {f : ℕ → ρ}
    {answer : NodeAddress → Option ρ}
    (same : ∀ slot x, t.arena.addressAt slot = some x →
      (∀ height, visit height slot = accept height x) ∧ answer x = some (f slot))
    {order : List (ℕ × ℕ)} (full : ∀ e ∈ order, ∃ m, t.arena.member? e.1 = some m) :
    (do
      let found ← Arena.visitAll visit order
      return found.map f) = offer accept answer (t.arena.labels order) := by
  induction order with
  | nil => simp [Arena.visitAll, Arena.labels, offer]
  | cons e order ih =>
      obtain ⟨first, others⟩ := List.forall_mem_cons.mp full
      obtain ⟨x, hx, labels⟩ := labels_full first order
      obtain ⟨visits, answers⟩ := same e.1 x hx
      rw [labels]
      simp only [Arena.visitAll, offer, bind_assoc, visits, answers, ← ih others]
      refine bind_congr fun accepted => ?_
      cases accepted with
      | true => simp
      | false => simp

theorem run_visitAll {ι : Type} {visit : ℕ → ℕ → StateM (List ι) Bool} (item : ℕ → NodeAddress → ι)
    (push : ∀ slot x, t.arena.addressAt slot = some x → ∀ height seen,
      (visit height slot).run seen = (false, item height x :: seen))
    {order : List (ℕ × ℕ)} (full : ∀ e ∈ order, ∃ m, t.arena.member? e.1 = some m) (seen : List ι) :
    ((Arena.visitAll visit order).run seen).2 =
      ((t.arena.labels order).map fun e => item e.2 e.1).reverse ++ seen := by
  induction order generalizing seen with
  | nil => rfl
  | cons e order ih =>
      obtain ⟨first, others⟩ := List.forall_mem_cons.mp full
      obtain ⟨x, hx, labels⟩ := labels_full first order
      have step : (Arena.visitAll visit (e :: order)).run seen =
          (Arena.visitAll visit order).run (item e.2 x :: seen) := by
        simp only [Arena.visitAll, StateT.run_bind, push e.1 x hx]
        rfl
      rw [step, ih others, labels]
      simp

/-- A walk goes through the listing. -/
structure Lists (t : Tree) (order : List (ℕ × ℕ)) : Prop where
  preorder : Arena.Checked.preorder t.arena = .ok order
  full : ∀ e ∈ order, ∃ m, t.arena.member? e.1 = some m
  meets {slot : ℕ} {m : Member} : t.arena.member? slot = some m → slot ∈ order.map Prod.fst
  listing : t.listing = t.arena.labels order

theorem Sound.exists_lists (h : t.Sound fanOut) : ∃ order, t.Lists order := by
  obtain ⟨order, ok, -, -, all⟩ := h.arena.toWellFormed.checked_preorder
  have full : ∀ e ∈ order, ∃ m, t.arena.member? e.1 = some m :=
    fun e he => (all e.1).mp (List.mem_map_of_mem he)
  refine ⟨order, ok, full, fun hm => (all _).mpr ⟨_, hm⟩, ?_⟩
  simp only [listing]
  rw [Arena.walk_eq_visitAll _ ok, run_visitAll (fun height x => (x, height)) ?_ full]
  · simp
  · intro slot x hx height seen
    obtain ⟨m, hm, rfl⟩ := Option.map_eq_some_iff.mp hx
    simp only [hm]
    rfl

/-- A walk offers the members of the listing. -/
theorem Sound.offer_listing (h : t.Sound fanOut) {m : Type → Type} [Monad m] [LawfulMonad m]
    {ρ : Type} {visit : ℕ → ℕ → m Bool} {accept : ℕ → NodeAddress → m Bool} {f : ℕ → ρ}
    {answer : NodeAddress → Option ρ}
    (same : ∀ slot x, t.arena.addressAt slot = some x →
      (∀ height, visit height slot = accept height x) ∧ answer x = some (f slot)) :
    (do
      let found ← t.arena.walk visit
      return found.map f) = offer accept answer t.listing := by
  obtain ⟨order, lists⟩ := h.exists_lists
  rw [Arena.walk_eq_visitAll visit lists.preorder, lists.listing]
  exact map_visitAll same lists.full

theorem Sound.find_eq (h : t.Sound fanOut) (wanted : NodeAddress → Bool) :
    t.find wanted = (offer (m := Id) (fun _ x => wanted x) t.search t.listing).run := by
  unfold find
  rw [← h.offer_listing (f := t.pathOf) ?_]
  · rfl
  · intro slot x hx
    refine ⟨fun height => ?_, h.search_of hx⟩
    obtain ⟨m, hm, rfl⟩ := Option.map_eq_some_iff.mp hx
    simp only [hm]

theorem Sound.floop_eq (h : t.Sound fanOut) {m : Type → Type} [Monad m] [LawfulMonad m] (start : ℕ)
    (stop : ℕ → NodePath → m Bool) :
    t.floop start stop =
      offer (fun height x =>
        if start ≤ height then (t.search x).elim (pure false) (stop height) else pure false)
        t.search t.listing := by
  refine h.offer_listing fun slot x hx => ?_
  have found := h.search_of hx
  exact ⟨fun height => by rw [found]; rfl, found⟩

theorem Sound.childrenOf_of (h : t.Sound fanOut) (hx : t.arena.addressAt slot = some x) :
    t.childrenOf x = some (t.siblings slot) := by
  obtain ⟨m, hm, rfl⟩ := Option.map_eq_some_iff.mp hx
  simp only [childrenOf, h.arena.addressAt_iff.mp hx, Option.bind_eq_bind, Option.bind_some, hm,
    siblings]
  rfl

theorem Sound.floopGroup_eq (h : t.Sound fanOut) {m : Type → Type} [Monad m] [LawfulMonad m]
    (stop : ℕ → List NodePath → m Bool) :
    t.floopGroup stop =
      t.root.elim (pure none) (fun top => do
        if ← stop 0 [top] then return some [top]
        offer (fun height x => (t.childrenOf x).elim (pure false) fun group =>
          if group.isEmpty then pure false else stop (height + 1) group) t.childrenOf t.listing) := by
  unfold floopGroup root
  cases t.arena.root with
  | none => rfl
  | some root =>
      rw [Option.map_some, Option.elim_some, ← h.offer_listing (f := t.siblings) ?_]
      intro slot x hx
      have found := h.childrenOf_of hx
      exact ⟨fun height => by rw [found]; rfl, found⟩

theorem Sound.display_eq (h : t.Sound fanOut) :
    t.display =
      "NodeTree[fan_out=" ++ Text.Decimal.text t.fanOut ++ " nodes=" ++ Text.Decimal.text t.size ++
        "]\n" ++
      String.join (t.listing.map fun e => line e.2 ⟨e.1, none, [], (t.weightOf e.1).getD 0⟩) := by
  obtain ⟨order, lists⟩ := h.exists_lists
  have push : ∀ slot x, t.arena.addressAt slot = some x → ∀ height (seen : List String),
      (do
        match t.arena.member? slot with
        | some m => modify (line height m :: ·)
        | none => pure ()
        return false : StateM (List String) Bool).run seen =
      (false, line height ⟨x, none, [], (t.weightOf x).getD 0⟩ :: seen) := by
    intro slot x hx height seen
    obtain ⟨m, hm, rfl⟩ := Option.map_eq_some_iff.mp hx
    have weight : t.weightOf m.address = some m.weight := by
      rw [h.weightOf_eq_place, h.arena.place_of hm]
      rfl
    simp only [hm, weight]
    rfl
  have collected := run_visitAll _ push lists.full []
  rw [List.append_nil, ← lists.listing, ← Arena.walk_eq_visitAll _ lists.preorder] at collected
  have texts := congrArg (fun l => String.join l.reverse) collected
  simp only [List.reverse_reverse] at texts
  rw [← texts]
  rfl

end Tree
end TreeCluster
