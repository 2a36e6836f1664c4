import TreeCluster.Proofs.Tree.Arrivals
import TreeCluster.Proofs.Tree.Paths

/-! # What a walk visits

A walk that is told where to stop calls its predicate on members in pre-order, each once, with its
distance from the root and its path.  It makes the calls in the order of the recursion over the
branch of the root (`Tree.calls`), up to and including the first that is answered with yes
(`Sound.floop_eq_findM?`), whatever effects the predicate has.  A search for a name or an endpoint
stops at the first member in the same order that has it (`Sound.find_eq_find?`).  `run_floop` puts
this together. -/

namespace TreeCluster.Tree

variable {fanOut : ℕ} {t : Tree} {x : NodeAddress}

/-- The calls of a walk through some members: height and path of each at or below a height. -/
def calls (t : Tree) (start : ℕ) (order : List (NodeAddress × ℕ)) : List (ℕ × NodePath) :=
  order.filterMap fun e => if start ≤ e.2 then (t.search e.1).map (e.2, ·) else none

theorem Sound.exists_path_of_listed (h : t.Sound fanOut) :
    ∀ e ∈ t.listing, ∃ path, t.search e.1 = some path := by
  intro e he
  exact Option.ne_none_iff_exists'.mp (h.mem_listing_fst_iff.mp (List.mem_map_of_mem he))

/-! ### Walks with a predicate -/

/-- Offering members is making calls until one is accepted, if each member is either refused
without a call or offered by one that says what the answer is. -/
theorem offer_eq_findM?_filterMap {m : Type → Type} [Monad m] [LawfulMonad m] {ρ : Type}
    {accept : ℕ → NodeAddress → m Bool} {answer : NodeAddress → Option ρ}
    {call : NodeAddress × ℕ → Option (ℕ × ρ)} (stop : ℕ → ρ → m Bool)
    {order : List (NodeAddress × ℕ)}
    (calls : ∀ e ∈ order, (call e = none ∧ accept e.2 e.1 = pure false) ∨
      ∃ c, call e = some c ∧ accept e.2 e.1 = stop c.1 c.2 ∧ answer e.1 = some c.2) :
    offer accept answer order =
      Option.map Prod.snd <$> (order.filterMap call).findM? fun c => stop c.1 c.2 := by
  induction order with
  | nil => simp [offer]
  | cons e order ih =>
      obtain ⟨first, others⟩ := List.forall_mem_cons.mp calls
      rw [offer, ih others]
      rcases first with ⟨skipped, refused⟩ | ⟨c, called, offered, answered⟩
      · rw [List.filterMap_cons_none skipped, refused]
        simp
      · rw [List.filterMap_cons_some called, offered, answered, List.findM?, map_bind]
        refine bind_congr fun accepted => ?_
        cases accepted with
        | true => simp
        | false => simp

theorem offer_eq_findM? {m : Type → Type} [Monad m] [LawfulMonad m] (start : ℕ)
    (stop : ℕ → NodePath → m Bool) {order : List (NodeAddress × ℕ)}
    (found : ∀ e ∈ order, ∃ path, t.search e.1 = some path) :
    offer (fun height x =>
        if start ≤ height then (t.search x).elim (pure false) (stop height) else pure false)
        t.search order =
      Option.map Prod.snd <$> (t.calls start order).findM? fun call => stop call.1 call.2 := by
  refine offer_eq_findM?_filterMap stop fun e he => ?_
  obtain ⟨path, hp⟩ := found e he
  by_cases low : start ≤ e.2
  · exact .inr ⟨(e.2, path), by rw [if_pos low, hp]; rfl, by rw [if_pos low, hp]; rfl, hp⟩
  · exact .inl ⟨if_neg low, if_neg low⟩

theorem Sound.floop_eq_findM? (h : t.Sound fanOut) {m : Type → Type} [Monad m] [LawfulMonad m]
    (start : ℕ) (stop : ℕ → NodePath → m Bool) :
    t.floop start stop =
      Option.map Prod.snd <$> (t.calls start t.listing).findM? fun call => stop call.1 call.2 := by
  rw [h.floop_eq, offer_eq_findM? start stop h.exists_path_of_listed]

/-! ### Searches -/

theorem run_offer (wanted : NodeAddress → Bool) (answer : NodeAddress → Option NodePath)
    (order : List (NodeAddress × ℕ)) :
    (offer (m := Id) (fun _ x => wanted x) answer order).run =
      (order.find? fun e => wanted e.1).bind fun e => answer e.1 := by
  induction order with
  | nil => rfl
  | cons e order ih =>
      have one : (offer (m := Id) (fun _ x => wanted x) answer (e :: order)).run =
          if wanted e.1 then answer e.1 else
            (offer (m := Id) (fun _ x => wanted x) answer order).run := by
        rw [offer]
        exact apply_ite Id.run (wanted e.1 = true) (pure (answer e.1)) _
      rw [one, ih, List.find?_cons]
      cases wanted e.1 with
      | true => rfl
      | false => rfl

theorem Sound.find_eq_find? (h : t.Sound fanOut) (wanted : NodeAddress → Bool) :
    t.find wanted = (t.listing.find? fun e => wanted e.1).bind fun e => t.search e.1 := by
  rw [h.find_eq, run_offer]

theorem Sound.find_eq_none_iff (h : t.Sound fanOut) (wanted : NodeAddress → Bool) :
    t.find wanted = none ↔ ∀ x, t.search x ≠ none → wanted x = false := by
  rw [h.find_eq_find?]
  constructor
  · intro none x here
    obtain ⟨e, he, rfl⟩ := List.mem_map.mp (h.mem_listing_fst_iff.mpr here)
    cases first : t.listing.find? fun e => wanted e.1 with
    | none => simpa using List.find?_eq_none.mp first e he
    | some e' =>
        obtain ⟨path, hp⟩ := h.exists_path_of_listed e' (List.mem_of_find?_eq_some first)
        rw [first, Option.bind_some, hp] at none
        cases none
  · intro nobody
    rw [List.find?_eq_none.mpr, Option.bind_none]
    intro e he
    simp [nobody e.1 (h.mem_listing_fst_iff.mp (List.mem_map_of_mem he))]

/-- **A walk visits members in pre-order and stops early.**  After every run the tree is the branch
of its root, and the pre-order of that branch, by recursion over children, holds each member once,
with a height that is its distance from the root and a path through the addresses on the way.  The
children of every member stand in the order in which they came; this is an order of all members.

* A walk from a height on, whatever its predicate does, is that which calls it on the members at or
  below the height in this order until a call is accepted, and gives the path of that call.
* A search for a name or for an endpoint gives the path of the first member in this order that has
  it, and nothing if and only if no member has it. -/
theorem run_floop (fanOut : ℕ) (ops : List Op) :
    let t := (withFanOut fanOut).run ops
    let arrivals := (withFanOut fanOut).arrivalsIn [] ops
    ∃ whole, t.arena.shape.Shows whole ∧
      let order := whole.elim [] (Branch.preorder 0)
      (order.map Prod.fst).Nodup ∧
      (∀ x, x ∈ order.map Prod.fst ↔ t.search x ≠ none) ∧
      arrivals.Perm (order.map Prod.fst) ∧
      (∀ x children, t.offspring x = some children → children.Sublist arrivals) ∧
      (∀ x height, (x, height) ∈ order → ∃ line, t.arena.shape.Line x line ∧
        line.length = height + 1 ∧ t.search x = some (.ofAddresses line.reverse)) ∧
      (∀ (m : Type → Type) [Monad m] [LawfulMonad m] (start : ℕ) (stop : ℕ → NodePath → m Bool),
        t.floop start stop =
          Option.map Prod.snd <$> (t.calls start order).findM? fun call => stop call.1 call.2) ∧
      (∀ name,
        t.searchName name = (order.find? fun e => e.1.name = name).bind (fun e => t.search e.1) ∧
        (t.searchName name = none ↔ ∀ x, t.search x ≠ none → x.name ≠ name)) ∧
      ∀ endpoint,
        t.searchEndpoint endpoint =
          (order.find? fun e => e.1.endpoint = endpoint).bind (fun e => t.search e.1) ∧
        (t.searchEndpoint endpoint = none ↔ ∀ x, t.search x ≠ none → x.endpoint ≠ endpoint) := by
  intro t arrivals
  have sound : t.Sound (max fanOut 1) := ((sound_withFanOut fanOut).run ops).2
  have arrived : t.Arrived arrivals := arrived_run fanOut ops
  obtain ⟨whole, shows⟩ := sound.exists_shows
  refine ⟨whole, shows, ?_⟩
  rw [← sound.listing_eq shows]
  refine ⟨sound.nodup_listing, fun x => sound.mem_listing_fst_iff, arrived.perm_listing sound,
    arrived.siblings, fun x height listed => ?_, fun m _ _ start stop => sound.floop_eq_findM? start stop,
    fun name => ⟨sound.find_eq_find? _, ?_⟩, fun endpoint => ⟨sound.find_eq_find? _, ?_⟩⟩
  · obtain ⟨line, hl, length⟩ := sound.exists_line_of_listed listed
    exact ⟨line, hl, length, (sound.search_iff x _).mpr ⟨line, hl, rfl⟩⟩
  · simp only [searchName, sound.find_eq_none_iff, decide_eq_false_iff_not]
  · simp only [searchEndpoint, sound.find_eq_none_iff, decide_eq_false_iff_not]

end TreeCluster.Tree
