import TreeCluster.Proofs.Tree.Branch

/-! # The order of arrival

The members of a tree in the order in which they came (`Tree.arrivalsIn`): a change brings at most
one member, which comes last, also among its siblings, and the others stay in order whoever leaves.
So siblings stand in the order in which they came, after every run (`Arrived.run`).

While addresses are only added, this is the order in which they first occur among the additions
(`Arrived.arrivalsIn_add`, `arrivalsIn_add_of_empty`). -/

namespace TreeCluster.Tree

variable {fanOut : ℕ} {t t' : Tree} {x y : NodeAddress} {arrivals : List NodeAddress}

/-- The members in the order in which they came, after a change that brings at most one: who has
left is left out, and who is new comes last. -/
def arrivalsAfter (t t' : Tree) (arrivals : List NodeAddress) : List NodeAddress :=
  arrivals.filter (fun x => (t'.search x).isSome) ++
    (t'.listing.map Prod.fst).filter fun x => (t.search x).isNone

/-- The members in the order in which they came, after the entries of a log have been applied. -/
def arrivalsInLog (fresh : ℕ → String) (t : Tree) (arrivals : List NodeAddress) :
    List ReplayEntry → List NodeAddress
  | [] => arrivals
  | e :: rest =>
    match t.applyEntry (fresh 0) e with
    | .error _ => arrivals
    | .ok t' => arrivalsInLog (fun k => fresh (k + 1)) t' (t.arrivalsAfter t' arrivals) rest

/-- The members in the order in which they came, after a change. -/
def arrivalsOf (t : Tree) (arrivals : List NodeAddress) : Op → List NodeAddress
  | .replay fresh entries => arrivalsInLog fresh t arrivals entries
  | op => t.arrivalsAfter (t.apply op) arrivals

/-- The members in the order in which they came, after changes in order. -/
def arrivalsIn (t : Tree) (arrivals : List NodeAddress) : List Op → List NodeAddress
  | [] => arrivals
  | op :: ops => (t.apply op).arrivalsIn (t.arrivalsOf arrivals op) ops

/-- Every member is listed once, and siblings stand in the order of the list. -/
structure Arrived (t : Tree) (arrivals : List NodeAddress) : Prop where
  once : arrivals.Nodup
  mem_iff : ∀ x, x ∈ arrivals ↔ t.search x ≠ none
  siblings : ∀ x children, t.offspring x = some children → children.Sublist arrivals

theorem arrived_of_empty (empty : ∀ x, t.search x = none) (alone : ∀ x, t.offspring x = none) :
    t.Arrived [] := by
  refine ⟨List.nodup_nil, fun x => by simp [empty], fun x children hc => ?_⟩
  rw [alone] at hc
  cases hc

theorem Arrived.perm_listing (arrived : t.Arrived arrivals) (h : t.Sound fanOut) :
    arrivals.Perm (t.listing.map Prod.fst) := by
  refine (List.perm_ext_iff_of_nodup arrived.once h.nodup_listing).mpr fun x => ?_
  rw [arrived.mem_iff, h.mem_listing_fst_iff]

theorem Arrived.arrivalsAfter_self (h : t.Sound fanOut) (arrived : t.Arrived arrivals) :
    t.arrivalsAfter t arrivals = arrivals := by
  have stay : arrivals.filter (fun x => (t.search x).isSome) = arrivals := by
    refine List.filter_eq_self.mpr fun x hx => ?_
    exact Option.isSome_iff_ne_none.mpr ((arrived.mem_iff x).mp hx)
  have none : ((t.listing.map Prod.fst).filter fun x => (t.search x).isNone) = [] := by
    refine List.filter_eq_nil_iff.mpr fun x hx => ?_
    simpa using h.mem_listing_fst_iff.mp hx
  rw [arrivalsAfter, stay, none, List.append_nil]

/-- A new member comes last among its siblings. -/
theorem Sound.offspring_add (h : t.Sound fanOut) (new : t.search x = none)
    {children : List NodeAddress} (hc : (t.add x).1.offspring y = some children) :
    children = [] ∨ ∃ before, t.offspring y = some before ∧
      (children = before ∨ children = before ++ [x]) := by
  rcases h.add_cases x with ⟨here, -⟩ | ⟨-, placed⟩
  · exact absurd (h.search_eq_none_iff.mp new) here
  · unfold offspring at hc ⊢
    generalize (t.add x).1.arena.shape = s at placed hc
    cases placed with
    | first topless =>
        by_cases same : y = x
        · simp_all [Shape.single]
        · simp_all [Shape.single]
    | @below top parent above _ _ =>
        by_cases same : y = x
        · simp_all [Shape.attach]
        · obtain ⟨p, hp, rfl⟩ := Option.map_eq_some_iff.mp hc
          simp only [Shape.attach, if_neg same, Shape.raise, Shape.reweigh, Option.map_map] at hp
          obtain ⟨q, hq, rfl⟩ := Option.map_eq_some_iff.mp hp
          refine .inr ⟨q.children, by rw [hq, Option.map_some], ?_⟩
          by_cases below : y = parent
          · exact .inr (if_pos below)
          · exact .inl (if_neg below)

namespace Gains

theorem mem_iff (h : Gains fanOut t x t') (y : NodeAddress) :
    t'.search y ≠ none ↔ y = x ∨ t.search y ≠ none := by
  by_cases same : y = x
  · subst same
    obtain ⟨path, found⟩ := h.oneMore.present
    simp [found]
  · rw [h.search_eq same]
    simp [same]

theorem arrivals_after (h : Gains fanOut t x t') (arrived : t.Arrived arrivals) :
    t.arrivalsAfter t' arrivals = arrivals ++ [x] := by
  have stay : arrivals.filter (fun y => (t'.search y).isSome) = arrivals := by
    refine List.filter_eq_self.mpr fun y hy => ?_
    exact Option.isSome_iff_ne_none.mpr ((h.mem_iff y).mpr (.inr ((arrived.mem_iff y).mp hy)))
  have new : ((t'.listing.map Prod.fst).filter fun y => (t.search y).isNone) = [x] := by
    refine List.perm_singleton.mp ((List.perm_ext_iff_of_nodup
      (h.after.nodup_listing.filter _) (List.nodup_singleton x)).mpr fun y => ?_)
    rw [List.mem_filter, h.after.mem_listing_fst_iff, h.mem_iff, List.mem_singleton,
      Option.isNone_iff_eq_none]
    constructor
    · rintro ⟨rfl | here, gone⟩
      · rfl
      · exact absurd gone here
    · rintro rfl
      exact ⟨.inl rfl, h.oneMore.absent⟩
  rw [arrivalsAfter, stay, new]

theorem arrivals_before (h : Gains fanOut t x t') (arrived : t'.Arrived arrivals) :
    t'.arrivalsAfter t arrivals = arrivals.filter (· ≠ x) := by
  have stay : arrivals.filter (fun y => (t.search y).isSome) = arrivals.filter (· ≠ x) := by
    refine List.filter_congr fun y hy => ?_
    rw [Bool.eq_iff_iff, Option.isSome_iff_ne_none, decide_eq_true_iff]
    refine ⟨?_, fun other => ((h.mem_iff y).mp ((arrived.mem_iff y).mp hy)).resolve_left other⟩
    rintro here rfl
    exact here h.oneMore.absent
  have none : ((t.listing.map Prod.fst).filter fun y => (t'.search y).isNone) = [] := by
    refine List.filter_eq_nil_iff.mpr fun y hy => ?_
    simpa using (h.mem_iff y).mpr (.inr (h.before.mem_listing_fst_iff.mp hy))
  rw [arrivalsAfter, stay, none, List.append_nil]

end Gains

theorem Arrived.add (h : t.Sound fanOut) (arrived : t.Arrived arrivals) (x : NodeAddress) :
    (t.add x).1.Arrived (t.arrivalsAfter (t.add x).1 arrivals) := by
  cases found : t.search x with
  | some path =>
      rw [add_of_present found, arrived.arrivalsAfter_self h]
      exact arrived
  | none =>
      have gains := h.gains_add found
      rw [gains.arrivals_after arrived]
      have absent : x ∉ arrivals := fun hx => (arrived.mem_iff x).mp hx found
      refine ⟨?_, fun y => ?_, fun y children hc => ?_⟩
      · rw [← List.concat_eq_append]
        exact arrived.once.concat absent
      · rw [List.mem_append, List.mem_singleton, arrived.mem_iff, gains.mem_iff, or_comm]
      · rcases h.offspring_add found hc with rfl | ⟨before, hb, rfl | rfl⟩
        · exact List.nil_sublist _
        · exact (arrived.siblings y _ hb).trans (List.sublist_append_left _ _)
        · exact (arrived.siblings y _ hb).append (List.Sublist.refl _)

theorem Arrived.remove (h : t.Sound fanOut) (arrived : t.Arrived arrivals) (x : NodeAddress) :
    (t.remove x).1.Arrived (t.arrivalsAfter (t.remove x).1 arrivals) := by
  cases gone : (t.remove x).2 with
  | false =>
      rw [fst_remove_of_refused gone, arrived.arrivalsAfter_self h]
      exact arrived
  | true =>
      obtain ⟨-, gains⟩ := h.gains_remove (h.childrenOf_of_removed gone)
      rw [gains.arrivals_before arrived]
      refine ⟨arrived.once.filter _, fun y => ?_, fun y children hc => ?_⟩
      · rw [List.mem_filter, arrived.mem_iff, gains.mem_iff, decide_eq_true_iff]
        constructor
        · rintro ⟨rfl | here, other⟩
          · exact absurd rfl other
          · exact here
        · intro here
          refine ⟨.inr here, ?_⟩
          rintro rfl
          exact here gains.oneMore.absent
      · have apart : y ≠ x := by
          rintro rfl
          have absent := gains.shape.absent
          rw [offspring, absent] at hc
          cases hc
        obtain ⟨before, hb, rfl⟩ := Option.map_eq_some_iff.mp
          ((gains.oneMore.offspring y apart).symm.trans hc)
        exact (arrived.siblings y before hb).filter _

theorem arrived_clear (t : Tree) (arrivals : List NodeAddress) :
    t.clear.Arrived (t.arrivalsAfter t.clear arrivals) := by
  have nobody : ∀ x, t.clear.search x = none := fun x => rfl
  have unlisted : t.clear.listing = [] := rfl
  have none : t.arrivalsAfter t.clear arrivals = [] := by simp [arrivalsAfter, nobody, unlisted]
  rw [none]
  exact arrived_of_empty nobody fun _ => rfl

theorem Arrived.inLog (h : t.Sound fanOut) (arrived : t.Arrived arrivals) (fresh : ℕ → String)
    (entries : List ReplayEntry) :
    (t.replay fresh entries).1.Arrived (arrivalsInLog fresh t arrivals entries) := by
  induction entries generalizing t arrivals fresh with
  | nil => exact arrived
  | cons e rest ih =>
      unfold Tree.replay arrivalsInLog
      cases applied : t.applyEntry (fresh 0) e with
      | error cause => exact arrived
      | ok u =>
          refine ih ((h.applyEntry (fresh 0) e).2 u applied) ?_ _
          rcases applyEntry_cases applied with ⟨-, rfl⟩ | ⟨-, y, -, rfl⟩ | ⟨-, y, -, rfl⟩
          · exact arrived_clear t arrivals
          · exact arrived.add h y
          · exact arrived.remove h y

theorem Arrived.apply (h : t.Sound fanOut) (arrived : t.Arrived arrivals) (op : Op) :
    (t.apply op).Arrived (t.arrivalsOf arrivals op) := by
  cases op with
  | add x => exact arrived.add h x
  | remove x => exact arrived.remove h x
  | clear => exact arrived_clear t arrivals
  | replay fresh entries => exact arrived.inLog h fresh entries

theorem Arrived.run (h : t.Sound fanOut) (arrived : t.Arrived arrivals) (ops : List Op) :
    (t.run ops).Arrived (t.arrivalsIn arrivals ops) := by
  induction ops generalizing t arrivals with
  | nil => exact arrived
  | cons op ops ih => exact ih (h.apply op).2 (arrived.apply h op)

/-! ### Runs that start empty or only add -/

theorem arrived_run (fanOut : ℕ) (ops : List Op) :
    ((withFanOut fanOut).run ops).Arrived ((withFanOut fanOut).arrivalsIn [] ops) :=
  (arrived_of_empty (fun _ => rfl) fun _ => rfl).run (sound_withFanOut fanOut) ops

theorem arrivalsIn_append (t : Tree) (arrivals : List NodeAddress) (ops later : List Op) :
    t.arrivalsIn arrivals (ops ++ later) =
      (t.run ops).arrivalsIn (t.arrivalsIn arrivals ops) later := by
  induction ops generalizing t arrivals with
  | nil => rfl
  | cons op ops ih => exact ih _ _

/-- Added addresses come behind the members that are there, each where it first occurs. -/
theorem Arrived.arrivalsIn_add (h : t.Sound fanOut) (arrived : t.Arrived arrivals)
    (added : List NodeAddress) :
    t.arrivalsIn arrivals (added.map .add) =
      arrivals ++ (added.filter (· ∉ arrivals)).eraseDups := by
  induction added generalizing t arrivals with
  | nil => simp [arrivalsIn]
  | cons x added ih =>
      have next : t.arrivalsIn arrivals ((x :: added).map .add) =
          (t.add x).1.arrivalsIn (t.arrivalsAfter (t.add x).1 arrivals) (added.map .add) := rfl
      rw [next, ih (h.add x).2 (arrived.add h x)]
      cases found : t.search x with
      | some path =>
          have here : x ∈ arrivals := (arrived.mem_iff x).mpr (by simp [found])
          rw [add_of_present found, arrived.arrivalsAfter_self h,
            List.filter_cons_of_neg (by simpa using here)]
      | none =>
          have new : x ∉ arrivals := fun here => (arrived.mem_iff x).mp here found
          have later : (added.filter (· ∉ arrivals)).filter (fun y => !y == x) =
              added.filter (· ∉ arrivals ++ [x]) := by
            rw [List.filter_filter]
            refine List.filter_congr fun y _ => ?_
            rw [Bool.eq_iff_iff]
            simp [and_comm]
          rw [(h.gains_add found).arrivals_after arrived, List.append_assoc,
            List.filter_cons_of_pos (by simpa using new), List.eraseDups_cons, later]
          rfl

/-- In a tree that a run left without members, addresses come in the order of the additions. -/
theorem arrivalsIn_add_of_empty (fanOut : ℕ) (ops : List Op) (added : List NodeAddress)
    (empty : ((withFanOut fanOut).run ops).size = 0) :
    (withFanOut fanOut).arrivalsIn [] (ops ++ added.map .add) = added.eraseDups := by
  have sound := ((sound_withFanOut fanOut).run ops).2
  have arrived := arrived_run fanOut ops
  have nobody : (withFanOut fanOut).arrivalsIn [] ops = [] := by
    rw [← List.length_eq_zero_iff, (arrived.perm_listing sound).length_eq, List.length_map,
      ← sound.size_eq_length, empty]
  rw [arrivalsIn_append, arrived.arrivalsIn_add sound, nobody]
  simp

end TreeCluster.Tree
