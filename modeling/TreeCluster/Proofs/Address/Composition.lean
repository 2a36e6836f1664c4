import TreeCluster.Proofs.Address.Legible

/-! # Composed paths

A path is built from the root down, child after child, or from all its addresses at once, and both
give the same (`ofAddresses_eq_foldl`).  As long as the addresses are legible it can be taken apart
again: they are read along it, the last of them by itself, and what is left without the last one is
the path of the leader.  So legible addresses are told from their path (`ofAddresses_inj`).
`ofAddresses_decomposes` puts this together. -/

namespace TreeCluster.NodePath

variable {as bs : List NodeAddress}

theorem ofAddresses_concat (nonempty : as ≠ []) (a : NodeAddress) :
    ofAddresses (as ++ [a]) = (ofAddresses as).child a := by
  have chars : (ofAddresses (as ++ [a])).text.toList = ((ofAddresses as).child a).text.toList := by
    rw [toList_ofAddresses_concat nonempty]
    simp [child, separator]
  exact congrArg NodePath.mk (String.toList_inj.mp chars)

theorem ofAddresses_eq_foldl (a : NodeAddress) (as : List NodeAddress) :
    ofAddresses (a :: as) = as.foldl child (root a) := by
  induction as using List.reverseRecOn with
  | nil =>
      have chars : (ofAddresses [a]).text.toList = a.text.toList := toList_ofAddresses [a]
      exact congrArg NodePath.mk (String.toList_inj.mp chars)
  | append_singleton as b ih =>
      rw [List.foldl_concat, ← ih, ← ofAddresses_concat (List.cons_ne_nil a as), List.cons_append]

theorem ofAddresses_inj (nonempty : as ≠ []) (legible : ∀ a ∈ as, a.Legible) (nonempty' : bs ≠ [])
    (legible' : ∀ b ∈ bs, b.Legible) : ofAddresses as = ofAddresses bs ↔ as = bs := by
  refine ⟨fun same => ?_, congrArg ofAddresses⟩
  have forms := addressForms_ofAddresses nonempty legible
  rw [same, addressForms_ofAddresses nonempty' legible'] at forms
  have inj : Function.Injective NodeAddress.written := fun _ _ => NodeAddress.written_inj.mp
  exact (inj.list_map (Except.ok.inj forms)).symm

/-- **Paths compose and decompose.**  For legible addresses, at least one of them:

* the path through them is the root's, child after child, and it is read back from its text;
* its addresses are these, under whatever fresh names, and its node is the last one; it is as deep as
  they are many;
* a single one has no leader, and otherwise the leader is the path through all but the last;
* no other legible addresses have this path. -/
theorem ofAddresses_decomposes (nonempty : as ≠ []) (legible : ∀ a ∈ as, a.Legible) :
    ofAddresses as = as.tail.foldl child (root (as.head nonempty)) ∧
    parse (ofAddresses as).text = .ok (ofAddresses as) ∧
    (∀ fresh, (ofAddresses as).addresses fresh = .ok as) ∧
    (∀ fresh, (ofAddresses as).node fresh = .ok (as.getLast nonempty)) ∧
    (ofAddresses as).depth = as.length ∧
    ((ofAddresses as).leader =
      if as.length = 1 then none else some (ofAddresses as.dropLast)) ∧
    ∀ bs, bs ≠ [] → (∀ b ∈ bs, b.Legible) → ofAddresses bs = ofAddresses as → bs = as := by
  have ends : as.dropLast ++ [as.getLast nonempty] = as := List.dropLast_concat_getLast nonempty
  have single : as.dropLast = [] ↔ as.length = 1 := by
    have positive := List.length_pos_iff.mpr nonempty
    rw [← List.length_eq_zero_iff, List.length_dropLast]
    omega
  refine ⟨?_, parse_ofAddresses nonempty legible, fun fresh => ?_, fun fresh => ?_,
    depth_ofAddresses legible, ?_, fun bs nonempty' legible' same => ?_⟩
  · rw [← ofAddresses_eq_foldl, List.cons_head_tail]
  · exact addresses_of_written (addressForms_ofAddresses nonempty legible) fresh
  · have last := @nodeForm_ofAddresses as.dropLast (as.getLast nonempty) (by rwa [ends])
    rw [ends] at last
    rw [node, last]
    rfl
  · have leader := @leader_ofAddresses as.dropLast (as.getLast nonempty) (by rwa [ends])
    rw [ends] at leader
    rw [leader]
    exact if_congr single rfl rfl
  · exact (ofAddresses_inj nonempty' legible' nonempty legible).mp same

/-- A member that occurs twice, below one whose host ends in a colon. -/
theorem ofAddresses_decomposes_of_three_addresses :
    let a : NodeAddress := ⟨"a", "h@x:1", 0⟩
    let b : NodeAddress := ⟨"b", "h:", 65535⟩
    let p : NodePath := ⟨"a@h@x:1:0/b@h::65535/a@h@x:1:0"⟩
    (∀ c ∈ [a, b, a], c.Legible) ∧ p = ((root a).child b).child a ∧ parse p.text = .ok p ∧
      (∀ fresh, p.addresses fresh = .ok [a, b, a]) ∧ (∀ fresh, p.node fresh = .ok a) ∧
      p.depth = 3 ∧ p.leader = some (ofAddresses [a, b]) := by
  intro a b p
  have first : a.Legible := ⟨by decide, by decide, by decide, by decide, by decide⟩
  have second : b.Legible := ⟨by decide, by decide, by decide, by decide, by decide⟩
  have legible : ∀ c ∈ [a, b, a], c.Legible := by
    simp only [List.forall_mem_cons]
    exact ⟨first, second, first, nofun⟩
  have text : ofAddresses [a, b, a] = p := by decide +kernel
  obtain ⟨built, parsed, addresses, node, depth, leader, -⟩ :=
    ofAddresses_decomposes (List.cons_ne_nil a [b, a]) legible
  rw [text] at built parsed addresses node depth leader
  exact ⟨legible, built, parsed, addresses, node, depth, leader⟩

end TreeCluster.NodePath
