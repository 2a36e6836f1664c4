import TreeCluster.Proofs.Address.Legible
import TreeCluster.Proofs.Tree.Members

/-! # Trees rebuilt from the log of their run

A run leaves a log behind: the path of each address that is added, the path of each member that is
to be removed, and a mark for each clearing (`Tree.Recorded`).  The path of a member ends with its
address, and if the members are legible (`Tree.Legible`) it is read back from there
(`Sound.nodeForm_of_search`).  So every entry does again what the run did, and the log rebuilds the
tree (`ofReplay_recorded`). -/

namespace TreeCluster.Tree

variable {fanOut : ℕ} {t : Tree}

/-! ### Legible members -/

/-- Every member can be read back from its text. -/
def Legible (t : Tree) : Prop :=
  ∀ address slot, t.arena.slotOf address = some slot → address.Legible

theorem legible_withFanOut (fanOut : ℕ) : (withFanOut fanOut).Legible := nofun

theorem Legible.clear (t : Tree) : t.clear.Legible := nofun

theorem Legible.add (h : t.Legible) {address : NodeAddress} (new : address.Legible) :
    (t.add address).1.Legible := by
  unfold Tree.add
  cases hs : t.arena.slotOf address with
  | some slot => exact h
  | none =>
      intro other slot ho
      rw [Arena.slotOf, Arena.insert_index, Table.get?_insert] at ho
      split at ho
      · next same => exact same ▸ new
      · exact h other slot ho

theorem Legible.remove (h : t.Legible) (address : NodeAddress) : (t.remove address).1.Legible := by
  unfold Tree.remove
  cases t.arena.slotOf address with
  | none => exact h
  | some slot =>
      cases hm : t.arena.member? slot with
      | none => simp only [hm]; exact h
      | some m =>
          by_cases leaf : m.children = []
          · simp only [hm, leaf, ne_eq, not_true, if_false]
            intro other place ho
            rw [Arena.slotOf_detach] at ho
            split at ho
            · cases ho
            · exact h other place ho
          · simp only [hm, ne_eq, leaf, not_false_eq_true, if_true]
            exact h

/-! ### Paths read back -/

theorem Sound.legible_ancestry (h : t.Sound fanOut) (legible : t.Legible) {slot : ℕ}
    {address : NodeAddress} (inside : address ∈ t.arena.ancestry slot) : address.Legible := by
  obtain ⟨s, m, hm, rfl⟩ := Arena.exists_of_mem_chainFrom (List.mem_reverse.mp inside)
  exact legible m.address s ((h.arena.slotOf_iff m.address s).mpr ⟨m, hm, rfl⟩)

/-- The path of a member is read back as its address. -/
theorem Sound.nodeForm_of_search (h : t.Sound fanOut) (legible : t.Legible)
    {address : NodeAddress} {path : NodePath} (hp : t.search address = some path) :
    path.nodeForm = .ok address.written := by
  obtain ⟨slot, hs, rfl⟩ := Option.map_eq_some_iff.mp hp
  obtain ⟨m, hm, rfl⟩ := h.exists_of_slotOf hs
  obtain ⟨above, line⟩ := Arena.exists_ancestry_eq hm
  rw [pathOf, line]
  apply NodePath.nodeForm_ofAddresses
  intro b hb
  exact h.legible_ancestry legible (line ▸ hb)

theorem node_of_written {path : NodePath} {address : NodeAddress}
    (read : path.nodeForm = .ok address.written) (fresh : String) :
    path.node fresh = .ok address := by
  rw [NodePath.node, read]
  rfl

theorem Sound.node_of_search (h : t.Sound fanOut) (legible : t.Legible) {address : NodeAddress}
    {path : NodePath} (hp : t.search address = some path) (fresh : String) :
    path.node fresh = .ok address :=
  node_of_written (h.nodeForm_of_search legible hp) fresh

/-! ### Logs of a run -/

/-- The entries that a run leaves behind: for each new address the path that it was given, for
each address to be removed its path before, if it has one, and a mark for each clearing.  A
removal that is refused may be left out. -/
inductive Recorded : Tree → List Op → List ReplayEntry → Prop
  | done {t : Tree} : Recorded t [] []
  | add {t : Tree} {address : NodeAddress} {path : NodePath} {ops : List Op}
      {log : List ReplayEntry} :
      (t.add address).2 = path → Recorded (t.add address).1 ops log →
        Recorded t (.add address :: ops) (⟨.add, path⟩ :: log)
  | remove {t : Tree} {address : NodeAddress} {path : NodePath} {ops : List Op}
      {log : List ReplayEntry} :
      t.search address = some path → Recorded (t.remove address).1 ops log →
        Recorded t (.remove address :: ops) (⟨.remove, path⟩ :: log)
  | refused {t : Tree} {address : NodeAddress} {ops : List Op} {log : List ReplayEntry} :
      (t.remove address).2 = false → Recorded t ops log →
        Recorded t (.remove address :: ops) log
  | clear {t : Tree} {path : NodePath} {ops : List Op} {log : List ReplayEntry} :
      Recorded t.clear ops log → Recorded t (.clear :: ops) (⟨.clean, path⟩ :: log)

/-- Each entry of kind `add` gives its address the path that it names. -/
def LandsAsRecorded (t : Tree) (fresh : ℕ → String) : List ReplayEntry → Prop
  | [] => True
  | e :: rest =>
    (e.action = .add →
      ∃ address, e.path.node (fresh 0) = .ok address ∧ (t.add address).2 = e.path) ∧
      ∀ t', t.applyEntry (fresh 0) e = .ok t' → t'.LandsAsRecorded (fun k => fresh (k + 1)) rest

theorem Recorded.replay_eq {t : Tree} {ops : List Op} {log : List ReplayEntry}
    (recorded : Recorded t ops log) (h : t.Sound fanOut) (legible : t.Legible)
    (new : ∀ address, .add address ∈ ops → address.Legible) (fresh : ℕ → String) :
    t.replay fresh log = (t.run ops, .ok ()) ∧ t.LandsAsRecorded fresh log := by
  induction recorded generalizing fresh with
  | done => exact ⟨rfl, trivial⟩
  | @add t address path ops log placed _ ih =>
      have mine : address.Legible := new address List.mem_cons_self
      have sound := (h.add address).2
      have found : (t.add address).1.search address = some path := placed ▸ search_add t address
      have read := sound.node_of_search (legible.add mine) found (fresh 0)
      have applied := applyEntry_add (t := t) read
      obtain ⟨rest, lands⟩ := ih sound (legible.add mine)
        (fun a ha => new a (List.mem_cons_of_mem _ ha)) fun k => fresh (k + 1)
      refine ⟨?_, fun _ => ⟨address, read, placed⟩, fun t' ht => ?_⟩
      · rw [replay_cons applied]
        exact rest
      · obtain rfl := Except.ok.inj (applied.symm.trans ht)
        exact lands
  | @remove t address path ops log hp _ ih =>
      have read := h.node_of_search legible hp (fresh 0)
      have applied := applyEntry_remove (t := t) read
      obtain ⟨rest, lands⟩ := ih (h.remove address).2 (legible.remove address)
        (fun a ha => new a (List.mem_cons_of_mem _ ha)) fun k => fresh (k + 1)
      refine ⟨?_, fun added => ?_, fun t' ht => ?_⟩
      · rw [replay_cons applied]
        exact rest
      · cases added
      · obtain rfl := Except.ok.inj (applied.symm.trans ht)
        exact lands
  | @refused t address ops log no _ ih =>
      have same : t.run (.remove address :: ops) = t.run ops :=
        congrArg (run · ops) (fst_remove_of_refused no)
      rw [same]
      exact ih h legible (fun a ha => new a (List.mem_cons_of_mem _ ha)) fresh
  | @clear t path ops log _ ih =>
      obtain ⟨rest, lands⟩ := ih h.clear (Legible.clear t)
        (fun a ha => new a (List.mem_cons_of_mem _ ha)) fun k => fresh (k + 1)
      refine ⟨rest, fun added => ?_, fun t' ht => ?_⟩
      · cases added
      · obtain rfl := Except.ok.inj ht
        exact lands

/-- **A recorded tree is rebuilt**: the log of every run of additions, removals and clearings, in
which the added addresses are legible, is replayed with the same fan-out to the tree of the run,
all of it the same, and every addition lands on the path that was recorded for it. -/
theorem ofReplay_recorded {fanOut : ℕ} {ops : List Op} {log : List ReplayEntry}
    (recorded : Recorded (withFanOut fanOut) ops log)
    (legible : ∀ address, .add address ∈ ops → address.Legible) (fresh : ℕ → String) :
    ofReplay fanOut fresh log = .ok ((withFanOut fanOut).run ops) ∧
      (withFanOut fanOut).LandsAsRecorded fresh log := by
  obtain ⟨replayed, lands⟩ := recorded.replay_eq (sound_withFanOut fanOut)
    (legible_withFanOut fanOut) legible fresh
  refine ⟨?_, lands⟩
  rw [ofReplay, replayed]

/-- A run with a refused removal and a clearing, and its log. -/
theorem ofReplay_recorded_of_five_entries :
    let ops : List Op := [.add ⟨"a", "h", 1⟩, .add ⟨"b", "h", 2⟩, .remove ⟨"a", "h", 1⟩, .clear,
      .add ⟨"b", "h", 2⟩]
    let log : List ReplayEntry := [⟨.add, ⟨"a@h:1"⟩⟩, ⟨.add, ⟨"a@h:1/b@h:2"⟩⟩,
      ⟨.remove, ⟨"a@h:1"⟩⟩, ⟨.clean, ⟨""⟩⟩, ⟨.add, ⟨"b@h:2"⟩⟩]
    Recorded (withFanOut 1) ops log ∧ (∀ address, .add address ∈ ops → address.Legible) ∧
      ofReplay 1 toString log = .ok ((withFanOut 1).run ops) ∧
        (withFanOut 1).LandsAsRecorded toString log := by
  intro ops log
  have recorded : Recorded (withFanOut 1) ops log :=
    .add (by cbv) <| .add (by cbv) <| .remove (by cbv) <| .clear <| .add (by cbv) .done
  have legible : ∀ address, .add address ∈ ops → address.Legible := by
    intro address h
    simp [ops] at h
    rcases h with rfl | rfl | rfl <;> exact ⟨by decide, by decide, by decide, by decide, by decide⟩
  exact ⟨recorded, legible, ofReplay_recorded recorded legible toString⟩

end TreeCluster.Tree
