import TreeCluster.Proofs.Tree.Members
import TreeCluster.Text.Hexadecimal

/-! # Replays under different fresh names

A replay draws a name for each entry and takes it for an address that is written without one.
Whether it succeeds, and where it fails, depends on the entries alone (`Tree.snd_replay`).

The tree that it builds depends on the names drawn too, but not if every entry has a name
(`ReplayEntry.Named`): such a log is replayed to the same tree whatever the fresh names are
(`ofReplay_reproducible`).  An entry without a name brings in a member that the log does not know of
(`exists_invented_name`). -/

namespace TreeCluster

/-- The address in the last segment of the path is not one without a name. -/
def ReplayEntry.Named (e : ReplayEntry) : Prop :=
  ∀ form, e.path.nodeForm = .ok form → form.name ≠ none

namespace Tree

variable {e : ReplayEntry} {entries : List ReplayEntry}

/-- The first cause for which one of the entries cannot be applied. -/
def checkEntries : List ReplayEntry → Except AddressError Unit
  | [] => .ok ()
  | e :: rest =>
    match e.action, e.path.nodeForm with
    | .clean, _ => checkEntries rest
    | _, .error cause => .error cause
    | _, .ok _ => checkEntries rest

/-- Whether a replay succeeds, and with which error it fails, is seen from the entries. -/
theorem snd_replay (t : Tree) (fresh : ℕ → String) (entries : List ReplayEntry) :
    (t.replay fresh entries).2 = checkEntries entries := by
  induction entries generalizing t fresh with
  | nil => rfl
  | cons e rest ih =>
      unfold replay checkEntries applyEntry NodePath.node
      cases e.action with
      | clean => exact ih _ _
      | add =>
          cases e.path.nodeForm with
          | error cause => rfl
          | ok form => exact ih _ _
      | remove =>
          cases e.path.nodeForm with
          | error cause => rfl
          | ok form => exact ih _ _

theorem node_eq_of_named (named : e.Named) (fresh fresh' : String) :
    e.path.node fresh = e.path.node fresh' := by
  rw [NodePath.node, NodePath.node]
  cases read : e.path.nodeForm with
  | error cause => rfl
  | ok form =>
      obtain ⟨name, written⟩ := Option.ne_none_iff_exists'.mp (named form read)
      simp only [Except.map, AddressForm.resolve, written, Option.getD_some]

theorem applyEntry_eq_of_named (named : e.action ≠ .clean → e.Named) (t : Tree)
    (fresh fresh' : String) : t.applyEntry fresh e = t.applyEntry fresh' e := by
  unfold applyEntry
  cases action : e.action with
  | clean => rfl
  | add => simp only [node_eq_of_named (named (by simp [action])) fresh fresh']
  | remove => simp only [node_eq_of_named (named (by simp [action])) fresh fresh']

theorem replay_eq_of_named (named : ∀ e ∈ entries, e.action ≠ .clean → e.Named) (t : Tree)
    (fresh fresh' : ℕ → String) : t.replay fresh entries = t.replay fresh' entries := by
  induction entries generalizing t fresh fresh' with
  | nil => rfl
  | cons e rest ih =>
      obtain ⟨first, others⟩ := List.forall_mem_cons.mp named
      unfold replay
      rw [applyEntry_eq_of_named first t (fresh 0) (fresh' 0)]
      cases t.applyEntry (fresh' 0) e with
      | error cause => rfl
      | ok u => exact ih others u _ _

/-- **What a replay depends on.**  Whatever the fan-out and the entries are, a replay succeeds or
fails for the same cause under all fresh names.  If every entry that adds or removes has a name,
unless its path holds no address at all, the rebuilt tree is the same too. -/
theorem ofReplay_reproducible (fanOut : ℕ) (entries : List ReplayEntry) (fresh fresh' : ℕ → String) :
    (ofReplay fanOut fresh entries).map (fun _ => ()) =
        (ofReplay fanOut fresh' entries).map (fun _ => ()) ∧
      ((∀ e ∈ entries, e.action ≠ .clean → e.Named) →
        ofReplay fanOut fresh entries = ofReplay fanOut fresh' entries) := by
  have outcome (names : ℕ → String) :
      (ofReplay fanOut names entries).map (fun _ => ()) = checkEntries entries := by
    rw [← snd_replay (withFanOut fanOut) names entries, ofReplay]
    generalize (withFanOut fanOut).replay names entries = result
    obtain ⟨u, cause | ⟨⟩⟩ := result <;> rfl
  refine ⟨(outcome fresh).trans (outcome fresh').symm, fun named => ?_⟩
  rw [ofReplay, ofReplay, replay_eq_of_named named (withFanOut fanOut) fresh fresh']

/-- A log whose entries have names, the last of them no address. -/
theorem ofReplay_reproducible_of_four_entries :
    let entries : List ReplayEntry := [⟨.add, ⟨"a@h:1"⟩⟩, ⟨.clean, ⟨"h:1"⟩⟩,
      ⟨.remove, ⟨"x@h:1/a@h:1"⟩⟩, ⟨.add, ⟨"a@h"⟩⟩]
    (∀ e ∈ entries, e.action ≠ .clean → e.Named) ∧
      ofReplay 1 (Text.Hexadecimal.padded 8) entries = ofReplay 1 toString entries := by
  intro entries
  have named : ∀ e ∈ entries, e.action ≠ .clean → e.Named := by
    intro e he action form read
    simp only [entries, List.mem_cons, List.not_mem_nil, or_false] at he
    rcases he with rfl | rfl | rfl | rfl
    · have first : (NodePath.mk "a@h:1").nodeForm = .ok ⟨some "a", "h", 1⟩ := rfl
      obtain rfl := Except.ok.inj (first.symm.trans read)
      nofun
    · exact absurd rfl action
    · have last : (NodePath.mk "x@h:1/a@h:1").nodeForm = .ok ⟨some "a", "h", 1⟩ := rfl
      obtain rfl := Except.ok.inj (last.symm.trans read)
      nofun
    · have broken : (NodePath.mk "a@h").nodeForm = .error (.malformedSegment "a@h") := rfl
      cases broken.symm.trans read
  exact ⟨named, (ofReplay_reproducible 1 entries _ _).2 named⟩

/-- An entry without a name adds a member under the fresh one. -/
theorem exists_invented_name :
    let entries : List ReplayEntry := [⟨.add, ⟨"h:1"⟩⟩]
    let names := Text.Hexadecimal.padded 8
    let others := fun k => Text.Hexadecimal.padded 8 (k + 1)
    ∃ t u, ofReplay 5 names entries = .ok t ∧ ofReplay 5 others entries = .ok u ∧
      t.search ⟨"00000000", "h", 1⟩ = some ⟨"00000000@h:1"⟩ ∧
      u.search ⟨"00000000", "h", 1⟩ = none := by
  intro entries names others
  refine ⟨_, _, rfl, rfl, ?_, ?_⟩
  · decide +kernel
  · decide +kernel

end Tree
end TreeCluster
