import TreeCluster.Proofs.Tree.Rebuilt
import TreeCluster.Proofs.Tree.Reproducible

/-! # Replays that are repeated, or that break off

Who is in a tree keeps the place when an entry adds it again, so a log of additions that is replayed
once more changes nothing (`replay_of_members`): afterwards all that it names are members
(`Sound.member_replay`).

A replay breaks off at the first entry that adds or removes and whose path holds no address
(`ReplayEntry.Refused`), and leaves the tree as the entries before it made it
(`replay_of_refused`).  Whether there is such an entry decides whether the replay succeeds
(`snd_replay_eq_ok_iff`).  `replay_again_or_partly` says this of every tree that can be reached. -/

namespace TreeCluster

namespace ReplayEntry

variable {e : ReplayEntry} {cause : AddressError}

/-- The last segment of the path, if there is one, has the mark behind a name. -/
def Marked (e : ReplayEntry) : Prop :=
  ∀ segment ∈ e.path.segments.getLast?, '@' ∈ segment.toList

instance (e : ReplayEntry) : Decidable e.Marked :=
  inferInstanceAs (Decidable (∀ segment ∈ e.path.segments.getLast?, '@' ∈ segment.toList))

/-- The entry adds the address that is read from a last segment with a name. -/
def Joins (e : ReplayEntry) : Prop :=
  e.action = .add ∧ ∃ segment, e.path.segments.getLast? = some segment ∧ '@' ∈ segment.toList ∧
    ∃ form, AddressForm.parse segment = .ok form

/-- The entry adds or removes, but its path has no segment, or no address is read from the last
one. -/
def Refused (e : ReplayEntry) (cause : AddressError) : Prop :=
  e.action ≠ .clean ∧
    ((e.path.segments = [] ∧ cause = .emptyPath) ∨
      ∃ segment, e.path.segments.getLast? = some segment ∧
        AddressForm.parse segment = .error cause)

theorem refused_iff : e.Refused cause ↔ e.action ≠ .clean ∧ e.path.nodeForm = .error cause := by
  rw [Refused, NodePath.nodeForm, ← List.getLast?_eq_none_iff]
  cases e.path.segments.getLast? with
  | none => simp [eq_comm]
  | some segment => simp

theorem Marked.named (h : e.Marked) : e.Named := by
  intro form read
  rw [NodePath.nodeForm] at read
  cases last : e.path.segments.getLast? with
  | none =>
      rw [last] at read
      cases read
  | some segment =>
      rw [last] at read
      exact AddressForm.name_ne_none_of_parse read (h segment last)

theorem Joins.exists_address (h : e.Joins) :
    ∃ address : NodeAddress, e.path.nodeForm = .ok address.written := by
  obtain ⟨-, segment, last, mark, form, read⟩ := h
  obtain ⟨name, written⟩ :=
    Option.ne_none_iff_exists'.mp (AddressForm.name_ne_none_of_parse read mark)
  refine ⟨⟨name, form.host, form.port⟩, ?_⟩
  rw [NodePath.nodeForm, last, NodeAddress.written, ← written]
  exact read

end ReplayEntry

namespace Tree

open ReplayEntry

variable {fanOut : ℕ} {t : Tree} {fresh : ℕ → String} {e : ReplayEntry}
  {entries before after : List ReplayEntry} {cause : AddressError}

/-! ### Entries one after the other -/

/-- After entries that are all applied, others are replayed on what they made of the tree. -/
theorem replay_append (ok : (t.replay fresh before).2 = .ok ()) (after : List ReplayEntry) :
    t.replay fresh (before ++ after) =
      (t.replay fresh before).1.replay (fun k => fresh (k + before.length)) after := by
  induction before generalizing t fresh with
  | nil => rfl
  | cons e before ih =>
      rw [List.cons_append]
      cases applied : t.applyEntry (fresh 0) e with
      | error cause =>
          rw [replay, applied] at ok
          cases ok
      | ok u =>
          rw [replay_cons applied] at ok
          rw [replay_cons applied, replay_cons applied, ih ok]
          rfl

theorem replay_cons_of_refused (h : e.Refused cause) :
    t.replay fresh (e :: after) = (t, .error cause) := by
  obtain ⟨action, read⟩ := refused_iff.mp h
  have faulty : e.path.node (fresh 0) = .error cause := by rw [NodePath.node, read]; rfl
  have stops : t.applyEntry (fresh 0) e = .error cause := by
    rw [applyEntry]
    cases kind : e.action with
    | clean => exact absurd kind action
    | add => simp only [faulty]; rfl
    | remove => simp only [faulty]; rfl
  rw [replay, stops]

theorem snd_replay_eq_ok_iff :
    (t.replay fresh entries).2 = .ok () ↔ ∀ e ∈ entries, ∀ cause, ¬e.Refused cause := by
  rw [snd_replay]
  induction entries with
  | nil => exact iff_of_true rfl nofun
  | cons e entries ih =>
      rw [checkEntries, List.forall_mem_cons, ← ih]
      simp only [refused_iff]
      cases e.action with
      | clean => simp
      | add => cases e.path.nodeForm <;> simp
      | remove => cases e.path.nodeForm <;> simp

/-- A replay breaks off at the first entry that is refused, with its error. -/
theorem replay_of_refused (clear : ∀ e ∈ before, ∀ cause, ¬e.Refused cause)
    (refused : e.Refused cause) :
    t.replay fresh (before ++ e :: after) = ((t.replay fresh before).1, .error cause) := by
  rw [replay_append (snd_replay_eq_ok_iff.mpr clear), replay_cons_of_refused refused]

/-! ### Additions -/

theorem replay_cons_of_joins (h : e.Joins) {address : NodeAddress}
    (read : e.path.nodeForm = .ok address.written) :
    t.replay fresh (e :: after) = (t.add address).1.replay (fun k => fresh (k + 1)) after := by
  obtain ⟨action, path⟩ := e
  obtain rfl : action = .add := h.1
  exact replay_cons (applyEntry_add (node_of_written read _)) after

theorem replay_of_members (joins : ∀ e ∈ entries, e.Joins)
    (members : ∀ e ∈ entries, ∀ address : NodeAddress,
      e.path.nodeForm = .ok address.written → t.Member address) :
    t.replay fresh entries = (t, .ok ()) := by
  induction entries generalizing fresh with
  | nil => rfl
  | cons e entries ih =>
      obtain ⟨first, others⟩ := List.forall_mem_cons.mp joins
      obtain ⟨here, rest⟩ := List.forall_mem_cons.mp members
      obtain ⟨address, read⟩ := first.exists_address
      obtain ⟨path, found⟩ := Option.ne_none_iff_exists'.mp (here address read)
      rw [replay_cons_of_joins first read, add_of_present found]
      exact ih others rest

/-- After additions those that they name are members, and so are all that were. -/
theorem Sound.member_replay (h : t.Sound fanOut) (joins : ∀ e ∈ entries, e.Joins)
    {x : NodeAddress} (named : t.Member x ∨ ∃ e ∈ entries, e.path.nodeForm = .ok x.written) :
    (t.replay fresh entries).1.Member x := by
  induction entries generalizing t fresh with
  | nil =>
      rcases named with here | ⟨e, none, -⟩
      · exact here
      · cases none
  | cons e entries ih =>
      obtain ⟨first, others⟩ := List.forall_mem_cons.mp joins
      obtain ⟨address, read⟩ := first.exists_address
      rw [replay_cons_of_joins first read]
      refine ih (h.add address).2 others ?_
      rw [h.member_add]
      rcases named with here | ⟨e', inside, own⟩
      · exact .inl (.inr here)
      · rcases List.mem_cons.mp inside with rfl | later
        · rw [read, Except.ok.injEq, NodeAddress.written_inj] at own
          exact .inl (.inl own.symm)
        · exact .inr ⟨e', later, own⟩

theorem not_refused_of_joins (h : e.Joins) (cause : AddressError) : ¬e.Refused cause := by
  obtain ⟨address, read⟩ := h.exists_address
  rw [refused_iff, read]
  nofun

/-- **Replays that are repeated, or that break off.**  Take any tree that was built by some changes.

* Additions of addresses that are written with their names all succeed.  To replay them once more
  succeeds too and leaves the tree as it is: its members and their places, their weights, and what
  was added and removed last.
* Take entries none of which has a last segment without the mark of a name.  Their replay fails if
  and only if one that adds or removes has a path without a segment, or with a last segment that is
  no address.  It fails with the error of the first of these, and leaves the tree as the entries
  before it do, under whatever fresh names they are replayed.
* An entry that clears the tree is applied whatever its path is, and the others are then replayed
  with the names drawn for them. -/
theorem replay_again_or_partly (fanOut : ℕ) (ops : List Op) (fresh fresh' : ℕ → String) :
    let t := (withFanOut fanOut).run ops
    (∀ entries, (∀ e ∈ entries, e.Joins) →
      let once := t.replay fresh entries
      once.2 = .ok () ∧ once.1.replay fresh' entries = once ∧
        t.replay fresh (entries ++ entries) = once) ∧
    (∀ entries, (∀ e ∈ entries, e.Marked) →
      ((∃ cause, (t.replay fresh entries).2 = .error cause) ↔
        ∃ e ∈ entries, ∃ cause, e.Refused cause) ∧
      ∀ before e after cause, entries = before ++ e :: after →
        (∀ e' ∈ before, ∀ cause', ¬e'.Refused cause') → e.Refused cause →
          t.replay fresh entries = ((t.replay fresh' before).1, .error cause) ∧
            (t.replay fresh' before).2 = .ok ()) ∧
    ∀ path rest,
      t.replay fresh (⟨.clean, path⟩ :: rest) = t.clear.replay (fun k => fresh (k + 1)) rest := by
  intro t
  have sound : t.Sound (max fanOut 1) := ((sound_withFanOut fanOut).run ops).2
  refine ⟨fun entries joins => ?_, fun entries marked => ⟨?_, ?_⟩, fun path rest => rfl⟩
  · intro once
    have ok : once.2 = .ok () :=
      snd_replay_eq_ok_iff.mpr fun e inside => not_refused_of_joins (joins e inside)
    have members : ∀ e ∈ entries, ∀ address : NodeAddress,
        e.path.nodeForm = .ok address.written → once.1.Member address :=
      fun e inside address read => sound.member_replay joins (.inr ⟨e, inside, read⟩)
    have whole : once = (once.1, .ok ()) := Prod.ext rfl ok
    have again (names : ℕ → String) : once.1.replay names entries = once :=
      (replay_of_members joins members).trans whole.symm
    exact ⟨ok, again fresh', (replay_append ok entries).trans (again _)⟩
  · have outcome : (∃ cause, (t.replay fresh entries).2 = .error cause) ↔
        ¬(t.replay fresh entries).2 = .ok () := by
      cases (t.replay fresh entries).2 <;> simp
    rw [outcome, snd_replay_eq_ok_iff]
    push Not
    rfl
  · rintro before e after cause rfl clear refused
    have front : ∀ e ∈ before, e.action ≠ .clean → e.Named := fun e inside _ =>
      (marked e (List.mem_append_left _ inside)).named
    rw [replay_of_refused clear refused, replay_eq_of_named front t fresh fresh']
    exact ⟨rfl, snd_replay_eq_ok_iff.mpr clear⟩

/-- A member and a newcomer are added, the newcomer twice; and a log whose third entry has no port
that could be read, behind a clearing whose path is no address either. -/
theorem replay_again_or_partly_of_three_additions :
    let t := (withFanOut 1).run [.add ⟨"a", "h", 1⟩, .add ⟨"b", "h", 2⟩]
    let additions : List ReplayEntry :=
      [⟨.add, ⟨"c@h:3/b@h:2"⟩⟩, ⟨.add, ⟨"c@h:3"⟩⟩, ⟨.add, ⟨"c@h:3"⟩⟩]
    let before : List ReplayEntry := [⟨.clean, ⟨"@"⟩⟩, ⟨.add, ⟨"a@h:1/c@h:3"⟩⟩]
    let bad : ReplayEntry := ⟨.remove, ⟨"c@h:x"⟩⟩
    let log := before ++ bad :: [⟨.add, ⟨"//"⟩⟩]
    (∀ e ∈ additions, e.Joins) ∧ (∀ e ∈ log, e.Marked) ∧
      (∀ e ∈ before, ∀ cause, ¬e.Refused cause) ∧ bad.Refused (.invalidPort "c@h:x") ∧
      (t.replay toString additions).1.lastAdded = some ⟨"a@h:1/b@h:2/c@h:3"⟩ ∧
      (t.replay toString additions).1.replay toString additions = t.replay toString additions ∧
      t.replay toString log = ((t.replay toString before).1, .error (.invalidPort "c@h:x")) ∧
      (t.replay toString before).1.lastAdded = some ⟨"c@h:3"⟩ := by
  intro t additions before bad log
  have joins : ∀ e ∈ additions, e.Joins := by
    simp only [additions, List.forall_mem_cons]
    exact ⟨⟨rfl, "b@h:2", rfl, by decide, ⟨some "b", "h", 2⟩, rfl⟩,
      ⟨rfl, "c@h:3", rfl, by decide, ⟨some "c", "h", 3⟩, rfl⟩,
      ⟨rfl, "c@h:3", rfl, by decide, ⟨some "c", "h", 3⟩, rfl⟩, nofun⟩
  have marked : ∀ e ∈ log, e.Marked := by decide +kernel
  have clear : ∀ e ∈ before, ∀ cause, ¬e.Refused cause := by
    simp only [before, List.forall_mem_cons]
    exact ⟨fun cause refused => refused.1 rfl,
      not_refused_of_joins ⟨rfl, "c@h:3", rfl, by decide, ⟨some "c", "h", 3⟩, rfl⟩, nofun⟩
  have refused : bad.Refused (.invalidPort "c@h:x") :=
    refused_iff.mpr ⟨by decide, by decide +kernel⟩
  obtain ⟨again, partly, -⟩ :=
    replay_again_or_partly 1 [.add ⟨"a", "h", 1⟩, .add ⟨"b", "h", 2⟩] toString toString
  exact ⟨joins, marked, clear, refused, by decide +kernel, (again additions joins).2.1,
    ((partly log marked).2 before bad _ _ rfl clear refused).1, by decide +kernel⟩

end Tree
end TreeCluster
