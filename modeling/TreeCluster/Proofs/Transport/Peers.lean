import Mathlib
import TreeCluster.Transport.PeerSet

/-! # The history of a peer set

No peer is listed twice, and every listed peer is one of those that were added (`PeerSet.Tidy`).

Which peers are current, which are stale and which a take hands out can be read off the changes that
were made.  A peer is current since a change that added it, and stale since a change that moved it
there (`PeerSet.Since`).  For anything that some changes begin and others end, to know what a single
change does to it is to know since when it holds (`Follows.run_iff`), and a single change does little
(`mem_current_after`, `mem_stale_after`).  `PeerSet.history_of_run` puts this together. -/

namespace TreeCluster
namespace PeerSet

variable {s s' : PeerSet} {added : List NodeAddress}

/-- No peer is listed twice, and every listed peer is one of those that were added. -/
structure Tidy (added : List NodeAddress) (s : PeerSet) : Prop where
  nodup : (s.current ++ s.stale).Nodup
  known : s.current ++ s.stale ⊆ added

theorem Tidy.of_subperm (h : s.Tidy added)
    (fewer : (s'.current ++ s'.stale).Subperm (s.current ++ s.stale)) : s'.Tidy added := by
  refine ⟨?_, fun peer listed => h.known (fewer.subset listed)⟩
  obtain ⟨l, same, part⟩ := fewer
  exact same.nodup_iff.mp (h.nodup.sublist part)

theorem Tidy.add (h : s.Tidy added) {peer : NodeAddress} (known : peer ∈ added) :
    (s.add peer).1.Tidy added := by
  have fewer : (s.current ++ s.stale.filter (· ≠ peer)).Sublist (s.current ++ s.stale) :=
    List.filter_sublist.append_left _
  unfold PeerSet.add
  dsimp only
  split_ifs with listed
  · exact h.of_subperm fewer.subperm
  · have moved : (s.current ++ [peer] ++ s.stale.filter (· ≠ peer)).Perm
        (peer :: (s.current ++ s.stale.filter (· ≠ peer))) := by
      rw [List.append_assoc]
      exact List.perm_middle
    have new : peer ∉ s.current ++ s.stale.filter (· ≠ peer) := by
      simpa [isCurrent] using listed
    refine ⟨moved.nodup_iff.mpr (List.nodup_cons.mpr ⟨new, h.nodup.sublist fewer⟩), ?_⟩
    intro other inside
    rcases List.mem_cons.mp (moved.subset inside) with rfl | before
    · exact known
    · exact h.known (fewer.subset before)

theorem Tidy.markStale (h : s.Tidy added) (peer : NodeAddress) :
    (s.markStale peer).1.Tidy added := by
  unfold PeerSet.markStale
  split_ifs with listed
  · have inside : peer ∈ s.current := by simpa [isCurrent] using listed
    have moved : (s.current.erase peer ++ (s.stale ++ [peer])).Perm (s.current ++ s.stale) := by
      rw [← List.append_assoc]
      exact (List.perm_append_singleton _ _).trans
        ((List.perm_cons_erase inside).symm.append_right s.stale)
    exact h.of_subperm moved.subperm
  · exact h

theorem Tidy.markAllStale (h : s.Tidy added) : s.markAllStale.Tidy added := by
  have moved : (s.stale ++ s.current).Perm (s.current ++ s.stale) := List.perm_append_comm
  exact h.of_subperm moved.subperm

theorem Tidy.takeStale (h : s.Tidy added) : s.takeStale.1.Tidy added :=
  h.of_subperm ((List.nil_sublist s.stale).append_left s.current).subperm

theorem Tidy.clear (h : s.Tidy added) : s.clear.Tidy added :=
  h.of_subperm (List.nil_sublist _).subperm

/-! ### Changes -/

/-- A change to a peer set. -/
inductive Change
  | add (peer : NodeAddress)
  | markStale (peer : NodeAddress)
  | markAllStale
  | takeStale
  | clear
  deriving DecidableEq

/-- The peers after a change. -/
def after (s : PeerSet) : Change → PeerSet
  | .add peer => (s.add peer).1
  | .markStale peer => (s.markStale peer).1
  | .markAllStale => s.markAllStale
  | .takeStale => s.takeStale.1
  | .clear => s.clear

/-- The peers after some changes, when there are none at first. -/
def run (changes : List Change) : PeerSet :=
  changes.foldl after empty

/-- The peers that the change at a position hands out. -/
def handed (changes : List Change) (t : ℕ) : List NodeAddress :=
  match changes[t]? with
  | some .takeStale => (run (changes.take t)).takeStale.2
  | _ => []

namespace Change

variable (change : Change) (peer : NodeAddress)

/-- The change marks a peer stale. -/
def Marks : Prop :=
  change = .markStale peer ∨ change = .markAllStale

/-- The change takes a peer off the current ones. -/
def Drops : Prop :=
  change.Marks peer ∨ change = .clear

/-- The change takes a peer off the stale ones: it is added again, taken or cleared. -/
def Settles : Prop :=
  change = .add peer ∨ change = .takeStale ∨ change = .clear

end Change

variable {changes : List Change} {change : Change} {peer : NodeAddress} {n t n' t' : ℕ}

theorem run_concat : run (changes ++ [change]) = (run changes).after change := by
  simp [run]

theorem Tidy.after (h : s.Tidy added) (known : ∀ peer, change = .add peer → peer ∈ added) :
    (s.after change).Tidy added := by
  cases change with
  | add peer => exact h.add (known peer rfl)
  | markStale peer => exact h.markStale peer
  | markAllStale => exact h.markAllStale
  | takeStale => exact h.takeStale
  | clear => exact h.clear

theorem tidy_run (known : ∀ peer, .add peer ∈ changes → peer ∈ added) :
    (run changes).Tidy added := by
  induction changes using List.reverseRecOn with
  | nil => exact ⟨List.nodup_nil, nofun⟩
  | append_singleton changes change ih =>
      rw [run_concat]
      refine (ih fun peer early => known peer (List.mem_append_left _ early)).after ?_
      rintro peer rfl
      exact known peer List.mem_concat_self

/-- The peers that some changes add. -/
def adds (changes : List Change) : List NodeAddress :=
  changes.filterMap fun
    | .add peer => some peer
    | _ => none

theorem tidy_adds (changes : List Change) : (run changes).Tidy (adds changes) :=
  tidy_run fun _ inside => List.mem_filterMap.mpr ⟨_, inside, rfl⟩

theorem disjoint_run (current : peer ∈ (run changes).current) : peer ∉ (run changes).stale :=
  List.disjoint_of_nodup_append (tidy_adds changes).nodup current

/-! ### What one change does -/

theorem mem_current_add {other : NodeAddress} :
    peer ∈ (s.add other).1.current ↔ other = peer ∨ peer ∈ s.current := by
  by_cases listed : other ∈ s.current
  · have same : other = peer → peer ∈ s.current := fun same => same ▸ listed
    simpa [add, isCurrent, listed] using same
  · simp [add, isCurrent, listed, or_comm, eq_comm]

theorem mem_stale_add {other : NodeAddress} :
    peer ∈ (s.add other).1.stale ↔ peer ∈ s.stale ∧ other ≠ peer := by
  by_cases listed : other ∈ s.current <;> simp [add, isCurrent, listed, ne_comm (a := peer)]

theorem mem_current_markStale (h : s.current.Nodup) {other : NodeAddress} :
    peer ∈ (s.markStale other).1.current ↔ peer ∈ s.current ∧ other ≠ peer := by
  by_cases listed : other ∈ s.current
  · -- without repetition, to erase a peer once leaves none of it
    simp [markStale, isCurrent, listed, h.mem_erase_iff, and_comm, eq_comm]
  · have apart : peer ∈ s.current → other ≠ peer := fun inside same => listed (same ▸ inside)
    simpa [markStale, isCurrent, listed] using apart

theorem mem_stale_markStale {other : NodeAddress} :
    peer ∈ (s.markStale other).1.stale ↔ peer ∈ s.stale ∨ (peer ∈ s.current ∧ other = peer) := by
  by_cases listed : other ∈ s.current
  · have same : peer = other ↔ peer ∈ s.current ∧ other = peer :=
      ⟨fun same => ⟨same ▸ listed, same.symm⟩, fun found => found.2.symm⟩
    simp only [markStale, isCurrent, List.contains_eq_mem, listed, decide_true, if_true,
      List.mem_append, List.mem_singleton, same]
  · have never : ¬(peer ∈ s.current ∧ other = peer) := fun found => listed (found.2 ▸ found.1)
    simp only [markStale, isCurrent, List.contains_eq_mem, listed, decide_false, never, or_false,
      Bool.false_eq_true, if_false]

theorem mem_current_after (h : s.current.Nodup) :
    peer ∈ (s.after change).current ↔
      (peer ∈ s.current ∧ ¬change.Drops peer) ∨ change = .add peer := by
  cases change with
  | add other => simp [after, mem_current_add, Change.Drops, Change.Marks, or_comm]
  | markStale other => simp [after, mem_current_markStale h, Change.Drops, Change.Marks]
  | markAllStale => simp [after, markAllStale, Change.Drops, Change.Marks]
  | takeStale => simp [after, takeStale, Change.Drops, Change.Marks]
  | clear => simp [after, clear, empty, Change.Drops]

theorem mem_stale_after :
    peer ∈ (s.after change).stale ↔
      (peer ∈ s.stale ∧ ¬change.Settles peer) ∨ (peer ∈ s.current ∧ change.Marks peer) := by
  cases change with
  | add other => simp [after, mem_stale_add, Change.Settles, Change.Marks]
  | markStale other => simp [after, mem_stale_markStale, Change.Settles, Change.Marks]
  | markAllStale => simp [after, markAllStale, Change.Settles, Change.Marks]
  | takeStale => simp [after, takeStale, Change.Settles, Change.Marks]
  | clear => simp [after, clear, empty, Change.Settles, Change.Marks]

/-- A change keeps the order of the current peers, and a peer that was not current comes last. -/
theorem current_after (s : PeerSet) (change : Change) :
    (s.after change).current.Sublist s.current ∨
    ∃ peer, change = .add peer ∧ peer ∉ s.current ∧
      (s.after change).current = s.current ++ [peer] := by
  cases change with
  | add peer => by_cases listed : peer ∈ s.current <;> simp [after, add, isCurrent, listed]
  | markStale peer =>
      refine .inl ?_
      change (s.markStale peer).1.current.Sublist s.current
      unfold markStale
      split_ifs
      · exact List.erase_sublist
      · exact List.Sublist.refl _
  | markAllStale => exact .inl (List.nil_sublist _)
  | takeStale => exact .inl (List.Sublist.refl _)
  | clear => exact .inl (List.nil_sublist _)

/-! ### What lasts -/

variable {begins : PeerSet → Change → Prop} {ends : Change → Prop}

/-- The change at a position began something, and no later one has ended it. -/
structure Since (begins : PeerSet → Change → Prop) (ends : Change → Prop) (changes : List Change)
    (n : ℕ) : Prop where
  began : ∃ change ∈ changes[n]?, begins (run (changes.take n)) change
  lasts : ∀ change ∈ changes.drop (n + 1), ¬ends change

theorem Since.lt_length (h : Since begins ends changes n) : n < changes.length := by
  obtain ⟨change, here, -⟩ := h.began
  exact (List.getElem?_eq_some_iff.mp here).1

theorem since_concat_of_lt (early : n < changes.length) :
    Since begins ends (changes ++ [change]) n ↔ Since begins ends changes n ∧ ¬ends change := by
  have here : (changes ++ [change])[n]? = changes[n]? := List.getElem?_append_left early
  have before : (changes ++ [change]).take n = changes.take n :=
    List.take_append_of_le_length early.le
  have later : (changes ++ [change]).drop (n + 1) = changes.drop (n + 1) ++ [change] :=
    List.drop_append_of_le_length early
  constructor
  · rintro ⟨began, lasts⟩
    rw [here, before] at began
    rw [later] at lasts
    exact ⟨⟨began, fun c inside => lasts c (List.mem_append_left _ inside)⟩,
      lasts change List.mem_concat_self⟩
  · rintro ⟨⟨began, lasts⟩, goes_on⟩
    refine ⟨by rwa [here, before], ?_⟩
    rw [later]
    simpa [or_imp, forall_and] using And.intro lasts goes_on

theorem since_concat_length :
    Since begins ends (changes ++ [change]) changes.length ↔ begins (run changes) change := by
  constructor
  · rintro ⟨⟨c, here, began⟩, -⟩
    obtain rfl : change = c := by simpa using here
    simpa using began
  · exact fun began => ⟨⟨change, by simp, by simpa using began⟩, by simp⟩

theorem since_concat :
    Since begins ends (changes ++ [change]) n ↔
      (Since begins ends changes n ∧ ¬ends change) ∨
      (n = changes.length ∧ begins (run changes) change) := by
  rcases lt_trichotomy n changes.length with early | rfl | late
  · simp [since_concat_of_lt early, early.ne]
  · have none : ¬Since begins ends changes changes.length := fun h => lt_irrefl _ h.lt_length
    simp [since_concat_length, none]
  · have none : ¬Since begins ends changes n := fun h => late.not_gt h.lt_length
    have none' : ¬Since begins ends (changes ++ [change]) n := fun h => by
      have := h.lt_length
      rw [List.length_append, List.length_singleton] at this
      omega
    simp [none, none', late.ne']

/-- What some change began lasts, or there is a first change that ended it. -/
theorem since_or_ended (began : ∃ change ∈ changes[n]?, begins (run (changes.take n)) change) :
    Since begins ends changes n ∨
      ∃ t, Since begins ends (changes.take t) n ∧ ∃ change ∈ changes[t]?, ends change := by
  induction changes using List.reverseRecOn with
  | nil =>
      obtain ⟨_, here, -⟩ := began
      cases here
  | append_singleton changes change ih =>
      have lt : n < (changes ++ [change]).length := by
        obtain ⟨_, here, -⟩ := began
        exact (List.getElem?_eq_some_iff.mp here).1
      rw [List.length_append, List.length_singleton] at lt
      rcases Nat.eq_or_lt_of_le (Nat.le_of_lt_succ lt) with rfl | early
      · obtain ⟨c, here, begun⟩ := began
        obtain rfl : change = c := by simpa using here
        exact .inl (since_concat_length.mpr (by simpa using begun))
      · rw [List.getElem?_append_left early, List.take_append_of_le_length early.le] at began
        rcases ih began with lasts | ⟨t, lasts, c, here, ended⟩
        · by_cases ended : ends change
          · exact .inr ⟨changes.length, by simpa using lasts, change, by simp, ended⟩
          · exact .inl ((since_concat_of_lt early).mpr ⟨lasts, ended⟩)
        · have inside : t < changes.length := (List.getElem?_eq_some_iff.mp here).1
          refine .inr ⟨t, ?_, c, ?_, ended⟩
          · rwa [List.take_append_of_le_length inside.le]
          · rwa [List.getElem?_append_left inside]

/-- What holds of a peer set begins with some changes and ends with others, and nothing begins that
holds already unless it ends as well. -/
structure Follows (holds : PeerSet → Prop) (begins : PeerSet → Change → Prop)
    (ends : Change → Prop) : Prop where
  start : ¬holds empty
  step : ∀ changes change, holds ((run changes).after change) ↔
    (holds (run changes) ∧ ¬ends change) ∨ begins (run changes) change
  fresh : ∀ changes change, holds (run changes) → begins (run changes) change → ends change

variable {holds : PeerSet → Prop}

/-- What holds after some changes holds since one of them. -/
theorem Follows.run_iff (h : Follows holds begins ends) (changes : List Change) :
    holds (run changes) ↔ ∃ n, Since begins ends changes n := by
  induction changes using List.reverseRecOn with
  | nil => exact iff_of_false h.start fun ⟨n, since⟩ => absurd since.lt_length (Nat.not_lt_zero n)
  | append_singleton changes change ih =>
      rw [run_concat, h.step, ih]
      simp only [since_concat, exists_or, exists_and_right, exists_eq, true_and]

theorem Follows.unique (h : Follows holds begins ends) (since : Since begins ends changes n)
    (since' : Since begins ends changes n') : n = n' := by
  induction changes using List.reverseRecOn with
  | nil => exact absurd since.lt_length (Nat.not_lt_zero n)
  | append_singleton changes change ih =>
      rcases since_concat.mp since with ⟨old, lasts⟩ | ⟨rfl, new⟩ <;>
        rcases since_concat.mp since' with ⟨old', lasts'⟩ | ⟨rfl, new'⟩
      · exact ih old old'
      -- what one change began would hold already when another begins it, and so it would end
      · exact absurd (h.fresh _ _ ((h.run_iff changes).mpr ⟨n, old⟩) new') lasts
      · exact absurd (h.fresh _ _ ((h.run_iff changes).mpr ⟨n', old'⟩) new) lasts'
      · rfl

/-! ### Current, stale and taken peers -/

/-- At a position a peer was added for the last time, and it was neither marked stale nor cleared
since then. -/
def Added (peer : NodeAddress) : List Change → ℕ → Prop :=
  Since (fun _ change => change = .add peer) fun change => change = .add peer ∨ change.Drops peer

/-- At a position a peer became current, and it was neither marked stale nor cleared since then. -/
def Entered (peer : NodeAddress) : List Change → ℕ → Prop :=
  Since (fun s change => change = .add peer ∧ peer ∉ s.current) (·.Drops peer)

/-- At a position a mark moves a peer out of the current ones. -/
def Leaves (peer : NodeAddress) (changes : List Change) (n : ℕ) : Prop :=
  ∃ change ∈ changes[n]?, peer ∈ (run (changes.take n)).current ∧ change.Marks peer

/-- At a position a mark moved a peer out of the current ones, and it was neither added, taken nor
cleared since then. -/
def Moved (peer : NodeAddress) : List Change → ℕ → Prop :=
  Since (fun s change => peer ∈ s.current ∧ change.Marks peer) (·.Settles peer)

/-- At the position `n` a mark moved a peer out of the current ones, and the first change since then
that adds, takes or clears it is a take, at `t`. -/
def Taken (peer : NodeAddress) (changes : List Change) (n t : ℕ) : Prop :=
  changes[t]? = some .takeStale ∧ Moved peer (changes.take t) n

/-- At the position `n` a mark moved a peer out of the current ones, and the first change since then
that adds, takes or clears it is no take. -/
def Undone (peer : NodeAddress) (changes : List Change) (n : ℕ) : Prop :=
  ∃ t, (changes[t]? = some (.add peer) ∨ changes[t]? = some .clear) ∧
    Moved peer (changes.take t) n

theorem nodup_current (changes : List Change) : (run changes).current.Nodup :=
  (tidy_adds changes).nodup.of_append_left

theorem follows_added (peer : NodeAddress) :
    Follows (fun s => peer ∈ s.current) (fun _ change => change = .add peer)
      fun change => change = .add peer ∨ change.Drops peer where
  start := List.not_mem_nil
  step changes change := by
    rw [mem_current_after (nodup_current changes)]
    tauto
  fresh _ _ _ added := .inl added

theorem follows_entered (peer : NodeAddress) :
    Follows (fun s => peer ∈ s.current) (fun s change => change = .add peer ∧ peer ∉ s.current)
      (·.Drops peer) where
  start := List.not_mem_nil
  step changes change := by
    rw [mem_current_after (nodup_current changes)]
    have kept : change = .add peer → ¬change.Drops peer := by
      rintro rfl
      simp [Change.Drops, Change.Marks]
    tauto
  fresh _ _ current entered := absurd current entered.2

theorem follows_moved (peer : NodeAddress) :
    Follows (fun s => peer ∈ s.stale) (fun s change => peer ∈ s.current ∧ change.Marks peer)
      (·.Settles peer) where
  start := List.not_mem_nil
  step _ _ := mem_stale_after
  fresh _ _ stale moved := absurd stale (disjoint_run moved.1)

theorem mem_current_iff : peer ∈ (run changes).current ↔ ∃ n, Added peer changes n :=
  (follows_added peer).run_iff changes

theorem mem_current_iff_entered : peer ∈ (run changes).current ↔ ∃ n, Entered peer changes n :=
  (follows_entered peer).run_iff changes

theorem mem_stale_iff : peer ∈ (run changes).stale ↔ ∃ n, Moved peer changes n :=
  (follows_moved peer).run_iff changes

theorem Taken.lt (h : Taken peer changes n t) : n < t := by
  have early := h.2.lt_length
  rw [List.length_take] at early
  omega

theorem Leaves.cases (h : Leaves peer changes n) :
    Moved peer changes n ∨ (∃ t, Taken peer changes n t) ∨ Undone peer changes n := by
  have fate : Moved peer changes n ∨
      ∃ t, Moved peer (changes.take t) n ∧ ∃ change ∈ changes[t]?, change.Settles peer :=
    since_or_ended h
  rcases fate with moved | ⟨t, moved, change, here, settles⟩
  · exact .inl moved
  · rcases settles with rfl | rfl | rfl
    · exact .inr (.inr ⟨t, .inl here, moved⟩)
    · exact .inr (.inl ⟨t, here, moved⟩)
    · exact .inr (.inr ⟨t, .inr here, moved⟩)

theorem nodup_handed (changes : List Change) (t : ℕ) : (handed changes t).Nodup := by
  unfold handed
  split
  · exact (tidy_adds _).nodup.of_append_right
  · exact List.nodup_nil

theorem mem_handed_iff : peer ∈ handed changes t ↔ ∃ n, Taken peer changes n t := by
  unfold handed Taken
  split
  next here => simpa [here, takeStale] using mem_stale_iff
  next other => simpa using fun here => absurd here other

theorem Taken.le (h : Taken peer changes n t) (h' : Taken peer changes n t') : t' ≤ t := by
  by_contra later
  -- the take at `t` would come before the one at `t'`, and it ends what began at `n`
  have between : Change.takeStale ∈ (changes.take t').drop (n + 1) := by
    have early := h.lt
    refine List.mem_of_getElem? (i := t - (n + 1)) ?_
    rw [List.getElem?_drop, Nat.add_sub_cancel' early, List.getElem?_take_of_lt (by omega)]
    exact h.1
  exact h'.2.lasts _ between (.inr (.inl rfl))

/-- A move and the take of what it moved determine each other. -/
theorem Taken.eq_iff (h : Taken peer changes n t) (h' : Taken peer changes n' t') :
    n = n' ↔ t = t' := by
  constructor
  · rintro rfl
    exact le_antisymm (h'.le h) (h.le h')
  · rintro rfl
    exact (follows_moved peer).unique h.2 h'.2

theorem pairwise_current (changes : List Change) :
    (run changes).current.Pairwise fun p q =>
      ∀ m n, Entered p changes m → Entered q changes n → m < n := by
  induction changes using List.reverseRecOn with
  | nil => exact List.Pairwise.nil
  | append_singleton changes change ih =>
      -- a peer that was current before does not become current now
      have old {p : NodeAddress} {m : ℕ} (inside : p ∈ (run changes).current)
          (entered : Entered p (changes ++ [change]) m) : Entered p changes m := by
        rcases since_concat.mp entered with ⟨before, -⟩ | ⟨-, new⟩
        · exact before
        · exact absurd inside new.2
      have kept : (run changes).current.Pairwise fun p q => ∀ m n,
          Entered p (changes ++ [change]) m → Entered q (changes ++ [change]) n → m < n :=
        ih.imp_of_mem fun hp hq earlier m n hm hn => earlier m n (old hp hm) (old hq hn)
      rw [run_concat]
      rcases current_after (run changes) change with fewer | ⟨peer, rfl, absent, same⟩
      · exact kept.sublist fewer
      · rw [same]
        refine List.pairwise_append.mpr ⟨kept, List.pairwise_singleton _ _, ?_⟩
        intro p hp q hq m n hm hn
        obtain rfl := List.mem_singleton.mp hq
        rcases since_concat.mp hn with ⟨before, -⟩ | ⟨rfl, -⟩
        · exact absurd (mem_current_iff_entered.mpr ⟨n, before⟩) absent
        · exact (old hp hm).lt_length

/-- **Peers are neither lost nor listed twice**: after any changes to a new peer set no peer is
listed twice.  A peer is current if it was added and not marked stale or cleared since it was last
added, and it is stale if a mark moved it out of the current ones and it was not added, taken or
cleared since then.  A take hands out each peer once, those that such moves left stale; each move
has one take at most, the next one, and each peer of a take one move.  So a peer that a mark moves
out of the current ones is stale until it is added or cleared or handed out.  The current peers are
listed in the order in which they became current. -/
theorem history_of_run (changes : List Change) :
    ((run changes).current ++ (run changes).stale).Nodup ∧
    (∀ peer, peer ∈ (run changes).current ↔ ∃ n, Added peer changes n) ∧
    (∀ peer, peer ∈ (run changes).stale ↔ ∃ n, Moved peer changes n) ∧
    (∀ t, (handed changes t).Nodup ∧
      ∀ peer, peer ∈ handed changes t ↔ ∃ n, Taken peer changes n t) ∧
    (∀ peer n t n' t', Taken peer changes n t → Taken peer changes n' t' → (n = n' ↔ t = t')) ∧
    (∀ peer n, Leaves peer changes n →
      Moved peer changes n ∨ (∃ t, Taken peer changes n t) ∨ Undone peer changes n) ∧
    (∀ peer, peer ∈ (run changes).current ↔ ∃ n, Entered peer changes n) ∧
    (run changes).current.Pairwise fun p q =>
      ∀ m n, Entered p changes m → Entered q changes n → m < n :=
  ⟨(tidy_adds changes).nodup, fun _ => mem_current_iff, fun _ => mem_stale_iff,
    fun t => ⟨nodup_handed changes t, fun _ => mem_handed_iff⟩,
    fun _ _ _ _ _ h h' => h.eq_iff h', fun _ _ h => h.cases, fun _ => mem_current_iff_entered,
    pairwise_current changes⟩

/-- A peer that is added again after it was marked is handed out for the later mark only. -/
example :
    let a : NodeAddress := ⟨"a", "host", 1⟩
    let b : NodeAddress := ⟨"b", "host", 3⟩
    let changes : List Change := [.add a, .add b, .markStale a, .add a, .markAllStale, .takeStale]
    handed changes 5 = [b, a] ∧ run changes = empty := by
  decide

end PeerSet
end TreeCluster
