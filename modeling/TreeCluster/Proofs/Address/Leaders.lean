import Mathlib
import TreeCluster.Path

/-! # The way up from an unchecked path

A path whose text was not checked may have separators at its ends, or several in a row.  The
segments are what stands between them and is not empty (`words`), so the separators at the ends do
not matter (`words_trimEnds`).  The leader is cut off at the last separator in front of a segment,
and may itself end in separators; its segments are all but the last one (`leader_cases`).

So whoever takes the leader again and again loses one segment at a time and comes to the root
(`leader_climbs`). -/

namespace TreeCluster

open Text

/-! ### The words of a text -/

namespace Text

/-- What stands between the separators of a text and is not empty. -/
def words (sep : Char) (text : List Char) : List (List Char) :=
  (pieces sep text).filter (· ≠ [])

variable {sep : Char} {text : List Char}

theorem words_append_cons (sep : Char) (front back : List Char) :
    words sep (front ++ sep :: back) = words sep front ++ words sep back := by
  rw [words, pieces_append_cons, List.filter_append]
  rfl

theorem words_replicate_append (sep : Char) (n : ℕ) (text : List Char) :
    words sep (List.replicate n sep ++ text) = words sep text := by
  induction n with
  | zero => rfl
  | succ n ih =>
      have first := words_append_cons sep [] (List.replicate n sep ++ text)
      rwa [ih] at first

theorem words_append_replicate (sep : Char) (n : ℕ) (text : List Char) :
    words sep (text ++ List.replicate n sep) = words sep text := by
  cases n with
  | zero => rw [List.replicate_zero, List.append_nil]
  | succ n =>
      have none := words_replicate_append sep n []
      rw [List.append_nil] at none
      rw [List.replicate_succ, words_append_cons, none]
      exact List.append_nil _

/-- Separators at the ends make no word. -/
theorem words_trimEnds (sep : Char) (text : List Char) :
    words sep (trimEnds sep text) = words sep text := by
  obtain ⟨m, n, whole⟩ := exists_trimEnds sep text
  conv_rhs => rw [whole, words_append_replicate, words_replicate_append]

theorem words_eq_singleton (nonempty : text ≠ []) (plain : sep ∉ text) :
    words sep text = [text] := by
  rw [words, pieces_eq_singleton plain]
  simp [nonempty]

theorem words_ne_nil (nonempty : text ≠ []) (first : ∀ c ∈ text.head?, c ≠ sep) :
    words sep text ≠ [] := by
  obtain ⟨c, rest, rfl⟩ := List.exists_cons_of_ne_nil nonempty
  rw [words, pieces, if_neg (first c rfl)]
  split <;> simp

end Text

/-! ### One level up -/

namespace NodePath

variable {p q : NodePath} {k : ℕ}

/-- A path has no leader and at most one segment, or its leader has all its segments but the last
one, and has some. -/
theorem leader_cases (p : NodePath) :
    (p.leader = none ∧ p.depth ≤ 1) ∨
      ∃ q last, p.leader = some q ∧ p.segmentChars = q.segmentChars ++ [last] ∧ 1 ≤ q.depth := by
  have words_eq : p.segmentChars = words separator (trimEnds separator p.text.toList) :=
    (words_trimEnds separator _).symm
  have first := @head?_trimEnds_ne separator p.text.toList
  have last := @getLast?_trimEnds_ne separator p.text.toList
  rw [depth, leader, words_eq]
  generalize trimEnds separator p.text.toList = core at first last
  cases cut : cutLast separator core with
  | none =>
      refine .inl ⟨rfl, ?_⟩
      by_cases bare : core = []
      · rw [bare]
        exact Nat.zero_le 1
      · rw [words_eq_singleton bare (notMem_of_cutLast_eq_none cut)]
        exact le_rfl
  | some parts =>
      obtain ⟨front, back⟩ := parts
      obtain ⟨rfl, plain⟩ := eq_append_of_cutLast cut
      -- Nothing is trimmed any more, so there is a segment behind the separator and one before.
      have back_ne : back ≠ [] := by
        rintro rfl
        exact last separator (by simp) rfl
      have front_ne : front ≠ [] := by
        rintro rfl
        exact first separator rfl rfl
      have front_words : words separator front ≠ [] := by
        refine words_ne_nil front_ne fun c hc => first c ?_
        rw [List.head?_append, Option.mem_def.mp hc]
        rfl
      refine .inr ⟨⟨String.ofList front⟩, back, rfl, ?_, ?_⟩
      · rw [words_append_cons, words_eq_singleton back_ne plain, segmentChars, String.toList_ofList]
        rfl
      · rw [depth, segmentChars, String.toList_ofList]
        exact List.length_pos_iff.mpr front_words

theorem leader_eq_none_iff : p.leader = none ↔ p.depth ≤ 1 := by
  obtain ⟨none, shallow⟩ | ⟨q, last, some, split, deep⟩ := p.leader_cases
  · exact iff_of_true none shallow
  · refine iff_of_false (by simp [some]) ?_
    rw [depth] at deep
    rw [depth, split, List.length_append, List.length_singleton]
    omega

theorem segmentChars_leader (h : p.leader = some q) :
    q.segmentChars = p.segmentChars.dropLast := by
  obtain ⟨none, -⟩ | ⟨q', last, some, split, -⟩ := p.leader_cases
  · rw [none] at h
    cases h
  · obtain rfl := Option.some.inj (some.symm.trans h)
    rw [split, List.dropLast_concat]

/-! ### All the way up -/

/-- The path so many levels up, taking the leader again and again. -/
def climb (p : NodePath) : ℕ → Option NodePath
  | 0 => some p
  | levels + 1 => (p.climb levels).bind leader

theorem exists_climb (p : NodePath) (h : k < p.depth) :
    ∃ q, p.climb k = some q ∧ q.segmentChars = p.segmentChars.take (p.depth - k) := by
  induction k with
  | zero => exact ⟨p, rfl, (List.take_length).symm⟩
  | succ k ih =>
      obtain ⟨q, reached, left⟩ := ih (Nat.lt_of_succ_lt h)
      have deep : q.depth = p.depth - k := by
        rw [depth, left, List.length_take, depth]
        omega
      obtain ⟨q', up⟩ := Option.ne_none_iff_exists'.mp
        (mt (leader_eq_none_iff (p := q)).mp (by omega))
      refine ⟨q', by rw [climb, reached]; exact up, ?_⟩
      rw [segmentChars_leader up, left, List.dropLast_eq_take, List.length_take, List.take_take,
        depth]
      congr 1
      rw [depth] at h
      omega

theorem climb_eq_none (p : NodePath) (positive : 1 ≤ k) (h : p.depth ≤ k) : p.climb k = none := by
  induction k with
  | zero => cases positive
  | succ k ih =>
      by_cases beyond : 1 ≤ k ∧ p.depth ≤ k
      · rw [climb, ih beyond.1 beyond.2]
        rfl
      -- Otherwise the level below is the root, or the path itself if it is no deeper.
      · have root : ∀ q, p.climb k = some q → q.leader = none := by
          intro q reached
          refine leader_eq_none_iff.mpr ?_
          by_cases inside : k < p.depth
          · obtain ⟨q', same, left⟩ := p.exists_climb inside
            obtain rfl := Option.some.inj (same.symm.trans reached)
            rw [depth, left, List.length_take]
            omega
          · obtain rfl : k = 0 := by omega
            obtain rfl := Option.some.inj reached
            omega
        rw [climb, Option.bind_eq_none_iff]
        exact fun q reached => root q reached

/-- **Unchecked paths climb to the root.**  Whatever the text of a path:

* it has no leader exactly if it has at most one segment, and otherwise the segments of its leader
  are its own without the last one;
* so it is `depth - 1` levels from a path with a segment to one with only one, and there are no
  more;
* on the way, `k` levels up, the last `k` segments are gone, and the node is read from the last one
  that is left. -/
theorem leader_climbs (p : NodePath) :
    (p.leader = none ↔ p.depth ≤ 1) ∧
    (∀ q, p.leader = some q → q.segments = p.segments.dropLast) ∧
    (1 ≤ p.depth → (∃ root, p.climb (p.depth - 1) = some root ∧ root.depth = 1) ∧
      ∀ k, p.climb k = none ↔ p.depth ≤ k) ∧
    ∀ k < p.depth, ∃ q segment, p.climb k = some q ∧
      q.segments = p.segments.take (p.depth - k) ∧ q.depth = p.depth - k ∧
      p.segments[p.depth - k - 1]? = some segment ∧
      ∀ fresh, q.node fresh = NodeAddress.parse fresh segment := by
  have levels : ∀ k < p.depth, ∃ q, p.climb k = some q ∧
      q.segments = p.segments.take (p.depth - k) ∧ q.depth = p.depth - k := by
    intro k h
    obtain ⟨q, reached, left⟩ := p.exists_climb h
    refine ⟨q, reached, by rw [segments, left, List.map_take, segments], ?_⟩
    rw [depth, left, List.length_take, depth]
    omega
  refine ⟨leader_eq_none_iff, fun q up => ?_, fun positive => ⟨?_, fun k => ?_⟩, fun k h => ?_⟩
  · rw [segments, segmentChars_leader up, segments, List.map_dropLast]
  · obtain ⟨root, reached, -, deep⟩ := levels (p.depth - 1) (by omega)
    exact ⟨root, reached, by omega⟩
  · refine ⟨fun none => ?_, fun beyond => p.climb_eq_none (positive.trans beyond) beyond⟩
    by_contra inside
    obtain ⟨q, reached, -⟩ := levels k (Nat.not_le.mp inside)
    rw [none] at reached
    cases reached
  · obtain ⟨q, reached, left, deep⟩ := levels k h
    have length : p.segments.length = p.depth := List.length_map _
    have inside : p.depth - k - 1 < p.segments.length := by omega
    refine ⟨q, p.segments[p.depth - k - 1], reached, left, deep, List.getElem?_eq_getElem inside, ?_⟩
    intro fresh
    have last : q.segments.getLast? = some p.segments[p.depth - k - 1] := by
      rw [left, List.getLast?_take, if_neg (by omega), List.getElem?_eq_getElem inside]
      rfl
    rw [node, nodeForm, last]
    rfl

/-- The cut leaves a separator at the end of the leader's text. -/
example : leader ⟨"//a@h:1///h:2/"⟩ = some ⟨"a@h:1//"⟩ := rfl

end NodePath
end TreeCluster
