import TreeCluster.Proofs.Address.Legible

/-! # The grammar of a path

What is read of a text is what is left without the separators around it (`Trims`), segment by segment
(`Divides`).  It is a path if every segment writes an address, and otherwise the first one that does
not is blamed for what is wrong with it (`parse_cases`).

`parse_grammar` says so for every text, and that the addresses along an accepted path are those that
are written in it. -/

namespace TreeCluster.NodePath

open Text Segment

/-- The text without the separators that it starts and ends with. -/
structure Trims (sep : Char) (text core : List Char) : Prop where
  whole : ∃ m n, text = List.replicate m sep ++ core ++ List.replicate n sep
  first : ∀ c ∈ core.head?, c ≠ sep
  last : ∀ c ∈ core.getLast?, c ≠ sep

theorem trims_trimEnds (sep : Char) (text : List Char) : Trims sep text (trimEnds sep text) :=
  ⟨exists_trimEnds sep text, head?_trimEnds_ne, getLast?_trimEnds_ne⟩

/-- The texts between the separators of a text. -/
structure Divides (sep : Char) (text : List Char) (segments : List (List Char)) : Prop where
  whole : text = joined sep segments
  ne : segments ≠ []
  plain : ∀ segment ∈ segments, sep ∉ segment

theorem divides_pieces (sep : Char) (text : List Char) : Divides sep text (pieces sep text) :=
  ⟨(joined_pieces sep text).symm, pieces_ne_nil sep text, fun _ => notMem_of_mem_pieces⟩

variable {s : String} {core : List Char}

/-! ### The verdict on a text -/

/-- A text is empty without its separators, or it is a path, or it has a first segment that is
wrong. -/
theorem parse_cases (h : core = trimEnds separator s.toList) :
    (core = [] ∧ parse s = .error .emptyPath) ∨
    (core ≠ [] ∧ (∀ segment ∈ pieces separator core, ∃ a, Writes segment a) ∧
      parse s = .ok ⟨String.ofList core⟩) ∨
    (core ≠ [] ∧ ∃ front bad back e, pieces separator core = front ++ bad :: back ∧
      (∀ segment ∈ front, ∃ a, Writes segment a) ∧ Fault bad e ∧ parse s = .error e) := by
  subst h
  by_cases bare : trimEnds separator s.toList = []
  · exact .inl ⟨bare, by simp only [parse, if_pos bare]⟩
  · have verdict := checkSegments_cases (divides_pieces separator (trimEnds separator s.toList)).plain
    simp only [parse, if_neg bare]
    rcases verdict with ⟨all, passes⟩ | ⟨front, bad, back, e, cut, all, fault, fails⟩
    · exact .inr (.inl ⟨bare, all, by rw [passes]⟩)
    · exact .inr (.inr ⟨bare, front, bad, back, e, cut, all, fault, by rw [fails]⟩)

/-! ### What is read from an accepted path -/

/-- No segment of an accepted path is empty, so all of them are read. -/
theorem segments_of_writes (all : ∀ segment ∈ pieces separator core, ∃ a, Writes segment a) :
    (⟨String.ofList core⟩ : NodePath).segments = (pieces separator core).map String.ofList := by
  have full : (pieces separator core).filter (· ≠ []) = pieces separator core := by
    rw [List.filter_eq_self]
    intro segment inside
    obtain ⟨a, port, parts, -⟩ := all segment inside
    simp [parts.whole]
  rw [segments, segmentChars, String.toList_ofList, full]

/-- The addresses along an accepted path are those that its segments write, and none of their names
is made up. -/
theorem exists_addresses (nonempty : core ≠ [])
    (all : ∀ segment ∈ pieces separator core, ∃ a, Writes segment a) :
    ∃ as, List.Forall₂ Writes (pieces separator core) as ∧
      ∀ fresh, (⟨String.ofList core⟩ : NodePath).addresses fresh = .ok as := by
  have : Nonempty NodeAddress := ⟨⟨"", "", 0⟩⟩
  choose! written writes using all
  have each : List.Forall₂ Writes (pieces separator core) ((pieces separator core).map written) :=
    List.forall₂_map_right_iff.mpr (List.forall₂_same.mpr writes)
  refine ⟨_, each, addresses_of_written ?_⟩
  have full : (⟨String.ofList core⟩ : NodePath).isEmpty = false := by simpa [isEmpty] using nonempty
  rw [addressForms, full, segments_of_writes fun segment inside => ⟨_, writes segment inside⟩]
  exact mapM_parse_of_writes each (divides_pieces separator core).plain

/-- Nothing is left to trim, so what is left of a text is read as the text itself. -/
theorem parse_trimEnds (s : String) :
    parse (String.ofList (trimEnds separator s.toList)) = parse s := by
  have again := trimEnds_eq_self (@head?_trimEnds_ne separator s.toList) getLast?_trimEnds_ne
  simp only [parse, String.toList_ofList, again]

/-- **The grammar of paths.**  Take a text without the separators around it, and the texts between
the separators that are left.

* The text is refused as empty exactly if nothing is left.
* It is accepted exactly if every segment writes an address, that is, has the form `name@host:port`
  with a port that is a number below 65536.
* Any other text is refused for its first segment that writes no address: for the port of this
  segment if only that is wrong, and otherwise for its form (`Segment.Fault`).
* An accepted path is the text that is left.  The addresses along it are those that its segments
  write, under whatever fresh names, and the path is read back from its text. -/
theorem parse_grammar (s : String) :
    ∃ core segments, Trims separator s.toList core ∧ Divides separator core segments ∧
      (parse s = .error .emptyPath ↔ core = []) ∧
      ((∃ p, parse s = .ok p) ↔ ∀ segment ∈ segments, ∃ a, Writes segment a) ∧
      (∀ e, core ≠ [] → parse s = .error e → ∃ front bad back, segments = front ++ bad :: back ∧
        (∀ segment ∈ front, ∃ a, Writes segment a) ∧ Fault bad e) ∧
      ∀ p, parse s = .ok p → p.text = String.ofList core ∧ parse p.text = .ok p ∧
        ∃ as, List.Forall₂ Writes segments as ∧ ∀ fresh, p.addresses fresh = .ok as := by
  have trims := trims_trimEnds separator s.toList
  have again := parse_trimEnds s
  generalize h : trimEnds separator s.toList = core at trims again
  refine ⟨core, pieces separator core, trims, divides_pieces separator core, ?_⟩
  rcases parse_cases h.symm with ⟨rfl, refused⟩ | ⟨nonempty, all, accepted⟩ |
      ⟨nonempty, front, bad, back, e, cut, before, fault, refused⟩
  · have none : ¬∀ segment ∈ pieces separator [], ∃ a, Writes segment a := by
      intro all
      obtain ⟨a, port, parts, -⟩ := all [] List.mem_cons_self
      exact absurd parts.whole (by simp)
    simp [refused, none]
  · rw [accepted] at again
    simp only [accepted]
    refine ⟨⟨nofun, fun bare => absurd bare nonempty⟩, ⟨fun _ => all, fun _ => ⟨_, rfl⟩⟩, nofun, ?_⟩
    rintro p ⟨rfl⟩
    exact ⟨rfl, again, exists_addresses nonempty all⟩
  · simp only [refused]
    refine ⟨⟨?_, fun bare => absurd bare nonempty⟩, ⟨nofun, fun all => ?_⟩, ?_, nofun⟩
    · rintro ⟨rfl⟩
      cases fault
    · obtain ⟨a, writes⟩ := all bad (by simp [cut])
      exact absurd writes fault.not_writes
    · rintro e' - ⟨rfl⟩
      exact ⟨front, bad, back, cut, before, fault⟩

/-- The host is looked at before the port, and the first wrong segment is blamed. -/
example : parse "//a@h:1/b@:70000/c@h:70000/" = .error (.malformedSegment "b@:70000") := rfl

end TreeCluster.NodePath
