import TreeCluster.Proofs.Address.Leaders

/-! # Paths without a segment

An unchecked path may have no segment although its text is not empty: then it consists of separators
alone (`words_eq_nil_iff`).  The readers disagree about such a path.  Its node is refused as that of
an empty path (`nodeForm_eq_emptyPath_iff`), but its addresses are read, and there are none: only a
path of empty text is refused there (`addressForms_eq_emptyPath_iff`).

They agree about all other paths, and addresses that are read are as many as the path is deep
(`emptyPath_readings`). -/

namespace TreeCluster

open Text

namespace Text

variable {sep : Char} {text : List Char}

theorem words_eq_nil_iff : words sep text = [] ↔ ∀ c ∈ text, c = sep := by
  constructor
  · intro none
    obtain ⟨m, n, whole⟩ := exists_trimEnds sep text
    -- what the separators at the ends leave would start with a word
    have core : trimEnds sep text = [] := by
      by_contra some
      exact words_ne_nil some head?_trimEnds_ne (by rw [words_trimEnds, none])
    rw [core, List.append_nil, ← List.replicate_add] at whole
    rw [whole]
    exact fun c => List.eq_of_mem_replicate
  · intro all
    rw [List.eq_replicate_of_mem all, ← List.append_nil (List.replicate _ _),
      words_replicate_append]
    rfl

end Text

/-! ### Addresses one after the other -/

theorem AddressForm.parse_ne_emptyPath (text : String) : parse text ≠ .error .emptyPath := by
  simp only [parse]
  repeat' split
  all_goals simp

/-- A list that is worked through gives as many results, or the error of one of its items. -/
theorem mapM_cases {α β ε : Type} (f : α → Except ε β) (l : List α) :
    (∃ bs, l.mapM f = .ok bs ∧ bs.length = l.length) ∨
      ∃ e, l.mapM f = .error e ∧ ∃ a ∈ l, f a = .error e := by
  induction l with
  | nil => exact .inl ⟨[], rfl, rfl⟩
  | cons a l ih =>
      rw [List.mapM_cons]
      cases ha : f a with
      | error e => exact .inr ⟨e, rfl, a, List.mem_cons_self, ha⟩
      | ok b =>
          obtain ⟨bs, hl, length⟩ | ⟨e, hl, a', inside, he⟩ := ih
          · rw [hl]
            exact .inl ⟨b :: bs, rfl, congrArg (· + 1) length⟩
          · rw [hl]
            exact .inr ⟨e, rfl, a', List.mem_cons_of_mem _ inside, he⟩

namespace NodePath

variable {p : NodePath}

theorem depth_eq_zero_iff : p.depth = 0 ↔ ∀ c ∈ p.text.toList, c = separator :=
  List.length_eq_zero_iff.trans words_eq_nil_iff

theorem isEmpty_iff : p.isEmpty = true ↔ p.text = "" :=
  String.isEmpty_iff

theorem segments_eq_nil_iff : p.segments = [] ↔ p.depth = 0 := by
  rw [segments, List.map_eq_nil_iff, depth, List.length_eq_zero_iff]

theorem depth_eq_zero_of_text (empty : p.text = "") : p.depth = 0 := by
  rw [depth_eq_zero_iff, empty]
  nofun

theorem nodeForm_eq_emptyPath_iff : p.nodeForm = .error .emptyPath ↔ p.depth = 0 := by
  rw [nodeForm, ← segments_eq_nil_iff]
  cases last : p.segments.getLast? with
  | none => exact iff_of_true rfl (List.getLast?_eq_none_iff.mp last)
  | some segment =>
      refine iff_of_false (AddressForm.parse_ne_emptyPath segment) fun none => ?_
      rw [none] at last
      cases last

theorem addressForms_eq_emptyPath_iff : p.addressForms = .error .emptyPath ↔ p.text = "" := by
  rw [addressForms, ← isEmpty_iff]
  split_ifs with empty
  · exact iff_of_true rfl empty
  · refine iff_of_false (fun refused => ?_) empty
    obtain ⟨bs, read, -⟩ | ⟨e, read, segment, -, fault⟩ := mapM_cases AddressForm.parse p.segments
    · rw [read] at refused
      cases refused
    · obtain rfl := Except.error.inj (read.symm.trans refused)
      exact AddressForm.parse_ne_emptyPath segment fault

theorem length_of_addressForms {forms : List AddressForm} (h : p.addressForms = .ok forms) :
    forms.length = p.depth := by
  have length : p.segments.length = p.depth := List.length_map _
  rw [addressForms] at h
  split_ifs at h
  obtain ⟨bs, read, same⟩ | ⟨e, read, -⟩ := mapM_cases AddressForm.parse p.segments
  · obtain rfl := Except.ok.inj (read.symm.trans h)
    exact same.trans length
  · rw [read] at h
    cases h

theorem addressForms_of_vacant (vacant : p.depth = 0) (nonempty : p.text ≠ "") :
    p.addressForms = .ok [] := by
  rw [addressForms, if_neg (mt isEmpty_iff.mp nonempty), segments_eq_nil_iff.mpr vacant]
  rfl

theorem map_eq_error_iff {α β ε : Type} {f : α → β} {x : Except ε α} {e : ε} :
    x.map f = .error e ↔ x = .error e := by
  cases x <;> simp [Except.map]

/-- **Which paths are empty, and for whom.**  Whatever the text of a path, and under whatever fresh
names:

* the node is refused as that of an empty path if and only if the path has no segment, which is the
  case if and only if its text consists of separators;
* the addresses are refused as those of an empty path if and only if the text is empty;
* so the two readings differ on the texts of one separator or more, where no address is read and
  none is refused, and nowhere else;
* addresses that are read are as many as the path is deep, so there is one unless there is no
  segment. -/
theorem emptyPath_readings (p : NodePath) (name : String) (names : ℕ → String) :
    (p.node name = .error .emptyPath ↔ p.depth = 0) ∧
    (p.depth = 0 ↔ ∀ c ∈ p.text.toList, c = separator) ∧
    (p.addresses names = .error .emptyPath ↔ p.text = "") ∧
    (¬(p.addresses names = .error .emptyPath ↔ p.node name = .error .emptyPath) ↔
      p.depth = 0 ∧ p.text ≠ "") ∧
    (p.addresses names = .ok [] ↔ p.depth = 0 ∧ p.text ≠ "") ∧
    ∀ as, p.addresses names = .ok as → as.length = p.depth := by
  have node : p.node name = .error .emptyPath ↔ p.depth = 0 :=
    map_eq_error_iff.trans nodeForm_eq_emptyPath_iff
  have addresses : p.addresses names = .error .emptyPath ↔ p.text = "" :=
    map_eq_error_iff.trans addressForms_eq_emptyPath_iff
  have length : ∀ as, p.addresses names = .ok as → as.length = p.depth := by
    intro as h
    rw [NodePath.addresses] at h
    cases forms : p.addressForms with
    | error e => rw [forms] at h; cases h
    | ok written =>
        rw [forms] at h
        rw [← Except.ok.inj h, List.length_mapIdx, length_of_addressForms forms]
  refine ⟨node, depth_eq_zero_iff, addresses, ?_, ⟨fun read => ?_, fun ⟨vacant, nonempty⟩ => ?_⟩,
    length⟩
  · rw [node, addresses]
    have := @depth_eq_zero_of_text p
    tauto
  · refine ⟨(length [] read).symm, fun empty => ?_⟩
    rw [addresses.mpr empty] at read
    cases read
  · rw [NodePath.addresses, addressForms_of_vacant vacant nonempty]
    rfl

/-- Two separators, and nothing between them: the node is refused, and the list of addresses is
empty. -/
theorem emptyPath_readings_of_separators :
    let p : NodePath := ⟨"//"⟩
    (∀ name, p.node name = .error .emptyPath) ∧ (∀ names, p.addresses names = .ok []) ∧
      ([] : List NodeAddress).length = p.depth ∧
      ∀ name names, ¬(p.addresses names = .error .emptyPath ↔ p.node name = .error .emptyPath) := by
  intro p
  have vacant : p.depth = 0 := by decide +kernel
  have nonempty : p.text ≠ "" := by decide
  refine ⟨fun name => (p.emptyPath_readings name fun _ => "").1.mpr vacant, fun names => ?_, ?_,
    fun name names => (p.emptyPath_readings name names).2.2.2.1.mpr ⟨vacant, nonempty⟩⟩
  · exact (p.emptyPath_readings "" names).2.2.2.2.1.mpr ⟨vacant, nonempty⟩
  · exact (p.emptyPath_readings "" fun _ => "").2.2.2.2.2 [] (by decide +kernel)

/-- The addresses of one separator are none and are not refused, while the node is. -/
theorem exists_vacant :
    ∃ p : NodePath, ∀ name names, p.node name = .error .emptyPath ∧
      p.addresses names ≠ .error .emptyPath ∧ p.addresses names = .ok [] := by
  refine ⟨⟨"/"⟩, fun name names => ?_⟩
  have none : addresses names ⟨"/"⟩ = .ok [] := rfl
  exact ⟨rfl, by rw [none]; nofun, none⟩

end NodePath
end TreeCluster
