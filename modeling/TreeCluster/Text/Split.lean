/-! # Cutting text at separators

Lists of characters are cut at one separator: at its first occurrence (`cutFirst`), at its
last (`cutLast`), or at all of them (`pieces`).  `trimEnds` drops a character from both ends.
`joined` is the inverse of `pieces` (`joined_pieces`, `pieces_joined`). -/

namespace TreeCluster.Text

/-- The text before and after the first `sep`, if there is one. -/
def cutFirst (sep : Char) : List Char → Option (List Char × List Char)
  | [] => none
  | c :: rest =>
    if c = sep then some ([], rest)
    else (cutFirst sep rest).map fun (before, after) => (c :: before, after)

/-- The text before and after the last `sep`, if there is one. -/
def cutLast (sep : Char) : List Char → Option (List Char × List Char)
  | [] => none
  | c :: rest =>
    match cutLast sep rest with
    | some (before, after) => some (c :: before, after)
    | none => if c = sep then some ([], rest) else none

/-- The texts between the separators: one more than there are separators. -/
def pieces (sep : Char) : List Char → List (List Char)
  | [] => [[]]
  | c :: rest =>
    if c = sep then [] :: pieces sep rest
    else
      match pieces sep rest with
      | [] => [[c]]
      | piece :: more => (c :: piece) :: more

/-- The texts with `sep` between each two neighbours. -/
def joined (sep : Char) : List (List Char) → List Char
  | [] => []
  | [piece] => piece
  | piece :: more => piece ++ sep :: joined sep more

/-- The text without the `c`s it starts with and the `c`s it ends with. -/
def trimEnds (c : Char) (text : List Char) : List Char :=
  ((text.dropWhile (· = c)).reverse.dropWhile (· = c)).reverse

theorem pieces_ne_nil (sep : Char) (text : List Char) : pieces sep text ≠ [] := by
  cases text with
  | nil => simp [pieces]
  | cons c rest =>
    simp only [pieces]
    split
    · simp
    · split <;> simp

/-- Joining the pieces again gives the text. -/
theorem joined_pieces (sep : Char) (text : List Char) : joined sep (pieces sep text) = text := by
  induction text with
  | nil => rfl
  | cons c rest ih =>
    simp only [pieces]
    split
    · next h =>
      cases hp : pieces sep rest with
      | nil => exact absurd hp (pieces_ne_nil sep rest)
      | cons piece more => rw [hp] at ih; simp [joined, ih, h]
    · cases hp : pieces sep rest with
      | nil => exact absurd hp (pieces_ne_nil sep rest)
      | cons piece more =>
        rw [hp] at ih
        cases more with
        | nil => simpa [joined] using ih
        | cons next others => simpa [joined] using ih

theorem cutFirst_append {sep : Char} {front : List Char} (h : sep ∉ front) (back : List Char) :
    cutFirst sep (front ++ sep :: back) = some (front, back) := by
  induction front with
  | nil => simp [cutFirst]
  | cons c front ih =>
    rw [List.mem_cons, not_or] at h
    simp [cutFirst, Ne.symm h.1, ih h.2]

theorem cutLast_eq_none {sep : Char} {text : List Char} (h : sep ∉ text) :
    cutLast sep text = none := by
  induction text with
  | nil => rfl
  | cons c rest ih =>
    rw [List.mem_cons, not_or] at h
    simp [cutLast, ih h.2, Ne.symm h.1]

theorem cutLast_append {sep : Char} (front : List Char) {back : List Char} (h : sep ∉ back) :
    cutLast sep (front ++ sep :: back) = some (front, back) := by
  induction front with
  | nil => simp [cutLast, cutLast_eq_none h]
  | cons c front ih => simp [cutLast, ih]

theorem eq_append_of_cutFirst {sep : Char} {text front back : List Char}
    (h : cutFirst sep text = some (front, back)) : text = front ++ sep :: back ∧ sep ∉ front := by
  induction text generalizing front with
  | nil => cases h
  | cons c rest ih =>
    rw [cutFirst] at h
    split at h
    · next same =>
      cases h
      exact ⟨congrArg (· :: _) same, List.not_mem_nil⟩
    · next other =>
      obtain ⟨⟨before, after⟩, cut, pair⟩ := Option.map_eq_some_iff.mp h
      cases pair
      obtain ⟨whole, outside⟩ := ih cut
      exact ⟨congrArg (c :: ·) whole, by simp [outside, Ne.symm other]⟩

theorem notMem_of_cutFirst_eq_none {sep : Char} {text : List Char} (h : cutFirst sep text = none) :
    sep ∉ text := by
  intro inside
  obtain ⟨front, back, rfl, outside⟩ := List.eq_append_cons_of_mem inside
  rw [cutFirst_append outside] at h
  cases h

theorem notMem_of_cutLast_eq_none {sep : Char} {text : List Char} (h : cutLast sep text = none) :
    sep ∉ text := by
  induction text with
  | nil => exact List.not_mem_nil
  | cons c rest ih =>
    rw [cutLast] at h
    split at h
    · cases h
    · next none =>
      split at h
      · cases h
      · next other => simp [Ne.symm other, ih none]

theorem eq_append_of_cutLast {sep : Char} {text front back : List Char}
    (h : cutLast sep text = some (front, back)) : text = front ++ sep :: back ∧ sep ∉ back := by
  induction text generalizing front with
  | nil => cases h
  | cons c rest ih =>
    rw [cutLast] at h
    split at h
    · next before after cut =>
      cases h
      obtain ⟨whole, outside⟩ := ih cut
      exact ⟨congrArg (c :: ·) whole, outside⟩
    · next none =>
      split at h
      · next same =>
        cases h
        exact ⟨congrArg (· :: _) same, notMem_of_cutLast_eq_none none⟩
      · cases h

theorem pieces_eq_singleton {sep : Char} {text : List Char} (h : sep ∉ text) :
    pieces sep text = [text] := by
  induction text with
  | nil => rfl
  | cons c rest ih =>
    rw [List.mem_cons, not_or] at h
    simp [pieces, Ne.symm h.1, ih h.2]

/-- A separator parts the pieces before it from those behind it. -/
theorem pieces_append_cons (sep : Char) (front back : List Char) :
    pieces sep (front ++ sep :: back) = pieces sep front ++ pieces sep back := by
  induction front with
  | nil => simp [pieces]
  | cons c front ih =>
    rw [List.cons_append, pieces, pieces, ih]
    split
    · rfl
    · cases hp : pieces sep front with
      | nil => exact absurd hp (pieces_ne_nil sep front)
      | cons piece more => rfl

theorem pieces_append {sep : Char} {front : List Char} (h : sep ∉ front) (back : List Char) :
    pieces sep (front ++ sep :: back) = front :: pieces sep back := by
  rw [pieces_append_cons, pieces_eq_singleton h, List.singleton_append]

/-- Texts without the separator are the pieces of what they are joined to. -/
theorem pieces_joined {sep : Char} {texts : List (List Char)} (nonempty : texts ≠ [])
    (h : ∀ text ∈ texts, sep ∉ text) : pieces sep (joined sep texts) = texts := by
  induction texts with
  | nil => exact absurd rfl nonempty
  | cons text more ih =>
    obtain ⟨first, others⟩ := List.forall_mem_cons.mp h
    cases more with
    | nil => exact pieces_eq_singleton first
    | cons next more =>
      rw [joined, pieces_append first, ih (List.cons_ne_nil _ _) others]
      exact fun he => by cases he

theorem notMem_of_mem_pieces {sep : Char} {text piece : List Char} (h : piece ∈ pieces sep text) :
    sep ∉ piece := by
  induction text generalizing piece with
  | nil =>
    rw [List.mem_singleton.mp h]
    exact List.not_mem_nil
  | cons c rest ih =>
    rw [pieces] at h
    split at h
    · rcases List.mem_cons.mp h with rfl | later
      · exact List.not_mem_nil
      · exact ih later
    · next other =>
      cases hp : pieces sep rest with
      | nil => exact absurd hp (pieces_ne_nil sep rest)
      | cons first more =>
        rw [hp] at h ih
        rcases List.mem_cons.mp h with rfl | later
        · simp [Ne.symm other, ih List.mem_cons_self]
        · exact ih (List.mem_cons_of_mem _ later)

/-- What is joined to a last text is cut off again in front of it. -/
theorem joined_concat (sep : Char) {front : List (List Char)} (nonempty : front ≠ [])
    (text : List Char) : joined sep (front ++ [text]) = joined sep front ++ sep :: text := by
  induction front with
  | nil => exact absurd rfl nonempty
  | cons first more ih =>
    cases more with
    | nil => rfl
    | cons next more =>
      have rest := ih (List.cons_ne_nil _ _)
      simp only [List.cons_append] at rest
      simp only [List.cons_append, joined, rest, List.append_assoc]

theorem dropWhile_eq_self {c : Char} {text : List Char} (h : ∀ first ∈ text.head?, first ≠ c) :
    text.dropWhile (· = c) = text := by
  cases text with
  | nil => rfl
  | cons first rest => simp [h first rfl]

theorem head?_dropWhile_ne {c : Char} {text : List Char} :
    ∀ first ∈ (text.dropWhile (· = c)).head?, first ≠ c := by
  intro first hf
  have other := List.head?_dropWhile_not (· = c) text
  rw [Option.mem_def.mp hf] at other
  simpa using other

theorem exists_dropWhile (c : Char) (text : List Char) :
    ∃ n, text = List.replicate n c ++ text.dropWhile (· = c) := by
  induction text with
  | nil => exact ⟨0, rfl⟩
  | cons d rest ih =>
    by_cases same : d = c
    · obtain ⟨n, whole⟩ := ih
      refine ⟨n + 1, ?_⟩
      rw [List.dropWhile_cons_of_pos (by simpa using same), List.replicate_succ, List.cons_append,
        ← whole, same]
    · refine ⟨0, ?_⟩
      rw [List.dropWhile_cons_of_neg (by simpa using same)]
      rfl

/-- A text is left as it is if it does not start or end with the character. -/
theorem trimEnds_eq_self {c : Char} {text : List Char} (first : ∀ d ∈ text.head?, d ≠ c)
    (last : ∀ d ∈ text.getLast?, d ≠ c) : trimEnds c text = text := by
  rw [trimEnds, dropWhile_eq_self first, dropWhile_eq_self, List.reverse_reverse]
  rw [List.head?_reverse]
  exact last

/-- Only the character is trimmed. -/
theorem exists_trimEnds (c : Char) (text : List Char) :
    ∃ m n, text = List.replicate m c ++ trimEnds c text ++ List.replicate n c := by
  obtain ⟨m, front⟩ := exists_dropWhile c text
  obtain ⟨n, back⟩ := exists_dropWhile c (text.dropWhile (· = c)).reverse
  refine ⟨m, n, ?_⟩
  have core := congrArg List.reverse back
  rw [List.reverse_reverse, List.reverse_append, List.reverse_replicate] at core
  rw [trimEnds, List.append_assoc, ← core, ← front]

theorem getLast?_trimEnds_ne {c : Char} {text : List Char} :
    ∀ last ∈ (trimEnds c text).getLast?, last ≠ c := by
  rw [trimEnds, List.getLast?_reverse]
  exact head?_dropWhile_ne

theorem head?_trimEnds_ne {c : Char} {text : List Char} :
    ∀ first ∈ (trimEnds c text).head?, first ≠ c := by
  -- What is dropped at the end leaves the first character, unless it leaves none.
  obtain ⟨n, back⟩ := exists_dropWhile c (text.dropWhile (· = c)).reverse
  have core := congrArg List.reverse back
  rw [List.reverse_reverse, List.reverse_append, List.reverse_replicate] at core
  intro first hf
  apply @head?_dropWhile_ne c text
  rw [core, List.head?_append]
  exact Option.mem_def.mpr (by rw [← trimEnds, Option.mem_def.mp hf]; rfl)

theorem head?_joined {sep : Char} {text : List Char} (nonempty : text ≠ [])
    (more : List (List Char)) : (joined sep (text :: more)).head? = text.head? := by
  obtain ⟨c, rest, rfl⟩ := List.exists_cons_of_ne_nil nonempty
  cases more with
  | nil => rfl
  | cons next more => rfl

theorem getLast?_joined {sep : Char} {text : List Char} (nonempty : text ≠ [])
    (front : List (List Char)) : (joined sep (front ++ [text])).getLast? = text.getLast? := by
  cases front with
  | nil => rfl
  | cons first more =>
    have last := List.getLast?_eq_some_getLast nonempty
    rw [joined_concat sep (List.cons_ne_nil _ _), List.getLast?_append, List.getLast?_cons, last]
    rfl

/-- There is no separator to trim around texts without one. -/
theorem trimEnds_joined {sep : Char} {texts : List (List Char)}
    (h : ∀ text ∈ texts, text ≠ [] ∧ sep ∉ text) :
    trimEnds sep (joined sep texts) = joined sep texts := by
  by_cases none : texts = []
  · rw [none]
    rfl
  apply trimEnds_eq_self
  · obtain ⟨text, more, rfl⟩ := List.exists_cons_of_ne_nil none
    obtain ⟨nonempty, outside⟩ := h text List.mem_cons_self
    rw [head?_joined nonempty]
    intro c hc same
    exact outside (same ▸ List.mem_of_mem_head? hc)
  · obtain ⟨nonempty, outside⟩ := h (texts.getLast none) (List.getLast_mem none)
    rw [← List.dropLast_concat_getLast none, getLast?_joined nonempty]
    intro c hc same
    exact outside (same ▸ List.mem_of_mem_getLast? hc)

theorem joined_eq_intercalate (sep : Char) (texts : List (List Char)) :
    joined sep texts = [sep].intercalate texts := by
  induction texts with
  | nil => rfl
  | cons text more ih =>
    cases more with
    | nil => simp [joined, List.intercalate]
    | cons next more => simp [joined, ih, List.intercalate]

end TreeCluster.Text
