import Mathlib
import TreeCluster.Proofs.Address.Segment

/-! # Legible addresses

An address is read back from its text if its name holds neither `@` nor `/`, its host holds no
`/`, and neither is empty (`NodeAddress.Legible`, `Legible.parse_text`).  These are the addresses
that are read from some text with a name (`NodeAddress.legible_iff`), and those that are read back
from their own (`NodeAddress.parse_text_iff_legible`).

The segments of a path through such addresses are their texts, so the path is read back as it was
made (`NodePath.parse_ofAddresses`), and what is read from it are the addresses along it, the last
one of them, and the path of its leader (`addressForms_ofAddresses`, `nodeForm_ofAddresses`,
`leader_ofAddresses`). -/

namespace TreeCluster

open Text

/-- The name and the host are not empty and hold no separator that the reader looks for in them. -/
structure NodeAddress.Legible (a : NodeAddress) : Prop where
  name_ne : a.name ≠ ""
  at_notMem_name : '@' ∉ a.name.toList
  slash_notMem_name : '/' ∉ a.name.toList
  host_ne : a.host ≠ ""
  slash_notMem_host : '/' ∉ a.host.toList

namespace NodeAddress

theorem toList_text (a : NodeAddress) :
    a.text.toList =
      a.name.toList ++ '@' :: (a.host.toList ++ ':' :: Decimal.digits a.port.toNat) := by
  simp [text, endpoint, Decimal.text]

theorem text_ne (a : NodeAddress) : a.text.toList ≠ [] := by
  simp [toList_text]

variable {a : NodeAddress}

theorem Legible.slash_notMem_text (h : a.Legible) : '/' ∉ a.text.toList := by
  have digits := Decimal.notMem_digits (by decide : '/'.isDigit = false) a.port.toNat
  simp [toList_text, h.slash_notMem_name, h.slash_notMem_host, digits]

theorem Legible.parts (h : a.Legible) :
    Segment.Parts a.text.toList a.name.toList a.host.toList (Decimal.digits a.port.toNat) where
  whole := a.toList_text
  name_ne := by simpa using h.name_ne
  at_notMem_name := h.at_notMem_name
  host_ne := by simpa using h.host_ne
  colon_notMem_port := Decimal.notMem_digits (by decide) a.port.toNat

theorem Legible.writes (h : a.Legible) : Segment.Writes a.text.toList a :=
  ⟨_, h.parts, _, .inl rfl, Decimal.value?_eq_some_iff.mp (Decimal.value?_digits a.port.toNat)⟩

/-- A legible address is read back from its text. -/
theorem Legible.parse_text (h : a.Legible) : AddressForm.parse a.text = .ok a.written := by
  have read := Segment.parse_of_writes h.writes h.slash_notMem_text
  rwa [String.ofList_toList] at read

end NodeAddress

/-! ### What is read from a text -/

namespace AddressForm

variable {form : AddressForm} {text fresh : String}

/-- A name that a reader finds in front of an endpoint. -/
def LegibleName (name : String) : Prop :=
  name ≠ "" ∧ '@' ∉ name.toList ∧ '/' ∉ name.toList

theorem legibleName_text (n : ℕ) : LegibleName (Decimal.text n) := by
  have absent {c : Char} (h : c.isDigit = false) : c ∉ (Decimal.text n).toList := by
    simpa [Decimal.text] using Decimal.notMem_digits h n
  refine ⟨?_, absent (by decide), absent (by decide)⟩
  simp [Decimal.text, Decimal.digits_ne_nil]

theorem exists_of_parse (h : parse text = .ok form) :
    '/' ∉ text.toList ∧ form.host ≠ "" ∧ ∃ endpoint port,
      cutName text.toList = some (form.name.map String.toList, endpoint) ∧
        endpoint = form.host.toList ++ ':' :: port := by
  simp only [parse] at h
  split at h
  · cases h
  next usable =>
  refine ⟨(not_or.mp usable).2, ?_⟩
  split at h
  · cases h
  next name endpoint named =>
  split at h
  · cases h
  · cases h
  next host port nonempty addressed =>
  split at h
  · cases h
  obtain rfl := Except.ok.inj h
  refine ⟨by simpa using nonempty, endpoint, port, ?_, ?_⟩
  · rw [named]
    cases name <;> simp
  · rw [String.toList_ofList]
    exact (eq_append_of_cutLast addressed).1

theorem host_of_parse (h : parse text = .ok form) : form.host ≠ "" ∧ '/' ∉ form.host.toList := by
  obtain ⟨slash, host, endpoint, port, cut, rfl⟩ := exists_of_parse h
  refine ⟨host, fun inside => slash ?_⟩
  rcases cutName_cases cut with ⟨-, -, whole⟩ | ⟨front, -, -, -, whole⟩
  · simp [whole, inside]
  · simp [whole, inside]

theorem name_ne_none_of_parse (h : parse text = .ok form) (named : '@' ∈ text.toList) :
    form.name ≠ none := by
  intro unnamed
  obtain ⟨-, -, endpoint, port, cut, -⟩ := exists_of_parse h
  rw [unnamed] at cut
  rcases cutName_cases cut with ⟨-, absent, -⟩ | ⟨front, some, -⟩
  · exact absent named
  · cases some

theorem name_of_parse (h : parse text = .ok form) {name : String} (named : form.name = some name) :
    LegibleName name := by
  obtain ⟨slash, -, endpoint, port, cut, rfl⟩ := exists_of_parse h
  rw [named] at cut
  rcases cutName_cases cut with ⟨none, -⟩ | ⟨front, some, nonempty, outside, whole⟩
  · cases none
  · obtain rfl := Option.some.inj some
    refine ⟨by simpa using nonempty, outside, fun inside => slash ?_⟩
    rw [whole]
    exact List.mem_append_left _ inside

/-- What is read from a text is legible, provided that the fresh name is if none is written. -/
theorem legible_resolve (h : parse text = .ok form) (fallback : form.name = none → LegibleName fresh) :
    (form.resolve fresh).Legible := by
  obtain ⟨host, slash_host⟩ := host_of_parse h
  have name : LegibleName (form.name.getD fresh) := by
    cases named : form.name with
    | none => exact fallback named
    | some name => exact name_of_parse h named
  obtain ⟨name, at_name, slash_name⟩ := name
  exact ⟨name, at_name, slash_name, host, slash_host⟩

end AddressForm

/-- The legible addresses are those that are read from some text with a name. -/
theorem NodeAddress.legible_iff {a : NodeAddress} :
    a.Legible ↔ ∃ text, AddressForm.parse text = .ok a.written := by
  constructor
  · intro h
    exact ⟨a.text, h.parse_text⟩
  · rintro ⟨text, read⟩
    exact @AddressForm.legible_resolve a.written text "" read nofun

theorem NodeAddress.exists_of_parse {fresh text : String} {a : NodeAddress}
    (h : NodeAddress.parse fresh text = .ok a) :
    ∃ form, AddressForm.parse text = .ok form ∧ form.resolve fresh = a := by
  rw [NodeAddress.parse] at h
  cases read : AddressForm.parse text with
  | error e =>
      rw [read] at h
      cases h
  | ok form =>
      rw [read] at h
      exact ⟨form, rfl, Except.ok.inj h⟩

/-- **An address and its text.**

* An address is read back from its text if and only if it is legible.
* Whatever address is read from some text is legible, provided that the fresh names are.  So it is
  read back from its own text. -/
theorem NodeAddress.parse_text_iff_legible :
    (∀ (fresh : String) (a : NodeAddress), NodeAddress.parse fresh a.text = .ok a ↔ a.Legible) ∧
    ∀ fresh : String, AddressForm.LegibleName fresh → ∀ (text : String) (a : NodeAddress),
      NodeAddress.parse fresh text = .ok a →
        a.Legible ∧ ∀ other : String, NodeAddress.parse other a.text = .ok a := by
  have readBack {a : NodeAddress} (h : a.Legible) (fresh : String) :
      NodeAddress.parse fresh a.text = .ok a := by
    rw [NodeAddress.parse, h.parse_text]
    rfl
  refine ⟨fun fresh a => ⟨fun h => ?_, fun h => readBack h fresh⟩, fun fresh generated text a h => ?_⟩
  · obtain ⟨form, read, rfl⟩ := exists_of_parse h
    have named : '@' ∈ (form.resolve fresh).text.toList := by simp [toList_text]
    exact AddressForm.legible_resolve read fun unnamed =>
      absurd unnamed (AddressForm.name_ne_none_of_parse read named)
  · obtain ⟨form, read, rfl⟩ := exists_of_parse h
    have legible := AddressForm.legible_resolve read fun _ => generated
    exact ⟨legible, readBack legible⟩

/-- A text without a name, with a colon in its host and a port that is written at length. -/
theorem NodeAddress.parse_text_iff_legible_of_unnamed :
    let a : NodeAddress := ⟨"5f3a90c1", "h:x", 7⟩
    AddressForm.LegibleName "5f3a90c1" ∧ NodeAddress.parse "5f3a90c1" "h:x:+07" = .ok a ∧
      a.text = "5f3a90c1@h:x:7" ∧ a.Legible ∧ NodeAddress.parse "other" a.text = .ok a := by
  intro a
  have generated : AddressForm.LegibleName "5f3a90c1" := ⟨by decide, by decide, by decide⟩
  have read : NodeAddress.parse "5f3a90c1" "h:x:+07" = .ok a := rfl
  obtain ⟨legible, readBack⟩ := parse_text_iff_legible.2 "5f3a90c1" generated "h:x:+07" a read
  exact ⟨generated, read, by decide +kernel, legible, readBack "other"⟩

/-! ### Paths -/

namespace NodePath

variable {as : List NodeAddress} {a : NodeAddress}

theorem toList_ofAddresses (as : List NodeAddress) :
    (ofAddresses as).text.toList = joined separator (as.map fun a => a.text.toList) := by
  rw [joined_eq_intercalate, ofAddresses, String.toList_intercalate, List.map_map]
  rfl

theorem toList_ofAddresses_concat (nonempty : as ≠ []) (a : NodeAddress) :
    (ofAddresses (as ++ [a])).text.toList =
      (ofAddresses as).text.toList ++ separator :: a.text.toList := by
  rw [toList_ofAddresses, List.map_append, toList_ofAddresses]
  exact joined_concat _ (by simpa using nonempty) _

theorem usable_segments (h : ∀ a ∈ as, a.Legible) :
    ∀ text ∈ as.map fun a => a.text.toList, text ≠ [] ∧ separator ∉ text := by
  intro text ht
  obtain ⟨a, ha, rfl⟩ := List.mem_map.mp ht
  exact ⟨a.text_ne, (h a ha).slash_notMem_text⟩

theorem pieces_ofAddresses (nonempty : as ≠ []) (h : ∀ a ∈ as, a.Legible) :
    pieces separator (ofAddresses as).text.toList = as.map fun a => a.text.toList := by
  rw [toList_ofAddresses, pieces_joined (by simpa using nonempty)]
  exact fun text ht => (usable_segments h text ht).2

theorem segmentChars_ofAddresses (h : ∀ a ∈ as, a.Legible) :
    (ofAddresses as).segmentChars = as.map fun a => a.text.toList := by
  rw [segmentChars]
  by_cases nonempty : as = []
  · rw [nonempty]
    rfl
  · rw [pieces_ofAddresses nonempty h, List.filter_eq_self]
    intro text ht
    exact decide_eq_true (usable_segments h text ht).1

theorem segments_ofAddresses (h : ∀ a ∈ as, a.Legible) :
    (ofAddresses as).segments = as.map NodeAddress.text := by
  simp [segments, segmentChars_ofAddresses h]

theorem depth_ofAddresses (h : ∀ a ∈ as, a.Legible) : (ofAddresses as).depth = as.length := by
  rw [depth, segmentChars_ofAddresses h, List.length_map]

/-- The last address of a path of legible ones is read back. -/
theorem nodeForm_ofAddresses (h : ∀ b ∈ as ++ [a], b.Legible) :
    (ofAddresses (as ++ [a])).nodeForm = .ok a.written := by
  have last : (ofAddresses (as ++ [a])).segments.getLast? = some a.text := by
    simp [segments_ofAddresses h]
  rw [nodeForm, last]
  exact (h a (by simp)).parse_text

theorem mapM_parse_text (h : ∀ a ∈ as, a.Legible) :
    (as.map NodeAddress.text).mapM AddressForm.parse = .ok (as.map NodeAddress.written) := by
  have writes : List.Forall₂ Segment.Writes (as.map fun a => a.text.toList) as :=
    List.forall₂_map_left_iff.mpr (List.forall₂_same.mpr fun a ha => (h a ha).writes)
  have texts : (as.map fun a => a.text.toList).map String.ofList = as.map NodeAddress.text := by
    simp [Function.comp_def]
  rw [← texts]
  exact Segment.mapM_parse_of_writes writes fun text ht => (usable_segments h text ht).2

theorem ofAddresses_ne (nonempty : as ≠ []) (h : ∀ a ∈ as, a.Legible) :
    (ofAddresses as).text.toList ≠ [] := by
  intro none
  have empty : [] ∈ as.map fun a => a.text.toList := by
    rw [← pieces_ofAddresses nonempty h, none]
    exact List.mem_singleton_self []
  exact (usable_segments h [] empty).1 rfl

/-- All addresses of a path of legible ones are read back. -/
theorem addressForms_ofAddresses (nonempty : as ≠ []) (h : ∀ a ∈ as, a.Legible) :
    (ofAddresses as).addressForms = .ok (as.map NodeAddress.written) := by
  have full : (ofAddresses as).isEmpty = false := by
    simpa [isEmpty] using ofAddresses_ne nonempty h
  rw [addressForms, full, segments_ofAddresses h]
  exact mapM_parse_text h

theorem addresses_of_written {p : NodePath}
    (h : p.addressForms = .ok (as.map NodeAddress.written)) (fresh : ℕ → String) :
    p.addresses fresh = .ok as := by
  rw [addresses, h]
  refine congrArg Except.ok (List.ext_getElem (by simp) fun k _ _ => ?_)
  simp [AddressForm.resolve, NodeAddress.written]

theorem checkSegments_text (h : ∀ a ∈ as, a.Legible) :
    checkSegments (as.map fun a => a.text.toList) = .ok () := by
  refine Segment.checkSegments_of_writes (fun text ht => ?_) fun text ht =>
    (usable_segments h text ht).2
  obtain ⟨a, ha, rfl⟩ := List.mem_map.mp ht
  exact ⟨a, (h a ha).writes⟩

theorem trimEnds_ofAddresses (h : ∀ a ∈ as, a.Legible) :
    trimEnds separator (ofAddresses as).text.toList = (ofAddresses as).text.toList := by
  rw [toList_ofAddresses, trimEnds_joined (usable_segments h)]

/-- A path of legible addresses is read back from its text. -/
theorem parse_ofAddresses (nonempty : as ≠ []) (h : ∀ a ∈ as, a.Legible) :
    parse (ofAddresses as).text = .ok (ofAddresses as) := by
  simp only [parse, trimEnds_ofAddresses h, ofAddresses_ne nonempty h, if_false,
    pieces_ofAddresses nonempty h, checkSegments_text h, String.ofList_toList]

/-- A single address has no leader, the others have the path to the last before them. -/
theorem leader_ofAddresses (h : ∀ b ∈ as ++ [a], b.Legible) :
    (ofAddresses (as ++ [a])).leader = if as = [] then none else some (ofAddresses as) := by
  have outside : separator ∉ a.text.toList := (h a (by simp)).slash_notMem_text
  rw [leader, trimEnds_ofAddresses h]
  by_cases nonempty : as = []
  · rw [nonempty, if_pos rfl, toList_ofAddresses]
    exact Option.map_eq_none_iff.mpr (cutLast_eq_none outside)
  · rw [toList_ofAddresses_concat nonempty, cutLast_append _ outside, if_neg nonempty]
    exact congrArg (fun text => some (NodePath.mk text)) String.ofList_toList

end NodePath
end TreeCluster
