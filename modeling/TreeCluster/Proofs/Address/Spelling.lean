import TreeCluster.Proofs.Address.Composition
import TreeCluster.Proofs.Address.Grammar

/-! # How a path may be spelled

The port of a segment may be written with a plus sign and with zeros in front, and a path keeps the
text that it was read from.  So the same addresses can be read from several paths.

A port is spelled plainly if it has neither (`Segment.PlainPort`); this is the numeral of its number
and nothing else (`Segment.WritesPort.plain_iff`).  A segment with a plain port is the text of the
address that it writes (`Segment.Writes.plain_iff`), and a path with plain ports is the one through
its addresses.

The ports are all that the addresses do not tell of a path (`addresses_tell_but_ports`). -/

namespace TreeCluster

open Text

/-! ### Numerals -/

namespace Text.Decimal

theorem digitChar_digitValue {c : Char} (h : c.isDigit = true) : digitChar (digitValue c) = c := by
  have least : '0'.toNat ≤ c.toNat := by
    simp only [Char.isDigit, Bool.and_eq_true, decide_eq_true_eq] at h
    exact h.1
  rw [digitChar, digitValue, Nat.add_sub_cancel' least, Char.ofNat_toNat]

theorem digitValue_lt {c : Char} (h : c.isDigit = true) : digitValue c < 10 := by
  simp only [Char.isDigit, Bool.and_eq_true, decide_eq_true_eq] at h
  have most : c.toNat ≤ 57 := h.2
  rw [digitValue, show '0'.toNat = 48 from rfl]
  omega

theorem digits_valueFrom {text : List Char} (nonempty : text ≠ [])
    (all : ∀ c ∈ text, c.isDigit = true) (plain : text.head? = some '0' → text = ['0']) :
    digits (valueFrom 0 text) = text := by
  induction text using List.reverseRecOn with
  | nil => exact absurd rfl nonempty
  | append_singleton front c ih =>
      have last : c.isDigit = true := all c (by simp)
      have small := digitValue_lt last
      have value : valueFrom 0 (front ++ [c]) = valueFrom 0 front * 10 + digitValue c :=
        valueFrom_append 0 front [c]
      cases front with
      | nil =>
          have alone : valueFrom 0 ([] ++ [c]) = digitValue c := by
            rw [value]
            exact Nat.zero_add _
          rw [alone, digits_of_lt small, digitChar_digitValue last, List.nil_append]
      | cons d rest =>
          -- The digits in front have no leading zero either, so their value is not zero.
          have other : d ≠ '0' := by
            rintro rfl
            simpa using plain rfl
          have front : digits (valueFrom 0 (d :: rest)) = d :: rest :=
            ih (List.cons_ne_nil _ _) (fun e he => all e (List.mem_append_left _ he))
              fun zero => absurd (Option.some.inj zero) other
          have positive : valueFrom 0 (d :: rest) ≠ 0 := by
            intro zero
            rw [zero, digits_of_lt (by decide)] at front
            exact other (List.cons.inj front).1.symm
          rw [value, digits_of_not_lt (by omega),
            show (valueFrom 0 (d :: rest) * 10 + digitValue c) / 10 = valueFrom 0 (d :: rest) by omega,
            show (valueFrom 0 (d :: rest) * 10 + digitValue c) % 10 = digitValue c by omega,
            front, digitChar_digitValue last]

theorem eq_singleton_of_head?_digits {n : ℕ} (zero : (digits n).head? = some '0') :
    digits n = ['0'] := by
  cases cut : digits n with
  | nil => exact absurd cut (digits_ne_nil n)
  | cons c rest =>
      rw [cut] at zero
      obtain rfl := Option.some.inj zero
      rw [(digits_eq_cons_zero cut).2]

end Text.Decimal

/-! ### Segments -/

namespace Segment

variable {segment segment' name host port : List Char} {a : NodeAddress}

/-- The port has no plus sign, and no zero in front of other digits. -/
def PlainPort (port : List Char) : Prop :=
  port.head? ≠ some '+' ∧ (port.head? = some '0' → port = ['0'])

/-- The port of the segment, if it has one, is spelled plainly. -/
def Plain (segment : List Char) : Prop :=
  ∀ name host port, Parts segment name host port → PlainPort port

/-- The text behind the last colon. -/
def portText (segment : List Char) : Option (List Char) :=
  (cutLast ':' segment).map Prod.snd

theorem plainPort_digits (n : ℕ) : PlainPort (Decimal.digits n) := by
  refine ⟨fun signed => ?_, Decimal.eq_singleton_of_head?_digits⟩
  cases Decimal.isDigit_of_mem_digits (List.mem_of_head? signed)

/-- The plain spelling of a port is its numeral. -/
theorem WritesPort.plain_iff {number : UInt16} (h : WritesPort port number) :
    PlainPort port ↔ port = Decimal.digits number.toNat := by
  refine ⟨fun plain => ?_, fun same => same ▸ plainPort_digits _⟩
  obtain ⟨digits, rfl | signed, written⟩ := h
  · have value := Decimal.value?_eq_some_iff.mpr written
    rw [Decimal.value?, Option.ite_none_right_eq_some] at value
    rw [← Option.some.inj value.2, Decimal.digits_valueFrom written.1 written.2.1 plain.2]
  · rw [signed] at plain
    exact absurd rfl plain.1

theorem Parts.portText_eq (h : Parts segment name host port) : portText segment = some port := by
  rw [portText, h.whole, ← List.cons_append, ← List.append_assoc,
    cutLast_append _ h.colon_notMem_port]
  rfl

theorem Writes.eq_iff (h : Writes segment a) (h' : Writes segment' a) :
    segment = segment' ↔ portText segment = portText segment' := by
  refine ⟨congrArg portText, fun same => ?_⟩
  obtain ⟨port, parts, -⟩ := h
  obtain ⟨port', parts', -⟩ := h'
  rw [parts.portText_eq, parts'.portText_eq] at same
  rw [parts.whole, parts'.whole, Option.some.inj same]

theorem Writes.legible (h : Writes segment a) (plain : '/' ∉ segment) : a.Legible :=
  NodeAddress.legible_iff.mpr ⟨_, parse_of_writes h plain⟩

/-- What writes an address plainly is its text. -/
theorem Writes.plain_iff (h : Writes segment a) (slash : '/' ∉ segment) :
    Plain segment ↔ segment = a.text.toList := by
  have text := (h.legible slash).parts
  obtain ⟨port, parts, writes⟩ := h
  constructor
  · intro plain
    rw [parts.whole, text.whole, writes.plain_iff.mp (plain _ _ _ parts)]
  · rintro rfl name host port other
    obtain ⟨-, -, rfl⟩ := other.unique text
    exact plainPort_digits _

end Segment

/-! ### Paths -/

namespace NodePath

variable {s t : String} {p q : NodePath} {as bs : List NodeAddress}

/-- Every port along the path is spelled plainly. -/
def Plain (p : NodePath) : Prop :=
  ∀ segment ∈ p.segmentChars, Segment.Plain segment

/-- The texts of the ports along the path. -/
def portTexts (p : NodePath) : List (Option (List Char)) :=
  p.segmentChars.map Segment.portText

/-- The path consists of segments that write these addresses. -/
structure Spells (p : NodePath) (as : List NodeAddress) : Prop where
  whole : p.text.toList = joined separator p.segmentChars
  writes : List.Forall₂ Segment.Writes p.segmentChars as
  plain : ∀ segment ∈ p.segmentChars, separator ∉ segment
  ne : as ≠ []
  read : ∀ fresh, p.addresses fresh = .ok as

theorem exists_spells (h : parse s = .ok p) : ∃ as, p.Spells as := by
  rcases parse_cases (s := s) rfl with ⟨-, refused⟩ | ⟨nonempty, all, accepted⟩ |
      ⟨-, front, bad, back, e, -, -, -, refused⟩
  · rw [refused] at h
    cases h
  · generalize trimEnds separator s.toList = core at nonempty all accepted
    obtain rfl := Except.ok.inj (accepted.symm.trans h)
    have chars : (⟨String.ofList core⟩ : NodePath).segmentChars = pieces separator core := by
      have texts := segments_of_writes all
      exact List.map_injective_iff.mpr (fun _ _ same => String.ofList_inj.mp same) texts
    obtain ⟨as, each, read⟩ := exists_addresses nonempty all
    have divides := divides_pieces separator core
    refine ⟨as, ?_, chars ▸ each, chars ▸ divides.plain, ?_, read⟩
    · rw [chars, String.toList_ofList]
      exact divides.whole
    · rintro rfl
      exact divides.ne (List.forall₂_nil_right_iff.mp each)
  · rw [refused] at h
    cases h

theorem Spells.legible (h : p.Spells as) : ∀ a ∈ as, a.Legible := by
  have each := h.writes
  have plain := h.plain
  clear h
  generalize p.segmentChars = ps at each plain
  induction each with
  | nil => nofun
  | cons writes _ ih =>
      obtain ⟨first, others⟩ := List.forall_mem_cons.mp plain
      exact List.forall_mem_cons.mpr ⟨writes.legible first, ih others⟩

theorem spells_ofAddresses (nonempty : as ≠ []) (legible : ∀ a ∈ as, a.Legible) :
    (ofAddresses as).Spells as where
  whole := by rw [segmentChars_ofAddresses legible, toList_ofAddresses]
  writes := by
    rw [segmentChars_ofAddresses legible, List.forall₂_map_left_iff]
    exact List.forall₂_same.mpr fun a ha => (legible a ha).writes
  plain := by
    rw [segmentChars_ofAddresses legible]
    exact fun segment inside => (usable_segments legible segment inside).2
  ne := nonempty
  read := addresses_of_written (addressForms_ofAddresses nonempty legible)

/-- Paths that spell something are told from each other by their segments. -/
theorem Spells.eq_iff_segmentChars (h : p.Spells as) (h' : q.Spells bs) :
    p = q ↔ p.segmentChars = q.segmentChars := by
  refine ⟨congrArg segmentChars, fun same => ?_⟩
  have chars : p.text.toList = q.text.toList := by rw [h.whole, h'.whole, same]
  exact congrArg NodePath.mk (String.toList_inj.mp chars)

theorem Spells.eq_iff_portTexts (h : p.Spells as) (h' : q.Spells as) :
    p = q ↔ p.portTexts = q.portTexts := by
  rw [h.eq_iff_segmentChars h', portTexts, portTexts]
  have first := h.writes
  have second := h'.writes
  clear h h'
  generalize p.segmentChars = ps, q.segmentChars = qs at first second
  induction first generalizing qs with
  | nil =>
      obtain rfl := List.forall₂_nil_right_iff.mp second
      exact iff_of_true rfl rfl
  | cons writes _ ih =>
      cases second with
      | cons writes' rest =>
          rw [List.map_cons, List.map_cons, List.cons.injEq, List.cons.injEq]
          exact and_congr (writes.eq_iff writes') (ih _ rest)

/-- A path is spelled plainly if it is the one through its addresses, and not otherwise. -/
theorem Spells.plain_iff (h : p.Spells as) : p.Plain ↔ ofAddresses as = p := by
  rw [eq_comm, h.eq_iff_segmentChars (spells_ofAddresses h.ne h.legible),
    segmentChars_ofAddresses h.legible, Plain]
  have each := h.writes
  have plain := h.plain
  clear h
  generalize p.segmentChars = ps at each plain
  induction each with
  | nil => exact iff_of_true nofun rfl
  | cons writes _ ih =>
      obtain ⟨first, others⟩ := List.forall_mem_cons.mp plain
      rw [List.forall_mem_cons, List.map_cons, List.cons.injEq]
      exact and_congr (writes.plain_iff first) (ih others)

/-- **The addresses tell a parsed path but for the spelling of its ports.**  For two paths that were
read from texts:

* they are the same if and only if they have the same addresses and write their ports alike;
* a path is the one through its addresses if and only if its ports are spelled plainly, so paths
  with plain ports are the same if and only if their addresses are;
* in any case the path through its addresses is spelled plainly, can be read from its text, and has
  these addresses; it is the same for both paths if and only if their addresses are. -/
theorem addresses_tell_but_ports (hp : parse s = .ok p) (hq : parse t = .ok q) :
    ∃ as bs, (∀ fresh, p.addresses fresh = .ok as) ∧ (∀ fresh, q.addresses fresh = .ok bs) ∧
      (p = q ↔ as = bs ∧ p.portTexts = q.portTexts) ∧
      (ofAddresses as = p ↔ p.Plain) ∧
      (p.Plain → q.Plain → (p = q ↔ as = bs)) ∧
      ((ofAddresses as).Plain ∧ parse (ofAddresses as).text = .ok (ofAddresses as) ∧
        ∀ fresh, (ofAddresses as).addresses fresh = .ok as) ∧
      (ofAddresses as = ofAddresses bs ↔ as = bs) := by
  obtain ⟨as, spells⟩ := exists_spells hp
  obtain ⟨bs, spells'⟩ := exists_spells hq
  have same : p = q → as = bs := by
    rintro rfl
    exact Except.ok.inj ((spells.read fun _ => "").symm.trans (spells'.read fun _ => ""))
  have own := spells_ofAddresses spells.ne spells.legible
  refine ⟨as, bs, spells.read, spells'.read, ⟨fun he => ⟨same he, congrArg portTexts he⟩, ?_⟩,
    spells.plain_iff.symm, fun plain plain' => ⟨same, ?_⟩,
    ⟨own.plain_iff.mpr rfl, parse_ofAddresses spells.ne spells.legible, own.read⟩,
    ofAddresses_inj spells.ne spells.legible spells'.ne spells'.legible⟩
  · rintro ⟨rfl, ports⟩
    exact (spells.eq_iff_portTexts spells').mpr ports
  · rintro rfl
    rw [← spells.plain_iff.mp plain, spells'.plain_iff.mp plain']

/-- The same two members, with ports that are written at length in one of the paths. -/
theorem addresses_tell_but_ports_of_two_members :
    let p : NodePath := ⟨"a@h:1/b@h:2"⟩
    let q : NodePath := ⟨"a@h:+1/b@h:002"⟩
    let as : List NodeAddress := [⟨"a", "h", 1⟩, ⟨"b", "h", 2⟩]
    parse "/a@h:1/b@h:2/" = .ok p ∧ parse "a@h:+1/b@h:002//" = .ok q ∧
      (∀ fresh, p.addresses fresh = .ok as) ∧ (∀ fresh, q.addresses fresh = .ok as) ∧
      p ≠ q ∧ p.portTexts ≠ q.portTexts ∧ ofAddresses as = p ∧ p.Plain ∧ ¬(p.Plain ∧ q.Plain) := by
  intro p q as
  have hp : parse "/a@h:1/b@h:2/" = .ok p := by decide +kernel
  have hq : parse "a@h:+1/b@h:002//" = .ok q := by decide +kernel
  obtain ⟨as', bs', read, read', told, plain, both, -⟩ := addresses_tell_but_ports hp hq
  obtain rfl : as' = as := Except.ok.inj ((read fun _ => "").symm.trans (by decide +kernel))
  obtain rfl : bs' = as := Except.ok.inj ((read' fun _ => "").symm.trans (by decide +kernel))
  have other : p ≠ q := by decide
  have own : ofAddresses as = p := by decide +kernel
  exact ⟨hp, hq, read, read', other, fun ports => other (told.mpr ⟨rfl, ports⟩), own,
    plain.mp own, fun ⟨h, h'⟩ => other ((both h h').mpr rfl)⟩

/-- One member, spelled in two ways that are both accepted. -/
theorem exists_two_spellings :
    ∃ s t p q as, parse s = .ok p ∧ parse t = .ok q ∧
      (∀ fresh, p.addresses fresh = .ok as ∧ q.addresses fresh = .ok as) ∧
      p ≠ q ∧ ofAddresses as ≠ q :=
  ⟨"a@h:1", "a@h:+1", ⟨"a@h:1"⟩, ⟨"a@h:+1"⟩, [⟨"a", "h", 1⟩], rfl, rfl, fun _ => ⟨rfl, rfl⟩,
    by decide, by decide +kernel⟩

end NodePath
end TreeCluster
