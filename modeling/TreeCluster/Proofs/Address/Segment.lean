import Mathlib
import TreeCluster.Path

/-! # The grammar of a segment

A segment of a path is written `name@host:port`.  The name ends at the first `@` and the host at the
last colon, and neither is empty (`Parts`).  The port is a decimal number below 65536, after an
optional plus sign (`WritesPort`).

What has these parts is read by its port (`parse_of_parts`), and what holds an `@` but has no such
parts is malformed (`parse_of_not_parts`).  So the check of a segment accepts exactly what writes an
address, and blames the port of what is wrong in nothing else (`checkSegment_cases`). -/

namespace TreeCluster

/-- The address as it is written out, with its name. -/
def NodeAddress.written (a : NodeAddress) : AddressForm :=
  ⟨some a.name, a.host, a.port⟩

theorem NodeAddress.written_inj {a b : NodeAddress} : a.written = b.written ↔ a = b := by
  cases a
  cases b
  simp [written]

open Text

/-! ### What the reader of addresses is made of -/

theorem Text.Decimal.valueFrom_eq (start : ℕ) (text : List Char) :
    valueFrom start text =
      start * 10 ^ text.length + Nat.ofDigits 10 (text.reverse.map digitValue) := by
  induction text generalizing start with
  | nil =>
      have value : valueFrom start [] = start := rfl
      simp [value]
  | cons c rest ih =>
      have value : valueFrom start (c :: rest) =
          valueFrom (start * 10 + digitValue c) rest := rfl
      rw [value, ih, List.reverse_cons, List.map_append, Nat.ofDigits_append, List.length_map,
        List.length_reverse, List.length_cons, List.map_singleton, Nat.ofDigits_singleton]
      ring

theorem Text.Decimal.value?_eq_some_iff {text : List Char} {n : ℕ} :
    value? text = some n ↔ text ≠ [] ∧ (∀ c ∈ text, c.isDigit = true) ∧
      Nat.ofDigits 10 (text.reverse.map digitValue) = n := by
  rw [value?, Option.ite_none_right_eq_some, List.all_eq_true, Option.some.injEq,
    valueFrom_eq, Nat.zero_mul, Nat.zero_add, and_assoc]

theorem AddressForm.cutName_cases {text endpoint : List Char} {name : Option (List Char)}
    (h : cutName text = some (name, endpoint)) :
    (name = none ∧ '@' ∉ text ∧ text = endpoint) ∨
    ∃ front, name = some front ∧ front ≠ [] ∧ '@' ∉ front ∧ text = front ++ '@' :: endpoint := by
  unfold cutName at h
  split at h
  · cases h
  · next nonempty cut =>
    cases h
    obtain ⟨whole, outside⟩ := eq_append_of_cutFirst cut
    exact .inr ⟨_, rfl, nonempty, outside, whole⟩
  · next absent =>
    cases h
    exact .inl ⟨rfl, notMem_of_cutFirst_eq_none absent, rfl⟩

namespace Segment

variable {segment name host port : List Char} {a : NodeAddress}

/-- The segment consists of a name, `@`, a host, a colon and the text of a port. -/
structure Parts (segment name host port : List Char) : Prop where
  whole : segment = name ++ '@' :: (host ++ ':' :: port)
  name_ne : name ≠ []
  /-- It is the first `@`. -/
  at_notMem_name : '@' ∉ name
  host_ne : host ≠ []
  /-- It is the last colon. -/
  colon_notMem_port : ':' ∉ port

/-- The number is written in decimal digits, after an optional plus sign. -/
def WritesPort (text : List Char) (number : UInt16) : Prop :=
  ∃ digits, (text = digits ∨ text = '+' :: digits) ∧ digits ≠ [] ∧
    (∀ c ∈ digits, c.isDigit = true) ∧
    Nat.ofDigits 10 (digits.reverse.map Decimal.digitValue) = number.toNat

/-- The segment is the address, written with its name. -/
def Writes (segment : List Char) (a : NodeAddress) : Prop :=
  ∃ port, Parts segment a.name.toList a.host.toList port ∧ WritesPort port a.port

/-- What is wrong with a segment that writes no address. -/
inductive Fault (segment : List Char) : AddressError → Prop where
  /-- Only the port is wrong. -/
  | port {name host port : List Char} (parts : Parts segment name host port)
      (wrong : ∀ number, ¬WritesPort port number) :
      Fault segment (.invalidPort (String.ofList segment))
  | form (none : ∀ name host port, ¬Parts segment name host port) :
      Fault segment (.malformedSegment (String.ofList segment))

/-! ### Parts -/

namespace Parts

theorem cutFirst_eq (h : Parts segment name host port) :
    cutFirst '@' segment = some (name, host ++ ':' :: port) := by
  rw [h.whole]
  exact cutFirst_append h.at_notMem_name _

theorem cutLast_eq (h : Parts segment name host port) :
    cutLast ':' (host ++ ':' :: port) = some (host, port) :=
  cutLast_append host h.colon_notMem_port

theorem unique {name' host' port' : List Char} (h : Parts segment name host port)
    (h' : Parts segment name' host' port') : name = name' ∧ host = host' ∧ port = port' := by
  obtain ⟨rfl, endpoint⟩ := Prod.mk.inj (Option.some.inj (h.cutFirst_eq.symm.trans h'.cutFirst_eq))
  have back := h.cutLast_eq
  rw [endpoint] at back
  obtain ⟨rfl, rfl⟩ := Prod.mk.inj (Option.some.inj (back.symm.trans h'.cutLast_eq))
  exact ⟨rfl, rfl, rfl⟩

theorem cutName_eq (h : Parts segment name host port) :
    AddressForm.cutName segment = some (some name, host ++ ':' :: port) := by
  obtain ⟨c, cs, rfl⟩ := List.exists_cons_of_ne_nil h.name_ne
  rw [AddressForm.cutName, h.cutFirst_eq]

end Parts

theorem parts_of_cuts {endpoint : List Char}
    (named : AddressForm.cutName segment = some (some name, endpoint))
    (addressed : cutLast ':' endpoint = some (host, port)) (host_ne : host ≠ []) :
    Parts segment name host port := by
  obtain ⟨rfl, last⟩ := eq_append_of_cutLast addressed
  rcases AddressForm.cutName_cases named with ⟨unnamed, -⟩ | ⟨front, same, name_ne, first, whole⟩
  · cases unnamed
  · cases same
    exact ⟨whole, name_ne, first, host_ne, last⟩

/-! ### Ports -/

theorem readPort_eq_some_iff {text : List Char} {number : UInt16} :
    AddressForm.readPort text = some number ↔ WritesPort text number := by
  have small (n : ℕ) : (if n < 65536 then some (UInt16.ofNat n) else none) = some number ↔
      n = number.toNat := by
    constructor
    · intro h
      obtain ⟨lt, same⟩ := Option.ite_none_right_eq_some.mp h
      rw [← Option.some.inj same, UInt16.toNat_ofNat_of_lt' lt]
    · rintro rfl
      rw [if_pos number.toNat_lt, UInt16.ofNat_toNat]
  have read (digits : List Char) :
      ((Decimal.value? digits).bind fun n => if n < 65536 then some (UInt16.ofNat n) else none) =
        some number ↔ digits ≠ [] ∧ (∀ c ∈ digits, c.isDigit = true) ∧
          Nat.ofDigits 10 (digits.reverse.map Decimal.digitValue) = number.toNat := by
    simp only [Option.bind_eq_some_iff, small, exists_eq_right, Decimal.value?_eq_some_iff]
  unfold AddressForm.readPort WritesPort
  split
  · next digits =>
    refine (read digits).trans ⟨fun h => ⟨digits, .inr rfl, h⟩, ?_⟩
    rintro ⟨_, rfl | same, nonempty, all, value⟩
    · -- A plus sign is no digit.
      cases all '+' List.mem_cons_self
    · obtain rfl := (List.cons.inj same).2
      exact ⟨nonempty, all, value⟩
  · next unsigned =>
    refine (read text).trans ⟨fun h => ⟨text, .inl rfl, h⟩, ?_⟩
    rintro ⟨digits, rfl | signed, h⟩
    · exact h
    · exact absurd signed (unsigned digits)

/-! ### What is read -/

/-- A text with the parts of a segment is read as its port allows. -/
theorem parse_of_parts (h : Parts segment name host port) (plain : '/' ∉ segment) :
    AddressForm.parse (String.ofList segment) =
      match AddressForm.readPort port with
      | none => .error (.invalidPort (String.ofList segment))
      | some number => .ok ⟨some (String.ofList name), String.ofList host, number⟩ := by
  have usable : ¬(segment = [] ∨ '/' ∈ segment) := by
    rw [not_or]
    refine ⟨?_, plain⟩
    rw [h.whole]
    simp
  have back := h.cutLast_eq
  obtain ⟨c, cs, rfl⟩ := List.exists_cons_of_ne_nil h.host_ne
  simp only [AddressForm.parse, String.toList_ofList, usable, if_false, h.cutName_eq, back]
  rfl

/-- A text with an `@` but without the parts of a segment is malformed. -/
theorem parse_of_not_parts (named : '@' ∈ segment)
    (h : ∀ name host port, ¬Parts segment name host port) :
    AddressForm.parse (String.ofList segment) = .error (.malformedSegment (String.ofList segment)) := by
  simp only [AddressForm.parse, String.toList_ofList]
  split
  · rfl
  split
  · rfl
  next name endpoint cut =>
  split
  · rfl
  · rfl
  next host port host_ne addressed =>
  cases name with
  | none =>
      rcases AddressForm.cutName_cases cut with ⟨-, absent, -⟩ | ⟨front, some, -⟩
      · exact absurd named absent
      · cases some
  | some name => exact absurd (parts_of_cuts cut addressed host_ne) (h name host port)

theorem parse_of_writes (h : Writes segment a) (plain : '/' ∉ segment) :
    AddressForm.parse (String.ofList segment) = .ok a.written := by
  obtain ⟨port, parts, writes⟩ := h
  rw [parse_of_parts parts plain, readPort_eq_some_iff.mpr writes]
  simp only [String.ofList_toList, NodeAddress.written]

/-! ### What is checked -/

theorem Fault.not_writes {e : AddressError} (h : Fault segment e) : ¬Writes segment a := by
  rintro ⟨text, parts, writes⟩
  cases h with
  | port parts' wrong =>
      obtain ⟨-, -, rfl⟩ := parts'.unique parts
      exact wrong _ writes
  | form none => exact none _ _ _ parts

/-- A segment writes an address and passes, or it fails by what is wrong with it. -/
theorem checkSegment_cases (plain : '/' ∉ segment) :
    (∃ a, Writes segment a ∧ NodePath.checkSegment segment = .ok ()) ∨
      ∃ e, Fault segment e ∧ NodePath.checkSegment segment = .error e := by
  by_cases shaped : ∃ name host port, Parts segment name host port
  · obtain ⟨name, host, port, parts⟩ := shaped
    have named : '@' ∈ segment := by
      rw [parts.whole]
      simp
    rw [NodePath.checkSegment, if_neg (not_not.mpr named), parse_of_parts parts plain]
    cases read : AddressForm.readPort port with
    | none =>
        refine .inr ⟨_, .port parts fun number writes => ?_, rfl⟩
        rw [readPort_eq_some_iff.mpr writes] at read
        cases read
    | some number =>
        refine .inl ⟨⟨String.ofList name, String.ofList host, number⟩, ⟨port, ?_, ?_⟩, rfl⟩
        · simpa only [String.toList_ofList] using parts
        · exact readPort_eq_some_iff.mp read
  · simp only [not_exists] at shaped
    refine .inr ⟨_, .form shaped, ?_⟩
    by_cases named : '@' ∈ segment
    · rw [NodePath.checkSegment, if_neg (not_not.mpr named), parse_of_not_parts named shaped]
      rfl
    · exact if_pos named

/-! ### Segments one after the other -/

variable {segments : List (List Char)} {as : List NodeAddress}

theorem checkSegments_cases (plain : ∀ segment ∈ segments, '/' ∉ segment) :
    ((∀ segment ∈ segments, ∃ a, Writes segment a) ∧ NodePath.checkSegments segments = .ok ()) ∨
      ∃ front bad back e, segments = front ++ bad :: back ∧
        (∀ segment ∈ front, ∃ a, Writes segment a) ∧ Fault bad e ∧
        NodePath.checkSegments segments = .error e := by
  induction segments with
  | nil => exact .inl ⟨nofun, rfl⟩
  | cons segment rest ih =>
      obtain ⟨first, others⟩ := List.forall_mem_cons.mp plain
      rw [NodePath.checkSegments]
      rcases checkSegment_cases first with ⟨a, writes, passed⟩ | ⟨e, fault, failed⟩
      · rw [passed]
        rcases ih others with ⟨all, passes⟩ | ⟨front, bad, back, e, rfl, all, fault, fails⟩
        · exact .inl ⟨List.forall_mem_cons.mpr ⟨⟨a, writes⟩, all⟩, passes⟩
        · exact .inr ⟨segment :: front, bad, back, e, rfl,
            List.forall_mem_cons.mpr ⟨⟨a, writes⟩, all⟩, fault, fails⟩
      · rw [failed]
        exact .inr ⟨[], segment, rest, e, rfl, nofun, fault, rfl⟩

theorem checkSegments_of_writes (all : ∀ segment ∈ segments, ∃ a, Writes segment a)
    (plain : ∀ segment ∈ segments, '/' ∉ segment) :
    NodePath.checkSegments segments = .ok () := by
  rcases checkSegments_cases plain with ⟨-, passes⟩ | ⟨front, bad, back, e, rfl, -, fault, -⟩
  · exact passes
  · obtain ⟨a, writes⟩ := all bad (by simp)
    exact absurd writes fault.not_writes

theorem mapM_parse_of_writes (all : List.Forall₂ Writes segments as)
    (plain : ∀ segment ∈ segments, '/' ∉ segment) :
    (segments.map String.ofList).mapM AddressForm.parse = .ok (as.map NodeAddress.written) := by
  induction all with
  | nil => rfl
  | @cons segment a rest as writes _ ih =>
      obtain ⟨first, others⟩ := List.forall_mem_cons.mp plain
      rw [List.map_cons, List.mapM_cons, parse_of_writes writes first, ih others]
      rfl

end Segment
end TreeCluster
