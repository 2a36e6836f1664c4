import TreeCluster.Proofs.Json.Recovered

/-! # Records read back without the members that hold the values of the blank record

A field that may be left out of a record keeps the value it has in the blank record.  So members
that hold those values can be taken out of the text: any set of them, and those of the records
inside as well.  A set of members is given by their paths, from the outermost key to their own.

The reader *restores* the values of its type if it recovers each one from what is left
(`Restores`).  Plain values have no members and are restored if they are recovered.  A record that
is laid out in parts of which each is restored is restored itself (`Schema.restores`): of the
parts that are left out the blank record already has the values. -/

namespace TreeCluster.Json

variable {α σ : Type}

/-! ### Paths into a value -/

/-- The value at the end of a path of keys. -/
def Value.get? : Value → List String → Option Value
  | v, [] => some v
  | .object members, key :: path => (members.lookup key).bind fun v => v.get? path
  | _, _ :: _ => none

/-- The paths of a set that start with the key, from there on. -/
def pathsBelow (omitted : List String → Bool) (key : String) : List String → Bool :=
  fun path => omitted (key :: path)

mutual

/-- The value without its members at the paths of a set, whichever objects they are in. -/
def Value.without (omitted : List String → Bool) : Value → Value
  | .object members => .object (membersWithout omitted members)
  | v => v

/-- The members that are left, each without those inside it. -/
def membersWithout (omitted : List String → Bool) :
    List (String × Value) → List (String × Value)
  | [] => []
  | (key, v) :: more =>
    if omitted [key] then membersWithout omitted more
    else (key, v.without (pathsBelow omitted key)) :: membersWithout omitted more

end

/-- The two values are the same at every path of a set. -/
def SameAt (omitted : List String → Bool) (v w : Value) : Prop :=
  ∀ path, omitted path = true → v.get? path = w.get? path

theorem sameAt_none (v w : Value) : SameAt (fun _ => false) v w :=
  nofun

mutual

theorem Value.without_none : ∀ v : Value, v.without (fun _ => false) = v
  | .object members => congrArg Value.object (membersWithout_none members)
  | .null | .bool _ | .number _ | .string _ | .array _ => rfl

theorem membersWithout_none :
    ∀ members : List (String × Value), membersWithout (fun _ => false) members = members
  | [] => rfl
  | (key, v) :: more =>
      congrArg₂ List.cons (congrArg (Prod.mk key) v.without_none) (membersWithout_none more)

end

/-! ### Restored values -/

/-- Each value is recovered from what is left of it without members that are the same in the
blank one. -/
def Restores (read : Reader α) (write : α → Value) (blank : α) : Prop :=
  ∀ a omitted, SameAt omitted (write a) (write blank) →
    Recovers read ((write a).without omitted) a

namespace Restores

variable {read : Reader α} {write : α → Value} {blank : α}

theorem of_plain (h : ∀ a, Recovers read (write a) a)
    (plain : ∀ a omitted, (write a).without omitted = write a) (blank : α) :
    Restores read write blank := by
  intro a omitted _
  rw [plain]
  exact h a

theorem recovers (h : Restores read write blank) (a : α) : Recovers read (write a) a := by
  have whole := h a (fun _ => false) (sameAt_none _ _)
  rwa [Value.without_none] at whole

theorem write_injective (h : Restores read write blank) : Function.Injective write := by
  intro a b alike
  have readB := (h.recovers b).readAll
  rw [← alike, (h.recovers a).readAll] at readB
  exact Except.ok.inj readB

end Restores

theorem restores_string (blank : String) : Restores readString .string blank :=
  .of_plain recovers_string (fun _ _ => rfl) blank

theorem restores_bool (blank : Bool) : Restores readBool .bool blank :=
  .of_plain recovers_bool (fun _ _ => rfl) blank

theorem restores_uint32 (blank : UInt32) :
    Restores readUInt32 (fun n => .number n.toNat) blank :=
  .of_plain recovers_uint32 (fun _ _ => rfl) blank

theorem restores_uint64 (due : String) (blank : UInt64) :
    Restores (readUInt64 due) (fun n => .number n.toNat) blank :=
  .of_plain (recovers_uint64 due) (fun _ _ => rfl) blank

/-! ### Records in parts -/

/-- A field of a record that may be left out, the way it is written, and how it is copied from
one record to another. -/
structure Part (blank : σ) where
  field : Field σ
  write : σ → Value
  /-- The second record with the field of the first. -/
  copy : σ → σ → σ
  optional : field.required = false
  restores : ∀ c omitted, SameAt omitted (write c) (write blank) →
    ∀ s, Recovers (field.read s) ((write c).without omitted) (copy c s)
  copy_eq_self : ∀ c s, write s = write c → copy c s = s

namespace Part

variable {blank : σ}

/-- The key of the field. -/
abbrev key (p : Part blank) : String :=
  p.field.name

/-- The part of a field that `get` reads and `set` stores. -/
def of (name : String) (get : σ → α) (set : σ → α → σ) {read : Reader α} {write : α → Value}
    (restored : Restores read write (get blank)) (set_get : ∀ s, set s (get s) = s) :
    Part blank where
  field := .of name false read set
  write s := write (get s)
  copy c s := set s (get c)
  optional := rfl
  restores c omitted same s := (restored (get c) omitted same).map (set s)
  copy_eq_self c s same := by rw [← restored.write_injective same, set_get]

/-- The members that a record is written with. -/
def members (parts : List (Part blank)) (c : σ) : List (String × Value) :=
  parts.map fun p => (p.key, p.write c)

/-- The parts that are not left out. -/
def kept (omitted : List String → Bool) (parts : List (Part blank)) : List (Part blank) :=
  parts.filter fun p => !omitted [p.key]

theorem membersWithout_members (omitted : List String → Bool) (parts : List (Part blank)) (c : σ) :
    membersWithout omitted (members parts c) =
      (kept omitted parts).map fun p => (p.key, (p.write c).without (pathsBelow omitted p.key)) := by
  induction parts with
  | nil => rfl
  | cons p parts ih =>
      rw [members, List.map_cons, membersWithout, kept]
      cases left : omitted [p.key] with
      | true => rw [if_pos rfl, List.filter_cons_of_neg (by simp [left])]; exact ih
      | false =>
          rw [if_neg Bool.false_ne_true, List.filter_cons_of_pos (by simp [left]), List.map_cons]
          exact congrArg _ ih

theorem lookup_members {parts : List (Part blank)} (distinct : (parts.map key).Nodup)
    {p : Part blank} (inside : p ∈ parts) (c : σ) :
    (members parts c).lookup p.key = some (p.write c) := by
  induction parts with
  | nil => cases inside
  | cons q parts ih =>
      obtain ⟨apart, distinct⟩ := List.nodup_cons.mp distinct
      rw [members, List.map_cons]
      rcases List.mem_cons.mp inside with rfl | inside
      · exact List.lookup_cons_self
      · have other : (p.key == q.key) = false :=
          beq_false_of_ne fun same => apart (same ▸ List.mem_map_of_mem inside)
        rw [List.lookup_cons, other]
        exact ih distinct inside

theorem sameAt_below {parts : List (Part blank)} (distinct : (parts.map key).Nodup)
    {omitted : List String → Bool} {c d : σ}
    (same : SameAt omitted (.object (members parts c)) (.object (members parts d)))
    {p : Part blank} (inside : p ∈ parts) :
    SameAt (pathsBelow omitted p.key) (p.write c) (p.write d) := by
  intro path left
  have at_path := same (p.key :: path) left
  simpa only [Value.get?, lookup_members distinct inside, Option.bind_some] using at_path

theorem write_eq_of_omitted {parts : List (Part blank)} (distinct : (parts.map key).Nodup)
    {omitted : List String → Bool} {c d : σ}
    (same : SameAt omitted (.object (members parts c)) (.object (members parts d)))
    {p : Part blank} (inside : p ∈ parts) (left : omitted [p.key] = true) :
    p.write c = p.write d :=
  Option.some.inj (sameAt_below distinct same inside [] left)

theorem exists_members (omitted : List String → Bool) (c : σ) (parts : List (Part blank))
    (same : ∀ p ∈ parts, SameAt (pathsBelow omitted p.key) (p.write c) (p.write blank)) :
    ∃ found : List (Member σ), found.map Member.field = parts.map field ∧
      found.map Member.written =
        parts.map (fun p => (p.key, (p.write c).without (pathsBelow omitted p.key))) ∧
      ∀ s, found.foldl (fun s m => m.store s) s = parts.foldl (fun s p => p.copy c s) s := by
  induction parts with
  | nil => exact ⟨[], rfl, rfl, fun _ => rfl⟩
  | cons p parts ih =>
      obtain ⟨sameFirst, same⟩ := List.forall_mem_cons.mp same
      obtain ⟨found, fields, written, stored⟩ := ih same
      let first : Member σ := ⟨p.field, _, p.copy c, p.restores c _ sameFirst⟩
      refine ⟨first :: found, ?_, ?_, fun s => stored (p.copy c s)⟩
      · rw [List.map_cons, List.map_cons, fields]
      · rw [List.map_cons, List.map_cons, written]

end Part

/-- The parts of a record are its fields, each apart from the others, and together they are the
whole of it. -/
structure Schema (r : Record σ) where
  parts : List (Part r.blank)
  fields : parts.map Part.field = r.fields
  distinct : (parts.map Part.key).Nodup
  /-- To copy one part gives no part another value than one of the two records has. -/
  apart : ∀ p ∈ parts, ∀ q ∈ parts, ∀ c s,
    p.write (q.copy c s) = p.write s ∨ p.write (q.copy c s) = p.write c
  whole : ∀ c s, parts.foldl (fun s p => p.copy c s) s = c

namespace Schema

variable {r : Record σ} (l : Schema r)

/-- The JSON value of a record. -/
def write (c : σ) : Value :=
  .object (Part.members l.parts c)

/-- To copy the parts that are left is to copy all, as long as each part has the value of the
blank record or that of the copied one. -/
theorem foldl_kept {omitted : List String → Bool} {c : σ}
    (same : SameAt omitted (l.write c) (l.write r.blank)) {parts : List (Part r.blank)}
    (inside : ∀ p ∈ parts, p ∈ l.parts) {s : σ}
    (mixed : ∀ p ∈ l.parts, p.write s = p.write r.blank ∨ p.write s = p.write c) :
    (Part.kept omitted parts).foldl (fun s p => p.copy c s) s =
      parts.foldl (fun s p => p.copy c s) s := by
  induction parts generalizing s with
  | nil => rfl
  | cons q parts ih =>
      obtain ⟨insideFirst, inside⟩ := List.forall_mem_cons.mp inside
      rw [List.foldl_cons, Part.kept]
      cases left : omitted [q.key] with
      | true =>
          have alike := Part.write_eq_of_omitted l.distinct same insideFirst left
          have here : q.write s = q.write c :=
            (mixed q insideFirst).elim (·.trans alike.symm) id
          rw [List.filter_cons_of_neg (by simp [left]), q.copy_eq_self c s here]
          exact ih inside mixed
      | false =>
          rw [List.filter_cons_of_pos (by simp [left]), List.foldl_cons]
          refine ih inside fun p hp => ?_
          rcases l.apart p hp q insideFirst c s with kept | copied
          · rw [kept]
            exact mixed p hp
          · exact .inr copied

/-- **A record is restored** if its parts are. -/
theorem restores : Restores r.read l.write r.blank := by
  intro c omitted same
  have below : ∀ p ∈ Part.kept omitted l.parts,
      SameAt (pathsBelow omitted p.key) (p.write c) (p.write r.blank) := fun p hp =>
    Part.sameAt_below l.distinct same (List.mem_of_mem_filter hp)
  obtain ⟨found, fields, written, stored⟩ := Part.exists_members omitted c _ below
  have keys : found.map Member.key = (Part.kept omitted l.parts).map Part.key := by
    have names := congrArg (List.map Field.name) fields
    rwa [List.map_map, List.map_map] at names
  have known : ∀ m ∈ found, m.field ∈ r.fields := by
    intro m hm
    have listed : m.field ∈ (Part.kept omitted l.parts).map Part.field :=
      fields ▸ List.mem_map_of_mem hm
    obtain ⟨p, hp, of_part⟩ := List.mem_map.mp listed
    exact of_part ▸ l.fields ▸ List.mem_map_of_mem (List.mem_of_mem_filter hp)
  have names : (r.fields.map Field.name).Nodup := by
    rw [← l.fields, List.map_map]
    exact l.distinct
  have once : (found.map Member.key).Nodup :=
    keys ▸ l.distinct.sublist (List.filter_sublist.map _)
  have complete : ∀ f ∈ r.fields, f.required = true → f.name ∈ found.map Member.key := by
    intro f hf required
    obtain ⟨p, -, rfl⟩ := List.mem_map.mp (l.fields ▸ hf)
    exact absurd required (by simp [p.optional])
  have read := r.recovers found names known once complete
  rw [written, stored, l.foldl_kept same (fun _ => id) (fun _ _ => .inl rfl), l.whole] at read
  rw [write, Value.without, Part.membersWithout_members]
  exact read

end Schema

end TreeCluster.Json
