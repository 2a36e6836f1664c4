import TreeCluster.Json.Formats
import TreeCluster.Proofs.Json.Scanned

/-! # Values read back from what is written

A reader recovers a value if it takes it off the front of its characters, whatever ends it there
(`Recovers`).  Readers of strings and whole numbers recover what they read, and so do those of
variants, of lists whose items are recovered (`recovers_list`), and of records.

A record is recovered from an object that names some of its fields once each, in any order, among
them all that are required; the other fields keep the values they have in the blank record
(`Record.recovers`).  So replay logs and addresses are read back from their JSON text, whatever
texts are in them (`readAll_toJson`). -/

namespace TreeCluster.Json

open Text

variable {α β σ : Type}

/-- The reader takes `a` off the front of the characters of the value `v`. -/
def Recovers (read : Reader α) (v : Value) (a : α) : Prop :=
  ∀ rest, Ends rest → read (v.chars ++ rest) = .ok (a, rest)

theorem Recovers.readAll {read : Reader α} {v : Value} {a : α} (h : Recovers read v a) :
    readAll read v.text = .ok a := by
  have whole := h [] ends_nil
  rw [List.append_nil] at whole
  simp only [Json.readAll, Value.text, String.toList_ofList, whole, bind, Except.bind]
  rfl

theorem Recovers.map {read : Reader α} {v : Value} {a : α} (h : Recovers read v a) (f : α → β) :
    Recovers (fun text => (read text).map fun (a, after) => (f a, after)) v (f a) := by
  intro rest ends
  simp only [h rest ends, Except.map]

/-! ### Blanks -/

theorem skipBlanks_cons {c : Char} (h : isBlank c = false) (rest : List Char) :
    skipBlanks (c :: rest) = c :: rest :=
  List.dropWhile_cons_of_neg (by simp [h])

theorem not_blank_of_isDigit {c : Char} (h : c.isDigit = true) : isBlank c = false ∧ c ≠ ']' := by
  constructor
  · by_contra blank
    simp only [isBlank, Bool.not_eq_false, Bool.or_eq_true, decide_eq_true_eq] at blank
    rcases blank with ((rfl | rfl) | rfl) | rfl <;> cases h
  · rintro rfl
    cases h

/-- A value starts with a character that is neither blank nor a closing bracket. -/
theorem Value.exists_chars (v : Value) :
    ∃ c cs, v.chars = c :: cs ∧ isBlank c = false ∧ c ≠ ']' := by
  cases v with
  | null => exact ⟨'n', _, rfl, by decide⟩
  | bool b => cases b <;> exact ⟨_, _, rfl, by decide⟩
  | number n =>
      rw [Value.chars, Decimal.signed]
      split_ifs
      · exact ⟨'-', _, String.toList_append, by decide⟩
      · cases hd : Decimal.digits n.natAbs with
        | nil => exact absurd hd (Decimal.digits_ne_nil _)
        | cons c cs =>
            rw [Decimal.text, String.toList_ofList, hd]
            exact ⟨c, cs, rfl,
              not_blank_of_isDigit (Decimal.isDigit_of_mem_digits (hd ▸ List.mem_cons_self))⟩
  | string s => exact ⟨'"', _, rfl, by decide⟩
  | array items => exact ⟨'[', _, rfl, by decide⟩
  | object members => exact ⟨'\x7b', _, rfl, by decide⟩

/-! ### Plain values -/

theorem recovers_string (s : String) : Recovers readString (.string s) s := by
  intro rest _
  have scanned := scanString_chars s.toList rest
  simp only [Value.chars, stringChars, List.cons_append, List.append_assoc, List.nil_append,
    readString]
  rw [skipBlanks_cons (by decide)]
  simp only [scanned, Except.map, String.ofList_toList]

theorem recovers_natural (due : String) {max n : ℕ} (fits : n ≤ max) (whole : n ≤ maxWhole) :
    Recovers (readNatural due max) (.number n) n := by
  intro rest ends
  have scanned := scanNumber_digits whole ends
  have chars : (Value.number n).chars = Decimal.digits n := by
    rw [Value.chars, Decimal.signed, if_neg (by omega), Decimal.text, String.toList_ofList]
    rfl
  rw [chars]
  cases hd : Decimal.digits n with
  | nil => exact absurd hd (Decimal.digits_ne_nil n)
  | cons c more =>
      have digit : c.isDigit = true :=
        Decimal.isDigit_of_mem_digits (n := n) (hd ▸ List.mem_cons_self)
      rw [hd, List.cons_append] at scanned
      rw [List.cons_append, readNatural, skipBlanks_cons (not_blank_of_isDigit digit).1]
      split
      · next impossible => cases impossible
      · next minus =>
          obtain ⟨rfl, -⟩ := List.cons.inj minus
          cases digit
      · next split =>
          obtain ⟨rfl, rfl⟩ := List.cons.inj split
          simp only [digit, if_true, scanned, bind, Except.bind, checkNatural, if_pos fits,
            Except.map]

theorem recovers_uint16 (n : UInt16) : Recovers readUInt16 (.number n.toNat) n := by
  have small : n.toNat < 65536 := n.toNat_lt
  have whole : n.toNat ≤ maxWhole := small.le.trans (by decide)
  have read : Recovers (readNatural "u16" 0xffff) (.number n.toNat) n.toNat :=
    recovers_natural "u16" (Nat.le_of_lt_succ small) whole
  have made := read.map UInt16.ofNat
  rwa [UInt16.ofNat_toNat] at made

theorem recovers_uint32 (n : UInt32) : Recovers readUInt32 (.number n.toNat) n := by
  have small : n.toNat < 4294967296 := n.toNat_lt
  have whole : n.toNat ≤ maxWhole := small.le.trans (by decide)
  have read : Recovers (readNatural "u32" 0xffffffff) (.number n.toNat) n.toNat :=
    recovers_natural "u32" (Nat.le_of_lt_succ small) whole
  have made := read.map UInt32.ofNat
  rwa [UInt32.ofNat_toNat] at made

theorem recovers_uint64 (due : String) (n : UInt64) :
    Recovers (readUInt64 due) (.number n.toNat) n := by
  have small : n.toNat < 18446744073709551616 := n.toNat_lt
  have read : Recovers (readNatural due 0xffffffffffffffff) (.number n.toNat) n.toNat :=
    recovers_natural due (Nat.le_of_lt_succ small) (Nat.le_of_lt_succ small)
  have made := read.map UInt64.ofNat
  rwa [UInt64.ofNat_toNat] at made

theorem recovers_bool (b : Bool) : Recovers readBool (.bool b) b := by
  intro rest _
  cases b <;>
  · simp only [Value.chars, List.cons_append, List.nil_append, readBool]
    rw [skipBlanks_cons (by decide)]
    rfl

theorem recovers_variant {variants : List (String × α)} {name : String} {a : α}
    (named : variants.lookup name = some a) : Recovers (readVariant variants) (.string name) a := by
  intro rest _
  have scanned := scanString_chars name.toList rest
  simp only [Value.chars, stringChars, List.cons_append, List.append_assoc, List.nil_append,
    readVariant]
  rw [skipBlanks_cons (by decide)]
  simp only [readVariantName, scanned, bind, Except.bind, String.ofList_toList, named]
  rfl

/-! ### Lists -/

/-- What stands behind an item when more items follow. -/
def laterItems : List Value → List Char
  | [] => [']']
  | more => ',' :: itemChars more

theorem itemChars_cons (v : Value) (more : List Value) :
    itemChars (v :: more) = v.chars ++ laterItems more := by
  cases more <;> rfl

theorem ends_laterItems (items : List Value) (rest : List Char) :
    Ends (laterItems items ++ rest) := by
  cases items with
  | nil => exact ends_cons (by decide) _
  | cons v more => exact ends_cons (by decide) _

theorem length_lt_itemChars (items : List Value) : items.length < (itemChars items).length := by
  induction items with
  | nil => exact Nat.zero_lt_one
  | cons v more ih =>
      obtain ⟨c, cs, hv, -⟩ := v.exists_chars
      have later : (itemChars more).length ≤ (laterItems more).length := by
        cases more with
        | nil => exact le_rfl
        | cons w more => exact Nat.le_succ _
      rw [itemChars_cons, hv, List.length_append, List.length_cons, List.length_cons]
      omega

theorem nextItem_first (v : Value) (rest : List Char) :
    nextItem true (v.chars ++ rest) = .ok (true, v.chars ++ rest) := by
  obtain ⟨c, cs, chars, visible, other⟩ := v.exists_chars
  rw [chars, List.cons_append, nextItem, skipBlanks_cons visible]
  split <;> simp_all

theorem nextItem_comma (v : Value) (rest : List Char) :
    nextItem false (',' :: (v.chars ++ rest)) = .ok (true, v.chars ++ rest) := by
  obtain ⟨c, cs, chars, visible, other⟩ := v.exists_chars
  rw [chars, List.cons_append, nextItem, skipBlanks_cons (by decide)]
  simp [skipBlanks_cons visible, other]

section

variable {item : Reader α} {write : α → Value}

/-- An item is read where it stands, and then the later ones. -/
theorem readItems_of_nextItem {isFirst : Bool} {text rest : List Char} {a : α} {as : List α}
    {fuel : ℕ} (first : Recovers item (write a) a)
    (next : nextItem isFirst text =
      .ok (true, (write a).chars ++ (laterItems (as.map write) ++ rest)))
    (later : readItems item false (laterItems (as.map write) ++ rest) fuel = .ok (as, rest)) :
    readItems item isFirst text (fuel + 1) = .ok (a :: as, rest) := by
  simp only [readItems, next, bind, Except.bind, if_true, first _ (ends_laterItems _ _), later]
  rfl

theorem readItems_of_close (isFirst : Bool) (rest : List Char) (fuel : ℕ) :
    readItems item isFirst (']' :: rest) (fuel + 1) = .ok ([], rest) := by
  have close : skipBlanks (']' :: rest) = ']' :: rest := skipBlanks_cons (by decide) rest
  simp only [readItems, nextItem, close, bind, Except.bind, closeList]
  rfl

theorem readItems_later {as : List α} (h : ∀ a ∈ as, Recovers item (write a) a)
    (rest : List Char) {fuel : ℕ} (enough : as.length < fuel) :
    readItems item false (laterItems (as.map write) ++ rest) fuel = .ok (as, rest) := by
  induction as generalizing fuel with
  | nil =>
      obtain ⟨fuel, rfl⟩ := Nat.exists_eq_succ_of_ne_zero (Nat.ne_zero_of_lt enough)
      exact readItems_of_close false rest fuel
  | cons a as ih =>
      obtain ⟨fuel, rfl⟩ := Nat.exists_eq_succ_of_ne_zero (Nat.ne_zero_of_lt enough)
      obtain ⟨first, others⟩ := List.forall_mem_cons.mp h
      refine readItems_of_nextItem first ?_ (ih others (Nat.lt_of_succ_lt_succ enough))
      have comma : laterItems ((a :: as).map write) ++ rest =
          ',' :: ((write a).chars ++ (laterItems (as.map write) ++ rest)) := by
        rw [List.map_cons, laterItems, itemChars_cons, List.cons_append, List.append_assoc]
        nofun
      rw [comma]
      exact nextItem_comma _ _

/-- A list is recovered if its items are. -/
theorem recovers_list {as : List α} (h : ∀ a ∈ as, Recovers item (write a) a) :
    Recovers (readList item) (.array (as.map write)) as := by
  intro rest _
  have bracket : (Value.array (as.map write)).chars ++ rest =
      '[' :: (itemChars (as.map write) ++ rest) := rfl
  have enough := length_lt_itemChars (as.map write)
  rw [List.length_map] at enough
  rw [bracket, readList, skipBlanks_cons (by decide)]
  simp only [List.length_append]
  cases as with
  | nil => exact readItems_of_close true rest _
  | cons a as =>
      obtain ⟨first, others⟩ := List.forall_mem_cons.mp h
      rw [List.length_cons] at enough
      refine readItems_of_nextItem first ?_ (readItems_later others rest (by omega))
      rw [List.map_cons, itemChars_cons, List.append_assoc]
      exact nextItem_first _ _

end

/-! ### Records -/

/-- What stands behind a member when more members follow. -/
def laterMembers : List (String × Value) → List Char
  | [] => ['\x7d']
  | more => ',' :: memberChars more

theorem memberChars_cons (key : String) (v : Value) (more : List (String × Value)) :
    memberChars ((key, v) :: more) =
      '"' :: (key.toList.flatMap escapeChar ++ '"' :: ':' :: (v.chars ++ laterMembers more)) := by
  cases more <;> simp [memberChars, stringChars, laterMembers]

theorem ends_laterMembers (members : List (String × Value)) (rest : List Char) :
    Ends (laterMembers members ++ rest) := by
  cases members with
  | nil => exact ends_cons (by decide) _
  | cons m more => exact ends_cons (by decide) _

theorem length_lt_memberChars (members : List (String × Value)) :
    members.length < (memberChars members).length := by
  induction members with
  | nil => exact Nat.zero_lt_one
  | cons m more ih =>
      have later : (memberChars more).length ≤ (laterMembers more).length := by
        cases more with
        | nil => exact le_rfl
        | cons m more => exact Nat.le_succ _
      rw [memberChars_cons]
      simp only [List.length_cons, List.length_append]
      omega

/-- A member of an object that a field of a record recovers. -/
structure Member (σ : Type) where
  field : Field σ
  value : Value
  /-- What it makes of the record. -/
  store : σ → σ
  recovers : ∀ s, Recovers (field.read s) value (store s)

namespace Member

/-- The key of the member. -/
abbrev key (m : Member σ) : String :=
  m.field.name

/-- The member as it is written. -/
abbrev written (m : Member σ) : String × Value :=
  (m.key, m.value)

/-- A member for a field that stores what it reads. -/
def of (name : String) (required : Bool) (set : σ → α → σ) {read : Reader α} {v : Value} {a : α}
    (h : Recovers read v a) : Member σ :=
  ⟨.of name required read set, v, fun s => set s a, fun s => h.map (set s)⟩

@[simp] theorem field_of (name : String) (required : Bool) (set : σ → α → σ) {read : Reader α}
    {v : Value} {a : α} (h : Recovers read v a) :
    (of name required set h).field = .of name required read set :=
  rfl

@[simp] theorem key_of (name : String) (required : Bool) (set : σ → α → σ) {read : Reader α}
    {v : Value} {a : α} (h : Recovers read v a) : (of name required set h).key = name :=
  rfl

end Member

namespace Record

variable (r : Record σ)

theorem find?_field {fields : List (Field σ)} (distinct : (fields.map Field.name).Nodup)
    {f : Field σ} (inside : f ∈ fields) : fields.find? (fun g => g.name = f.name) = some f := by
  induction fields with
  | nil => cases inside
  | cons g fields ih =>
      obtain ⟨apart, distinct⟩ := List.nodup_cons.mp distinct
      rcases List.mem_cons.mp inside with rfl | inside
      · exact List.find?_cons_of_pos (by simp)
      · have other : g.name ≠ f.name := fun same =>
          apart (same ▸ List.mem_map_of_mem inside)
        rw [List.find?_cons_of_neg (by simpa using other)]
        exact ih distinct inside

theorem nextKey_first (key : String) (v : Value) (more : List (String × Value)) (rest : List Char) :
    nextKey true (memberChars ((key, v) :: more) ++ rest) =
      .ok (some (key.toList.flatMap escapeChar ++ '"' :: ':' ::
        (v.chars ++ (laterMembers more ++ rest)))) := by
  rw [memberChars_cons, List.cons_append, nextKey, skipBlanks_cons (by decide)]
  simp

theorem nextKey_comma (key : String) (v : Value) (more : List (String × Value)) (rest : List Char) :
    nextKey false (laterMembers ((key, v) :: more) ++ rest) =
      .ok (some (key.toList.flatMap escapeChar ++ '"' :: ':' ::
        (v.chars ++ (laterMembers more ++ rest)))) := by
  have comma : laterMembers ((key, v) :: more) = ',' :: memberChars ((key, v) :: more) := rfl
  have quote (text : List Char) : skipBlanks ('"' :: text) = '"' :: text :=
    skipBlanks_cons (by decide) text
  rw [comma, memberChars_cons, List.cons_append, List.cons_append, nextKey,
    skipBlanks_cons (by decide)]
  simp [quote]

theorem readMembers_of_nextKey {isFirst : Bool} {text after : List Char} {m : Member σ}
    {seen : List String} {s : σ} {result : (List String × σ) × List Char} {fuel : ℕ}
    (known : r.fields.find? (fun f => f.name = m.key) = some m.field) (fresh : m.key ∉ seen)
    (ends : Ends after)
    (next : nextKey isFirst text =
      .ok (some (m.key.toList.flatMap escapeChar ++ '"' :: ':' :: (m.value.chars ++ after))))
    (later : r.readMembers false (m.key :: seen) (m.store s) after fuel = .ok result) :
    r.readMembers isFirst seen s text (fuel + 1) = .ok result := by
  have colon : takeColon (':' :: (m.value.chars ++ after)) = .ok (m.value.chars ++ after) := by
    rw [takeColon, skipBlanks_cons (by decide)]
    rfl
  simp only [readMembers, next, scanString_chars, String.ofList_toList, known, fresh, colon,
    m.recovers s after ends, bind, Except.bind, if_false]
  exact later

theorem readMembers_of_close (isFirst : Bool) (seen : List String) (s : σ) (rest : List Char)
    (fuel : ℕ) :
    r.readMembers isFirst seen s ('\x7d' :: rest) (fuel + 1) =
      .ok ((seen, s), '\x7d' :: rest) := by
  have close : skipBlanks ('\x7d' :: rest) = '\x7d' :: rest := skipBlanks_cons (by decide) rest
  simp only [readMembers, nextKey, close, bind, Except.bind]
  rfl

/-- The keys that have been seen after the members, the last one first. -/
def seenAfter (seen : List String) (members : List (Member σ)) : List String :=
  members.foldl (fun seen m => m.key :: seen) seen

theorem mem_seenAfter {seen : List String} {members : List (Member σ)} {key : String}
    (h : key ∈ seen ∨ key ∈ members.map Member.key) : key ∈ seenAfter seen members := by
  induction members generalizing seen with
  | nil => simpa [seenAfter] using h
  | cons m members ih =>
      refine ih ?_
      simp only [List.map_cons, List.mem_cons] at h ⊢
      tauto

theorem readMembers_later {members : List (Member σ)} {seen : List String} (s : σ)
    (rest : List Char) {fuel : ℕ}
    (known : ∀ m ∈ members, r.fields.find? (fun f => f.name = m.key) = some m.field)
    (fresh : ∀ m ∈ members, m.key ∉ seen) (once : (members.map Member.key).Nodup)
    (enough : members.length < fuel) :
    r.readMembers false seen s (laterMembers (members.map Member.written) ++ rest) fuel =
      .ok ((seenAfter seen members, members.foldl (fun s m => m.store s) s), '\x7d' :: rest) := by
  induction members generalizing seen s fuel with
  | nil =>
      obtain ⟨fuel, rfl⟩ := Nat.exists_eq_succ_of_ne_zero (Nat.ne_zero_of_lt enough)
      exact r.readMembers_of_close false seen s rest fuel
  | cons m members ih =>
      obtain ⟨fuel, rfl⟩ := Nat.exists_eq_succ_of_ne_zero (Nat.ne_zero_of_lt enough)
      obtain ⟨knownFirst, known⟩ := List.forall_mem_cons.mp known
      obtain ⟨freshFirst, fresh⟩ := List.forall_mem_cons.mp fresh
      obtain ⟨apart, once⟩ := List.nodup_cons.mp once
      refine r.readMembers_of_nextKey knownFirst freshFirst (ends_laterMembers _ rest)
        (nextKey_comma _ _ _ rest) (ih (m.store s) known ?_ once (Nat.lt_of_succ_lt_succ enough))
      intro m' inside seen
      rcases List.mem_cons.mp seen with same | seen
      · exact apart (same ▸ List.mem_map_of_mem inside)
      · exact fresh m' inside seen

theorem readMembers_first {members : List (Member σ)} (s : σ) (rest : List Char) {fuel : ℕ}
    (known : ∀ m ∈ members, r.fields.find? (fun f => f.name = m.key) = some m.field)
    (once : (members.map Member.key).Nodup) (enough : members.length < fuel) :
    r.readMembers true [] s (memberChars (members.map Member.written) ++ rest) fuel =
      .ok ((seenAfter [] members, members.foldl (fun s m => m.store s) s), '\x7d' :: rest) := by
  obtain ⟨fuel, rfl⟩ := Nat.exists_eq_succ_of_ne_zero (Nat.ne_zero_of_lt enough)
  cases members with
  | nil => exact r.readMembers_of_close true [] s rest fuel
  | cons m members =>
      obtain ⟨knownFirst, known⟩ := List.forall_mem_cons.mp known
      obtain ⟨apart, once⟩ := List.nodup_cons.mp once
      refine r.readMembers_of_nextKey knownFirst List.not_mem_nil (ends_laterMembers _ rest)
        (nextKey_first _ _ _ rest)
        (r.readMembers_later (m.store s) rest known ?_ once (Nat.lt_of_succ_lt_succ enough))
      intro m' inside same
      exact apart (List.mem_singleton.mp same ▸ List.mem_map_of_mem inside)

theorem checkFields_eq_ok {seen : List String}
    (complete : ∀ f ∈ r.fields, f.required = true → f.name ∈ seen) : r.checkFields seen = .ok () := by
  have none : r.fields.find? (fun f => f.required && !seen.contains f.name) = none := by
    refine List.find?_eq_none.mpr fun f inside missing => ?_
    simp only [Bool.and_eq_true, Bool.not_eq_true', List.contains_eq_mem,
      decide_eq_false_iff_not] at missing
    exact missing.2 (complete f inside missing.1)
  rw [checkFields, none]

/-- **A record is recovered** from an object with some of its fields, each at most once, among
them all that are required. -/
theorem recovers (members : List (Member σ)) (distinct : (r.fields.map Field.name).Nodup)
    (known : ∀ m ∈ members, m.field ∈ r.fields) (once : (members.map Member.key).Nodup)
    (complete : ∀ f ∈ r.fields, f.required = true → f.name ∈ members.map Member.key) :
    Recovers r.read (.object (members.map Member.written))
      (members.foldl (fun s m => m.store s) r.blank) := by
  intro rest _
  have brace : (Value.object (members.map Member.written)).chars ++ rest =
      '\x7b' :: (memberChars (members.map Member.written) ++ rest) := rfl
  have enough : members.length <
      (memberChars (members.map Member.written) ++ rest).length + 1 := by
    have few := length_lt_memberChars (members.map Member.written)
    rw [List.length_map] at few
    rw [List.length_append]
    omega
  have inside := r.readMembers_first r.blank rest
    (fun m inside => find?_field distinct (known m inside)) once enough
  have checked : r.checkFields (seenAfter [] members) = .ok () :=
    r.checkFields_eq_ok fun f inside required =>
      mem_seenAfter (Or.inr (complete f inside required))
  have closed : closeObject ('\x7d' :: rest) = .ok rest := by
    rw [closeObject, skipBlanks_cons (by decide)]
    rfl
  rw [brace, read, skipBlanks_cons (by decide)]
  simp only [inside, checked, closed, bind, Except.bind]
  rfl

end Record

/-! ### Replay logs and addresses -/

theorem recovers_entry (e : ReplayEntry) : Recovers ReplayEntry.format.read e.toJson e := by
  have action : Recovers ReplayAction.read (.string e.action.text) e.action := by
    refine recovers_variant ?_
    cases e.action <;> decide
  have path : Recovers NodePath.read (.string e.path.text) e.path :=
    (recovers_string e.path.text).map NodePath.mk
  let members : List (Member ReplayEntry) :=
    [.of "action" true (fun e action => { e with action }) action,
      .of "path" true (fun e path => { e with path }) path]
  exact ReplayEntry.format.recovers members (by decide) (by simp [members, ReplayEntry.format])
    (by simp [members]) (by simp [members, ReplayEntry.format, Field.of])

theorem recovers_log (log : ReplayLog) : Recovers ReplayLog.format.read log.toJson log := by
  have entries : Recovers (readList ReplayEntry.format.read)
      (.array (log.entries.map ReplayEntry.toJson)) log.entries :=
    recovers_list fun e _ => recovers_entry e
  let members : List (Member ReplayLog) :=
    [.of "entries" true (fun log entries => { log with entries }) entries]
  exact ReplayLog.format.recovers members (by decide) (by simp [members, ReplayLog.format])
    (by simp [members]) (by simp [members, ReplayLog.format, Field.of])

theorem recovers_address (a : NodeAddress) : Recovers NodeAddress.format.read a.toJson a := by
  let members : List (Member NodeAddress) :=
    [.of "name" true (fun a name => { a with name }) (recovers_string a.name),
      .of "host" true (fun a host => { a with host }) (recovers_string a.host),
      .of "port" true (fun a port => { a with port }) (recovers_uint16 a.port)]
  exact NodeAddress.format.recovers members (by decide) (by simp [members, NodeAddress.format])
    (by simp [members]) (by simp [members, NodeAddress.format, Field.of])

/-- **Logs and addresses survive JSON**: a replay log is read back from its text with the same
entries in the same order, whatever texts its paths hold and however many there are, and so is
every address. -/
theorem readAll_toJson (log : ReplayLog) (address : NodeAddress) :
    readAll ReplayLog.format.read log.toJson.text = .ok log ∧
      readAll NodeAddress.format.read address.toJson.text = .ok address :=
  ⟨(recovers_log log).readAll, (recovers_address address).readAll⟩

end TreeCluster.Json
