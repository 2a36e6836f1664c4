/-! # Tables

A finite map as a list of pairs.  Inserting under a key first erases what stood there, so a
table built from `empty` holds every key at most once (`nodup_keys_insert`, `nodup_keys_erase`).
`get?_insert` and `get?_erase` say what a table holds after a change. -/

namespace TreeCluster

/-- A finite map from keys to values. -/
structure Table (α β : Type) where
  entries : List (α × β)

namespace Table

variable {α β : Type} [DecidableEq α]

/-- The table without entries. -/
def empty : Table α β :=
  ⟨[]⟩

/-- The value of the first pair with a key. -/
def find (key : α) : List (α × β) → Option β
  | [] => none
  | e :: rest => if e.1 = key then some e.2 else find key rest

/-- The value under a key. -/
def get? (t : Table α β) (key : α) : Option β :=
  find key t.entries

/-- Whether there is a value under a key. -/
def contains (t : Table α β) (key : α) : Bool :=
  (t.get? key).isSome

/-- The table without a key. -/
def erase (t : Table α β) (key : α) : Table α β :=
  ⟨t.entries.filter fun e => e.1 ≠ key⟩

/-- The table with a value under a key, in place of what stood there. -/
def insert (t : Table α β) (key : α) (value : β) : Table α β :=
  ⟨(key, value) :: (t.erase key).entries⟩

/-- The keys. -/
def keys (t : Table α β) : List α :=
  t.entries.map Prod.fst

/-- The number of entries. -/
def size (t : Table α β) : Nat :=
  t.entries.length

/-- Whether there are no entries. -/
def isEmpty (t : Table α β) : Bool :=
  t.entries.isEmpty

@[simp] theorem get?_empty (key : α) : (empty : Table α β).get? key = none := rfl

@[simp] theorem get?_insert_self (t : Table α β) (key : α) (value : β) :
    (t.insert key value).get? key = some value := by
  simp [insert, get?, find]

theorem get?_erase (t : Table α β) (key other : α) :
    (t.erase key).get? other = if other = key then none else t.get? other := by
  obtain ⟨entries⟩ := t
  simp only [erase, get?]
  induction entries with
  | nil => simp [find]
  | cons e rest ih =>
    by_cases hk : e.1 = key
    · by_cases ho : other = key
      · simpa [hk, ho, find] using ih
      · have : e.1 ≠ other := fun h => ho (h ▸ hk)
        simpa [hk, ho, find, this, Ne.symm ho] using ih
    · by_cases he : e.1 = other
      · have : other ≠ key := fun h => hk (he.trans h)
        simp [find, he, this]
      · simpa [hk, find, he] using ih

theorem get?_insert (t : Table α β) (key other : α) (value : β) :
    (t.insert key value).get? other = if other = key then some value else t.get? other := by
  by_cases h : other = key
  · simp [h]
  · have := get?_erase t key other
    simp only [get?, h, if_false] at this
    simp [insert, get?, find, h, Ne.symm h, this]

theorem nodup_keys_erase (t : Table α β) (key : α) (h : t.keys.Nodup) :
    (t.erase key).keys.Nodup :=
  h.sublist (List.filter_sublist.map _)

theorem nodup_keys_insert (t : Table α β) (key : α) (value : β) (h : t.keys.Nodup) :
    (t.insert key value).keys.Nodup := by
  have hne : key ∉ (t.erase key).keys := by
    simp only [keys, erase, List.mem_map, List.mem_filter, not_exists, not_and]
    rintro e ⟨_, he⟩ rfl
    simp at he
  exact List.nodup_cons.mpr ⟨hne, nodup_keys_erase t key h⟩

end Table
end TreeCluster
