import TreeCluster.Command.Registry
import TreeCluster.Proofs.Table

/-! # Names and ids of commands

A registry keeps its commands twice: the ids of the names, and the named handlers of the ids.
Whatever function gives a name its id, also one under which names collide, registering and
unregistering keep the two tables inverse to each other (`Registry.Consistent`).

So a registration has one of three answers, told apart by what is registered
(`Consistent.register_cases`), and to unregister a name frees its id
(`Consistent.unregister_cases`).  What this means after every run is put together in
`run_consistent`. -/

namespace TreeCluster.Command

/-- A change of the registered commands. -/
inductive Change (α : Type) where
  | register (name : String) (handler : Bytes → α)
  | unregister (name : String)

/-- The registration of a handler that takes values of a type. -/
def Change.registerTyped {α β : Type} [Layout β] (refused : CodecError → α) (name : String)
    (handler : β → α) : Change α :=
  .register name (Registry.typed refused handler)

namespace Registry

variable {α : Type} {hash : String → UInt32} {r : Registry α} {name : String}

/-- The registry after a change; a refused registration is none. -/
def apply (hash : String → UInt32) (r : Registry α) : Change α → Registry α
  | .register name handler =>
    match r.registerUnder hash name handler with
    | .ok (r, _) => r
    | .error _ => r
  | .unregister name => (r.unregister name).1

/-- The registry after changes in order. -/
def run (hash : String → UInt32) (r : Registry α) : List (Change α) → Registry α
  | [] => r
  | change :: changes => (r.apply hash change).run hash changes

/-- The name is registered. -/
def Knows (r : Registry α) (name : String) : Prop :=
  ∃ id, r.idOf name = .ok id

/-- The two tables are inverse to each other, and an id is that of its name. -/
structure Consistent (hash : String → UInt32) (r : Registry α) : Prop where
  get?_ids_iff (name : String) (id : UInt32) :
    r.ids.get? name = some id ↔ ∃ handler, r.handlers.get? id = some ⟨name, handler⟩
  hash_eq {name : String} {id : UInt32} : r.ids.get? name = some id → id = hash name
  names : r.ids.keys.Nodup
  ids : r.handlers.keys.Nodup

theorem consistent_empty : (empty : Registry α).Consistent hash where
  get?_ids_iff := by simp [empty]
  hash_eq := nofun
  names := List.nodup_nil
  ids := List.nodup_nil

/-! ### Looking up -/

theorem idOf_eq_ok_iff (id : UInt32) : r.idOf name = .ok id ↔ r.ids.get? name = some id := by
  unfold idOf
  cases r.ids.get? name with
  | none => simp
  | some other => simp

theorem nameOf_eq_some_iff (id : UInt32) :
    r.nameOf id = some name ↔ ∃ handler, r.handlers.get? id = some ⟨name, handler⟩ := by
  unfold nameOf
  constructor
  · intro h
    obtain ⟨⟨_, handler⟩, found, rfl⟩ := Option.map_eq_some_iff.mp h
    exact ⟨handler, found⟩
  · rintro ⟨handler, found⟩
    rw [found]
    rfl

namespace Consistent

theorem idOf_iff_handler (h : r.Consistent hash) (name : String) (id : UInt32) :
    r.idOf name = .ok id ↔ ∃ handler, r.handlers.get? id = some ⟨name, handler⟩ :=
  (idOf_eq_ok_iff id).trans (h.get?_ids_iff name id)

theorem idOf_iff (h : r.Consistent hash) (name : String) (id : UInt32) :
    r.idOf name = .ok id ↔ r.nameOf id = some name :=
  (h.idOf_iff_handler name id).trans (nameOf_eq_some_iff id).symm

theorem knows_iff (h : r.Consistent hash) : r.Knows name ↔ r.idOf name = .ok (hash name) := by
  constructor
  · rintro ⟨id, known⟩
    rwa [← h.hash_eq ((idOf_eq_ok_iff id).mp known)]
  · exact fun known => ⟨_, known⟩

theorem name_unique (h : r.Consistent hash) {other : String} {id : UInt32}
    (hn : r.idOf name = .ok id) (ho : r.idOf other = .ok id) : other = name := by
  obtain ⟨f, hf⟩ := (h.idOf_iff_handler name id).mp hn
  obtain ⟨g, hg⟩ := (h.idOf_iff_handler other id).mp ho
  have := Option.some.inj (hg.symm.trans hf)
  exact congrArg Entry.name this

theorem size_eq (h : r.Consistent hash) : (r.size : ℕ∞) = {name | r.Knows name}.encard := by
  have image : {id | ∃ entry, r.handlers.get? id = some entry} = hash '' {name | r.Knows name} := by
    ext id
    constructor
    · rintro ⟨⟨name, handler⟩, found⟩
      have known := (h.get?_ids_iff name id).mpr ⟨handler, found⟩
      exact ⟨name, ⟨id, (idOf_eq_ok_iff id).mpr known⟩, (h.hash_eq known).symm⟩
    · rintro ⟨name, known, rfl⟩
      obtain ⟨handler, found⟩ := (h.idOf_iff_handler name _).mp (h.knows_iff.mp known)
      exact ⟨_, found⟩
  have apart : Set.InjOn hash {name | r.Knows name} := by
    intro name hn other ho same
    exact (h.name_unique (h.knows_iff.mp hn) (same ▸ h.knows_iff.mp ho)).symm
  rw [size, Table.size_eq_encard h.ids, image, apart.encard_image]

/-! ### Changes -/

/-- A name that is registered, one whose id another name has, and one that can be registered. -/
theorem register_cases (h : r.Consistent hash) (name : String) (handler : Bytes → α) :
    (r.Knows name ∧ r.registerUnder hash name handler = .error (.duplicate name)) ∨
    (¬r.Knows name ∧ ∃ owner, owner ≠ name ∧ r.idOf owner = .ok (hash name) ∧
      r.registerUnder hash name handler = .error (.collision name owner (hash name))) ∨
    ((∀ other, r.idOf other ≠ .ok (hash name)) ∧ r.handlers.get? (hash name) = none ∧
      r.registerUnder hash name handler =
        .ok (⟨r.handlers.insert (hash name) ⟨name, handler⟩, r.ids.insert name (hash name)⟩,
          hash name)) := by
  unfold registerUnder insert
  cases found : r.handlers.get? (hash name) with
  | some entry =>
      obtain ⟨owner, other⟩ := entry
      have known := (h.idOf_iff_handler owner (hash name)).mpr ⟨other, found⟩
      by_cases same : owner = name
      · rw [same] at known
        exact .inl ⟨⟨_, known⟩, by simp [same, Except.map]⟩
      · refine .inr (.inl ⟨fun twice => same ?_, owner, same, known, by simp [same, Except.map]⟩)
        exact h.name_unique (h.knows_iff.mp twice) known
  | none =>
      refine .inr (.inr ⟨fun other known => ?_, rfl, rfl⟩)
      obtain ⟨f, taken⟩ := (h.idOf_iff_handler other _).mp known
      rw [found] at taken
      cases taken

/-- A name that is not registered, and one that is. -/
theorem unregister_cases (h : r.Consistent hash) (name : String) :
    (¬r.Knows name ∧ r.unregister name = (r, false)) ∨
    (r.idOf name = .ok (hash name) ∧
      r.unregister name = (⟨r.handlers.erase (hash name), r.ids.erase name⟩, true)) := by
  unfold unregister Knows
  cases known : r.ids.get? name with
  | none =>
      refine .inl ⟨?_, rfl⟩
      rintro ⟨id, hid⟩
      rw [idOf_eq_ok_iff, known] at hid
      cases hid
  | some id =>
      obtain ⟨handler, found⟩ := (h.get?_ids_iff name id).mp known
      obtain rfl := h.hash_eq known
      refine .inr ⟨(idOf_eq_ok_iff _).mpr known, ?_⟩
      simp [Table.contains, found]

theorem insert (h : r.Consistent hash) (handler : Bytes → α)
    (vacant : r.handlers.get? (hash name) = none) :
    Consistent hash
      ⟨r.handlers.insert (hash name) ⟨name, handler⟩, r.ids.insert name (hash name)⟩ where
  get?_ids_iff other id := by
    simp only [Table.get?_insert]
    by_cases ho : other = name
    · rw [if_pos ho, ho]
      by_cases hi : id = hash name
      · simp [hi]
      · rw [if_neg hi, ← h.get?_ids_iff]
        refine iff_of_false (fun same => hi (Option.some.inj same).symm) fun known => hi ?_
        exact h.hash_eq known
    · rw [if_neg ho, h.get?_ids_iff]
      by_cases hi : id = hash name
      · rw [if_pos hi, hi, vacant]
        simp [Ne.symm ho]
      · rw [if_neg hi]
  hash_eq {other id} known := by
    rw [Table.get?_insert] at known
    split at known
    · next same =>
        rw [same]
        exact (Option.some.inj known).symm
    · exact h.hash_eq known
  names := Table.nodup_keys_insert _ _ _ h.names
  ids := Table.nodup_keys_insert _ _ _ h.ids

theorem erase (h : r.Consistent hash) (known : r.idOf name = .ok (hash name)) :
    Consistent hash ⟨r.handlers.erase (hash name), r.ids.erase name⟩ where
  get?_ids_iff other id := by
    simp only [Table.get?_erase]
    by_cases ho : other = name
    · rw [if_pos ho, ho]
      by_cases hi : id = hash name
      · simp [hi]
      · rw [if_neg hi, ← h.get?_ids_iff]
        exact iff_of_false (Option.some_ne_none _).symm fun taken => hi (h.hash_eq taken)
    · rw [if_neg ho, h.get?_ids_iff]
      by_cases hi : id = hash name
      · rw [if_pos hi, ← h.idOf_iff_handler, hi]
        exact iff_of_false (fun taken => ho (h.name_unique known taken)) (by simp)
      · rw [if_neg hi]
  hash_eq {other id} taken := by
    rw [Table.get?_erase] at taken
    split at taken
    · cases taken
    · exact h.hash_eq taken
  names := Table.nodup_keys_erase _ _ h.names
  ids := Table.nodup_keys_erase _ _ h.ids

theorem apply (h : r.Consistent hash) (change : Change α) : (r.apply hash change).Consistent hash := by
  unfold Registry.apply
  cases change with
  | register name handler =>
      rcases h.register_cases name handler with
        ⟨-, answer⟩ | ⟨-, _, -, -, answer⟩ | ⟨-, vacant, answer⟩
      · simpa only [answer] using h
      · simpa only [answer] using h
      · simpa only [answer] using h.insert handler vacant
  | unregister name =>
      rcases h.unregister_cases name with ⟨-, answer⟩ | ⟨known, answer⟩
      · simpa only [answer] using h
      · simpa only [answer] using h.erase known

theorem run (h : r.Consistent hash) (changes : List (Change α)) :
    (r.run hash changes).Consistent hash := by
  induction changes generalizing r with
  | nil => exact h
  | cons change changes ih => exact ih (h.apply change)

/-! ### Answers -/

theorem register_eq_duplicate_iff (h : r.Consistent hash) (name : String) (handler : Bytes → α) :
    r.registerUnder hash name handler = .error (.duplicate name) ↔ r.Knows name := by
  rcases h.register_cases name handler with ⟨known, answer⟩ | ⟨new, _, -, -, answer⟩ | ⟨free, -, answer⟩
  · exact iff_of_true answer known
  · exact iff_of_false (by simp [answer]) new
  · exact iff_of_false (by simp [answer]) fun known => free name (h.knows_iff.mp known)

theorem register_eq_collision_iff (h : r.Consistent hash) (name : String) (handler : Bytes → α)
    (owner : String) :
    r.registerUnder hash name handler = .error (.collision name owner (hash name)) ↔
      owner ≠ name ∧ r.idOf owner = .ok (hash name) := by
  rcases h.register_cases name handler with
    ⟨known, answer⟩ | ⟨-, other, apart, taken, answer⟩ | ⟨free, -, answer⟩
  · refine iff_of_false (by simp [answer]) ?_
    rintro ⟨apart, taken⟩
    exact apart (h.name_unique (h.knows_iff.mp known) taken)
  · rw [answer]
    constructor
    · intro same
      simp only [Except.error.injEq, RegistryError.collision.injEq, and_true, true_and] at same
      exact same ▸ ⟨apart, taken⟩
    · rintro ⟨-, taken'⟩
      rw [h.name_unique taken' taken]
  · exact iff_of_false (by simp [answer]) fun taken => free owner taken.2

theorem register_eq_ok_iff (h : r.Consistent hash) (name : String) (handler : Bytes → α) :
    (∃ r', r.registerUnder hash name handler = .ok (r', hash name)) ↔
      ¬r.Knows name ∧ ¬∃ owner, owner ≠ name ∧ r.idOf owner = .ok (hash name) := by
  rcases h.register_cases name handler with
    ⟨known, answer⟩ | ⟨-, owner, apart, taken, answer⟩ | ⟨free, -, answer⟩
  · exact iff_of_false (by simp [answer]) fun new => new.1 known
  · exact iff_of_false (by simp [answer]) fun new => new.2 ⟨owner, apart, taken⟩
  · refine iff_of_true ⟨_, answer⟩ ⟨fun known => free name (h.knows_iff.mp known), ?_⟩
    rintro ⟨owner, -, taken⟩
    exact free owner taken

/-- A registration that is accepted puts in the name and its handler, and nothing else. -/
theorem registered (h : r.Consistent hash) {handler : Bytes → α} {r' : Registry α} {id : UInt32}
    (accepted : r.registerUnder hash name handler = .ok (r', id)) :
    id = hash name ∧
      (∀ other, r'.ids.get? other = if other = name then some id else r.ids.get? other) ∧
      ∀ other, r'.handlers.get? other =
        if other = id then some ⟨name, handler⟩ else r.handlers.get? other := by
  rcases h.register_cases name handler with ⟨-, answer⟩ | ⟨-, _, -, -, answer⟩ | ⟨-, -, answer⟩
  · rw [answer] at accepted
    cases accepted
  · rw [answer] at accepted
    cases accepted
  · rw [answer] at accepted
    obtain ⟨rfl, rfl⟩ := Prod.mk.inj (Except.ok.inj accepted)
    exact ⟨rfl, fun other => Table.get?_insert _ _ _ _, fun other => Table.get?_insert _ _ _ _⟩

theorem unregister_iff (h : r.Consistent hash) (name : String) :
    (r.unregister name).2 = true ↔ r.Knows name := by
  rcases h.unregister_cases name with ⟨new, answer⟩ | ⟨known, answer⟩
  · exact iff_of_false (by simp [answer]) new
  · exact iff_of_true (by simp [answer]) ⟨_, known⟩

theorem unregistered (h : r.Consistent hash) (known : r.Knows name) :
    (∀ other, (r.unregister name).1.ids.get? other =
      if other = name then none else r.ids.get? other) ∧
    ∀ id, (r.unregister name).1.handlers.get? id =
      if id = hash name then none else r.handlers.get? id := by
  rcases h.unregister_cases name with ⟨new, -⟩ | ⟨-, answer⟩
  · exact absurd known new
  · rw [answer]
    exact ⟨fun other => Table.get?_erase _ _ _, fun id => Table.get?_erase _ _ _⟩

/-- The id of a name that was unregistered is free for every name that has it. -/
theorem register_of_unregistered (h : r.Consistent hash) (known : r.Knows name) {other : String}
    (same : hash other = hash name) (handler : Bytes → α) :
    ∃ r', (r.unregister name).1.registerUnder hash other handler = .ok (r', hash other) := by
  have vacant := (h.unregistered known).2 (hash other)
  rw [if_pos same] at vacant
  unfold registerUnder Registry.insert
  rw [vacant]
  exact ⟨_, rfl⟩

end Consistent

/-- **The two tables of a registry agree**, whatever ids the names have and whatever was registered
and unregistered:

* a name has an id exactly if the handler of the id was registered under the name, and then the id
  is that of the name; there are as many handlers as registered names;
* a registration is refused as a duplicate exactly if the name is registered, and because of an
  owner exactly if that other name is registered with the same id; it is accepted exactly
  otherwise, and then puts in the name with its handler.  A refused one changes nothing;
* to unregister a name succeeds exactly if it is registered.  This takes out the name with its
  handler, and frees the id for every name that has it. -/
theorem run_consistent (hash : String → UInt32) (changes : List (Change α)) :
    let r := (empty : Registry α).run hash changes
    ((∀ name id, r.idOf name = .ok id ↔ r.nameOf id = some name) ∧
      (∀ name id, r.idOf name = .ok id → id = hash name) ∧
      (r.size : ℕ∞) = {name | r.Knows name}.encard) ∧
    (∀ name handler,
      (r.registerUnder hash name handler = .error (.duplicate name) ↔ r.Knows name) ∧
      (∀ owner, r.registerUnder hash name handler = .error (.collision name owner (hash name)) ↔
        owner ≠ name ∧ r.idOf owner = .ok (hash name)) ∧
      ((∃ r', r.registerUnder hash name handler = .ok (r', hash name)) ↔
        ¬r.Knows name ∧ ¬∃ owner, owner ≠ name ∧ r.idOf owner = .ok (hash name)) ∧
      (∀ e, r.registerUnder hash name handler = .error e →
        r.apply hash (.register name handler) = r) ∧
      ∀ r' id, r.registerUnder hash name handler = .ok (r', id) →
        (∀ other, r'.ids.get? other = if other = name then some id else r.ids.get? other) ∧
        ∀ other, r'.handlers.get? other =
          if other = id then some ⟨name, handler⟩ else r.handlers.get? other) ∧
    ∀ name,
      ((r.unregister name).2 = true ↔ r.Knows name) ∧
      (¬r.Knows name → (r.unregister name).1 = r) ∧
      (r.Knows name →
        (∀ other, (r.unregister name).1.ids.get? other =
          if other = name then none else r.ids.get? other) ∧
        (∀ id, (r.unregister name).1.handlers.get? id =
          if id = hash name then none else r.handlers.get? id) ∧
        ∀ other handler, hash other = hash name →
          ∃ r', (r.unregister name).1.registerUnder hash other handler = .ok (r', hash other)) := by
  intro r
  have h : r.Consistent hash := consistent_empty.run changes
  refine ⟨⟨h.idOf_iff, ?_, h.size_eq⟩, fun name handler => ⟨h.register_eq_duplicate_iff name handler,
    h.register_eq_collision_iff name handler, h.register_eq_ok_iff name handler, ?_, ?_⟩,
    fun name => ⟨h.unregister_iff name, ?_, fun known => ?_⟩⟩
  · intro name id known
    exact h.hash_eq ((idOf_eq_ok_iff id).mp known)
  · intro e refused
    simp only [apply, refused]
  · intro r' id accepted
    exact (h.registered accepted).2
  · intro new
    rcases h.unregister_cases name with ⟨-, answer⟩ | ⟨known, -⟩
    · rw [answer]
    · exact absurd ⟨_, known⟩ new
  · obtain ⟨names, ids⟩ := h.unregistered known
    exact ⟨names, ids, fun other handler same => h.register_of_unregistered known same handler⟩

end Registry
end TreeCluster.Command
