import TreeCluster.Address
import TreeCluster.Table

/-! # The slots of a tree

Members of a tree live in numbered slots and refer to each other by slot.  A slot that becomes
vacant is put on a stack and is filled again before a new one is made.  A table finds the slot
of an address.

Walks over the slots end after as many steps as there are slots: in a tree built by its own
operations no walk is longer. -/

namespace TreeCluster

/-- A member of a tree in its slot. -/
structure Member where
  address : NodeAddress
  /-- The slot of the parent; the root has none. -/
  parent : Option Nat
  /-- The slots of the children, in the order in which they were added. -/
  children : List Nat
  /-- The number of members added below this one and not removed since. -/
  weight : Nat
  deriving DecidableEq

/-- The slots of a tree and how to find them. -/
structure Arena where
  slots : Array (Option Member)
  /-- The vacant slots, the one that was left last on top. -/
  free : List Nat
  root : Option Nat
  index : Table NodeAddress Nat

namespace Arena

/-- The arena without slots. -/
def empty : Arena :=
  ⟨#[], [], none, .empty⟩

/-- The member in a slot. -/
def member? (a : Arena) (slot : Nat) : Option Member :=
  a.slots[slot]?.join

/-- The slot of an address. -/
def slotOf (a : Arena) (address : NodeAddress) : Option Nat :=
  a.index.get? address

/-- Changes the member in a slot, if there is one. -/
def modify (a : Arena) (slot : Nat) (f : Member → Member) : Arena :=
  { a with slots := a.slots.modify slot (Option.map f) }

theorem member?_modify (a : Arena) (slot : Nat) (f : Member → Member) (other : Nat) :
    (a.modify slot f).member? other =
      if other = slot then (a.member? slot).map f else a.member? other := by
  simp only [member?, modify, Array.getElem?_modify]
  by_cases h : other = slot
  · subst h
    cases a.slots[other]? with
    | none => simp
    | some m => simp
  · rw [if_neg (Ne.symm h), if_neg h]

/-- Puts a member into the slot that was left last, or into a new one; also gives the slot. -/
def alloc (a : Arena) (m : Member) : Arena × Nat :=
  match a.free with
  | slot :: free =>
    ({ a with slots := a.slots.setIfInBounds slot (some m), free := free,
              index := a.index.insert m.address slot }, slot)
  | [] =>
    ({ a with slots := a.slots.push (some m), index := a.index.insert m.address a.slots.size },
      a.slots.size)

theorem member?_of_size_le {a : Arena} {slot : Nat} (h : a.slots.size ≤ slot) :
    a.member? slot = none := by
  rw [member?, Array.getElem?_eq_none h]
  rfl

/-- A member is put into a slot of its own, and all others keep theirs. -/
theorem member?_alloc (a : Arena) (m : Member) (h : ∀ slot ∈ a.free, slot < a.slots.size)
    (other : Nat) :
    (a.alloc m).1.member? other = if other = (a.alloc m).2 then some m else a.member? other := by
  obtain ⟨slots, free, root, index⟩ := a
  cases free with
  | nil =>
    simp only [alloc, member?, Array.getElem?_push]
    by_cases hs : other = slots.size
    · simp [hs]
    · simp [hs]
  | cons slot free =>
    have inside : slot < slots.size := h slot List.mem_cons_self
    simp only [alloc, member?, Array.getElem?_setIfInBounds]
    by_cases hs : other = slot
    · subst hs
      simp [inside]
    · simp [hs, Ne.symm hs]

@[simp] theorem alloc_root (a : Arena) (m : Member) : (a.alloc m).1.root = a.root := by
  unfold alloc
  split <;> rfl

@[simp] theorem alloc_index (a : Arena) (m : Member) :
    (a.alloc m).1.index = a.index.insert m.address (a.alloc m).2 := by
  unfold alloc
  split <;> rfl

/-- Makes a slot vacant. -/
def release (a : Arena) (slot : Nat) (address : NodeAddress) : Arena :=
  { a with slots := a.slots.setIfInBounds slot none, free := slot :: a.free,
           index := a.index.erase address,
           root := if a.root = some slot then none else a.root }

theorem member?_release (a : Arena) (slot : Nat) (address : NodeAddress) (other : Nat) :
    (a.release slot address).member? other = if other = slot then none else a.member? other := by
  simp only [member?, release, Array.getElem?_setIfInBounds]
  by_cases h : other = slot
  · subst h
    simp only [if_true]
    split <;> rfl
  · rw [if_neg (Ne.symm h), if_neg h]

/-- The addresses from a slot up to the root, over at most `fuel` slots. -/
def chainFrom (a : Arena) (slot : Nat) : Nat → List NodeAddress
  | 0 => []
  | fuel + 1 =>
    match a.member? slot with
    | none => []
    | some m =>
      m.address ::
        match m.parent with
        | none => []
        | some parent => a.chainFrom parent fuel

/-- The addresses from the root down to a slot. -/
def ancestry (a : Arena) (slot : Nat) : List NodeAddress :=
  (a.chainFrom slot a.slots.size).reverse

/-- The weight of the member in a slot. -/
def weight (a : Arena) (slot : Nat) : Nat :=
  match a.member? slot with
  | some m => m.weight
  | none => 0

/-- The lightest of some slots after `best`; among equals the first one stays. -/
def lighter (a : Arena) (best : Nat) : List Nat → Nat
  | [] => best
  | slot :: more => a.lighter (if a.weight slot < a.weight best then slot else best) more

/-- The first lightest of some slots. -/
def lightest (a : Arena) : List Nat → Option Nat
  | [] => none
  | slot :: more => some (a.lighter slot more)

/-- Goes down from `slot` to the first member with room for a child, each time to the lightest
child, and adds one to the weight of every member it meets. -/
def descend (a : Arena) (fanOut slot : Nat) : Nat → Arena × Nat
  | 0 => (a, slot)
  | fuel + 1 =>
    match a.member? slot with
    | none => (a, slot)
    | some m =>
      let a := a.modify slot fun m => { m with weight := m.weight + 1 }
      if m.children.length < fanOut then (a, slot)
      else
        match a.lightest m.children with
        | none => (a, slot)
        | some child => a.descend fanOut child fuel

/-- Takes one off the weight of a slot and of all above it. -/
def lighten (a : Arena) (slot : Nat) : Nat → Arena
  | 0 => a
  | fuel + 1 =>
    match a.member? slot with
    | none => a
    | some m =>
      let a := a.modify slot fun m => { m with weight := m.weight - 1 }
      match m.parent with
      | none => a
      | some parent => a.lighten parent fuel

/-- Places a new address; also gives its slot. -/
def insert (a : Arena) (fanOut : Nat) (address : NodeAddress) : Arena × Nat :=
  match a.root with
  | none =>
    let (a, slot) := a.alloc ⟨address, none, [], 0⟩
    ({ a with root := some slot }, slot)
  | some root =>
    let (a, parent) := a.descend fanOut root (a.slots.size + 1)
    let (a, slot) := a.alloc ⟨address, some parent, [], 0⟩
    (a.modify parent fun m => { m with children := m.children ++ [slot] }, slot)

/-- Takes out a member without children. -/
def detach (a : Arena) (slot : Nat) (m : Member) : Arena :=
  let a := match m.parent with
    | none => a
    | some parent =>
      (a.modify parent fun m => { m with children := m.children.filter (· ≠ slot) }).lighten parent
        a.slots.size
  a.release slot m.address

/-- Visits the slots on the stack and those below them, a parent before its children and these in
order, until a visit says to stop; the slot where it stopped. -/
def walkStack {m : Type → Type} [Monad m] (a : Arena) (visit : Nat → Nat → m Bool)
    (stack : List (Nat × Nat)) : Nat → m (Option Nat)
  | 0 => pure none
  | fuel + 1 =>
    match stack with
    | [] => pure none
    | (slot, height) :: stack => do
      if ← visit height slot then return some slot
      let below := match a.member? slot with
        | some member => member.children.map (·, height + 1)
        | none => []
      a.walkStack visit (below ++ stack) fuel

/-- Visits every slot from the root at height 0 on. -/
def walk {m : Type → Type} [Monad m] (a : Arena) (visit : Nat → Nat → m Bool) : m (Option Nat) :=
  match a.root with
  | none => pure none
  | some root => a.walkStack visit [(root, 0)] (a.slots.size + 1)

end Arena
end TreeCluster
