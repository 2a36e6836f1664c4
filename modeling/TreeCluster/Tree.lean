import TreeCluster.Path
import TreeCluster.Tree.Arena

/-! # The placement tree

Every node has at most `fanOut` children.  A new address goes to the first node with room on the
way from the root to ever lighter children; it keeps its place until it is removed, and only a
node without children can be. -/

namespace TreeCluster

open Text

/-- A placement tree. -/
structure Tree where
  fanOut : Nat
  arena : Arena
  lastAdded : Option NodePath
  lastRemoved : Option NodePath

namespace Tree

/-- The fan-out of a tree for which none is chosen. -/
def defaultFanOut : Nat := 5

/-- A tree without members; there is always room for one child. -/
def withFanOut (fanOut : Nat) : Tree :=
  ⟨max fanOut 1, .empty, none, none⟩

/-- A tree without members, of the default fan-out. -/
def empty : Tree :=
  withFanOut defaultFanOut

/-- The path of the member in a slot. -/
def pathOf (t : Tree) (slot : Nat) : NodePath :=
  .ofAddresses (t.arena.ancestry slot)

/-- Places an address, unless it is there; gives its path. -/
def add (t : Tree) (address : NodeAddress) : Tree × NodePath :=
  match t.arena.slotOf address with
  | some slot => (t, t.pathOf slot)
  | none =>
    let (arena, slot) := t.arena.insert t.fanOut address
    let t := { t with arena := arena }
    let path := t.pathOf slot
    ({ t with lastAdded := some path }, path)

/-- Takes out a member without children; also says whether it did. -/
def remove (t : Tree) (address : NodeAddress) : Tree × Bool :=
  match t.arena.slotOf address with
  | none => (t, false)
  | some slot =>
    match t.arena.member? slot with
    | none => (t, false)
    | some m =>
      if m.children ≠ [] then (t, false)
      else ({ t with arena := t.arena.detach slot m, lastRemoved := some (t.pathOf slot) }, true)

/-- Takes out every member and forgets the last changes. -/
def clear (t : Tree) : Tree :=
  { t with arena := .empty, lastAdded := none, lastRemoved := none }

/-- The path of a member. -/
def search (t : Tree) (address : NodeAddress) : Option NodePath :=
  (t.arena.slotOf address).map t.pathOf

/-- The number of members. -/
def size (t : Tree) : Nat :=
  t.arena.index.size

/-- Whether there are no members. -/
def isEmpty (t : Tree) : Bool :=
  t.arena.index.isEmpty

/-- The path of the root. -/
def root (t : Tree) : Option NodePath :=
  t.arena.root.map t.pathOf

/-- The paths of a member's children, in the order in which they were added. -/
def childrenOf (t : Tree) (address : NodeAddress) : Option (List NodePath) := do
  let slot ← t.arena.slotOf address
  let m ← t.arena.member? slot
  return m.children.map t.pathOf

/-- The number of members below a member. -/
def weightOf (t : Tree) (address : NodeAddress) : Option Nat := do
  let slot ← t.arena.slotOf address
  let m ← t.arena.member? slot
  return m.weight

/-- The first member, parents first, whose address is wanted. -/
def find (t : Tree) (wanted : NodeAddress → Bool) : Option NodePath :=
  let visit (_ slot : Nat) : Id Bool :=
    match t.arena.member? slot with
    | some m => wanted m.address
    | none => false
  (t.arena.walk visit).run.map t.pathOf

/-- The first member of a name, parents first. -/
def searchName (t : Tree) (name : String) : Option NodePath :=
  t.find fun a => a.name = name

/-- The first member at an endpoint, parents first. -/
def searchEndpoint (t : Tree) (endpoint : String) : Option NodePath :=
  t.find fun a => a.endpoint = endpoint

/-- Offers the members at or below a height to `stop`, parents first, until it accepts one. -/
def floop {m : Type → Type} [Monad m] (t : Tree) (start : Nat) (stop : Nat → NodePath → m Bool) :
    m (Option NodePath) := do
  let found ← t.arena.walk fun height slot =>
    if start ≤ height then stop height (t.pathOf slot) else pure false
  return found.map t.pathOf

/-- The paths of the children of the member in a slot. -/
def siblings (t : Tree) (slot : Nat) : List NodePath :=
  match t.arena.member? slot with
  | some m => m.children.map t.pathOf
  | none => []

/-- Offers groups of siblings with their height to `stop` until it accepts one: first the root
alone, then the children of each member, parents first. -/
def floopGroup {m : Type → Type} [Monad m] (t : Tree) (stop : Nat → List NodePath → m Bool) :
    m (Option (List NodePath)) := do
  match t.arena.root with
  | none => return none
  | some root =>
    if ← stop 0 [t.pathOf root] then return some [t.pathOf root]
    let found ← t.arena.walk fun height slot =>
      if (t.siblings slot).isEmpty then pure false else stop (height + 1) (t.siblings slot)
    return found.map t.siblings

/-- One member as a line, indented by its height. -/
def line (height : Nat) (m : Member) : String :=
  String.ofList (List.replicate ((height + 1) * 2) ' ') ++ m.address.text ++ " (weight " ++
    Decimal.text m.weight ++ ")\n"

/-- A header line, and a line for each member, parents first. -/
def display (t : Tree) : String :=
  let header := "NodeTree[fan_out=" ++ Decimal.text t.fanOut ++ " nodes=" ++ Decimal.text t.size ++
    "]\n"
  let visit (height slot : Nat) : StateM (List String) Bool := do
    match t.arena.member? slot with
    | some m => modify (line height m :: ·)
    | none => pure ()
    return false
  let (_, lines) := (t.arena.walk visit).run []
  header ++ String.join lines.reverse

end Tree
end TreeCluster
