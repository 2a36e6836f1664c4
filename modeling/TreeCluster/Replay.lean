import TreeCluster.Tree
import TreeCluster.Wire.Layout

/-! # Replay logs

A log lists the changes of a tree's membership: the path of each member that was added or
removed, and the times when the tree was emptied.

A tree is rebuilt by applying the entries in order, each to the address in the last segment of its
path (`NodePath.node`).  A name is drawn for each entry, `fresh k` for entry `k`, and taken if the
segment has none.  Nothing looks at the tree for it, so it may be one that a member has. -/

namespace TreeCluster

/-- The kind of a change. -/
inductive ReplayAction where
  | add
  | remove
  | clean
  deriving DecidableEq, Inhabited

namespace ReplayAction

/-- Every kind, in the order of their numbers. -/
def all : List ReplayAction :=
  [add, remove, clean]

/-- The lower-case name. -/
def text : ReplayAction → String
  | add => "add"
  | remove => "remove"
  | clean => "clean"

end ReplayAction

/-- One change. -/
structure ReplayEntry where
  action : ReplayAction
  path : NodePath
  deriving DecidableEq

/-- The changes in order. -/
structure ReplayLog where
  entries : List ReplayEntry
  deriving DecidableEq

namespace ReplayLog

/-- The log without entries. -/
def empty : ReplayLog :=
  ⟨[]⟩

/-- Appends an entry. -/
def record (log : ReplayLog) (entry : ReplayEntry) : ReplayLog :=
  ⟨log.entries ++ [entry]⟩

/-- Records that the tree was emptied. -/
def recordClean (log : ReplayLog) : ReplayLog :=
  log.record ⟨.clean, ⟨""⟩⟩

end ReplayLog

instance : Layout NodePath where
  write p := Layout.write p.text
  read input := (Layout.read input).map fun (s, rest) => (⟨s⟩, rest)

instance : Layout ReplayAction :=
  Layout.variants ReplayAction.all

instance : Layout ReplayEntry where
  write e := Layout.write (e.action, e.path)
  read input := (Layout.read input).map fun ((action, path), rest) => (⟨action, path⟩, rest)

instance : Layout ReplayLog where
  write log := Layout.write log.entries
  read input := (Layout.read input).map fun (entries, rest) => (⟨entries⟩, rest)

/-! ### Rebuilding a tree -/

namespace Tree

/-- Applies one entry; its address has the fresh name if none is written. -/
def applyEntry (t : Tree) (fresh : String) (e : ReplayEntry) : Except AddressError Tree :=
  match e.action with
  | .add => (e.path.node fresh).map fun address => (t.add address).1
  | .remove => (e.path.node fresh).map fun address => (t.remove address).1
  | .clean => .ok t.clear

/-- Applies entries in order, with the names drawn for them, up to the first whose path holds no
address: the tree that is reached, and the error. -/
def replay (t : Tree) (fresh : Nat → String) : List ReplayEntry → Tree × Except AddressError Unit
  | [] => (t, .ok ())
  | e :: rest =>
    match t.applyEntry (fresh 0) e with
    | .error cause => (t, .error cause)
    | .ok t => t.replay (fun k => fresh (k + 1)) rest

/-- The tree that a list of entries builds. -/
def ofReplay (fanOut : Nat) (fresh : Nat → String) (entries : List ReplayEntry) :
    Except AddressError Tree :=
  match (withFanOut fanOut).replay fresh entries with
  | (t, .ok ()) => .ok t
  | (_, .error cause) => .error cause

end Tree
end TreeCluster
