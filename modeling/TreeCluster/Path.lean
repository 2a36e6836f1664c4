import TreeCluster.Address

/-! # Paths in the tree

A path joins the addresses from the root down to one member with `/`.  It is kept as its text,
which need not be well formed: `parse` accepts exactly the texts whose segments are named
addresses, while the readers (`segments`, `leader`, `nodeForm`, `addressForms`, `addresses`) work on
any. -/

namespace TreeCluster

open Text

/-- A chain of addresses, root first, as text. -/
structure NodePath where
  text : String
  deriving DecidableEq

namespace NodePath

/-- The character between segments. -/
def separator : Char := '/'

/-- The path of a root. -/
def root (a : NodeAddress) : NodePath :=
  ⟨a.text⟩

/-- The path of `a` as a child of this path. -/
def child (p : NodePath) (a : NodeAddress) : NodePath :=
  ⟨p.text ++ "/" ++ a.text⟩

/-- The path through the given addresses, root first. -/
def ofAddresses (as : List NodeAddress) : NodePath :=
  ⟨"/".intercalate (as.map NodeAddress.text)⟩

/-- Whether the text is empty. -/
def isEmpty (p : NodePath) : Bool :=
  p.text.isEmpty

/-- The characters of the segments: what stands between separators and is not empty. -/
def segmentChars (p : NodePath) : List (List Char) :=
  (pieces separator p.text.toList).filter (· ≠ [])

/-- The segments as texts. -/
def segments (p : NodePath) : List String :=
  p.segmentChars.map String.ofList

/-- The number of segments; a root path has depth 1. -/
def depth (p : NodePath) : Nat :=
  p.segmentChars.length

/-- The path of the leader one level up; a root has none. -/
def leader (p : NodePath) : Option NodePath :=
  (cutLast separator (trimEnds separator p.text.toList)).map fun (front, _) =>
    ⟨String.ofList front⟩

/-- The written address in the last segment. -/
def nodeForm (p : NodePath) : Except AddressError AddressForm :=
  match p.segments.getLast? with
  | none => .error .emptyPath
  | some segment => AddressForm.parse segment

/-- The address in the last segment, under the fresh name if none is written. -/
def node (fresh : String) (p : NodePath) : Except AddressError NodeAddress :=
  p.nodeForm.map (·.resolve fresh)

/-- The written addresses along the path, root first.  Only a path of empty text is refused as
empty. -/
def addressForms (p : NodePath) : Except AddressError (List AddressForm) :=
  if p.isEmpty then .error .emptyPath else p.segments.mapM AddressForm.parse

/-- The addresses along the path, each under a fresh name of its own if none is written. -/
def addresses (fresh : Nat → String) (p : NodePath) : Except AddressError (List NodeAddress) :=
  p.addressForms.map fun forms => forms.mapIdx fun k form => form.resolve (fresh k)

/-- Checks that a segment is a named address. -/
def checkSegment (segment : List Char) : Except AddressError Unit :=
  if '@' ∉ segment then .error (.malformedSegment (String.ofList segment))
  else (AddressForm.parse (String.ofList segment)).map fun _ => ()

/-- Checks segments in order up to the first fault. -/
def checkSegments : List (List Char) → Except AddressError Unit
  | [] => .ok ()
  | segment :: rest =>
    match checkSegment segment with
    | .error e => .error e
    | .ok () => checkSegments rest

/-- Reads a path.  Separators at both ends are dropped; every segment must be a named address. -/
def parse (text : String) : Except AddressError NodePath :=
  let trimmed := trimEnds separator text.toList
  if trimmed = [] then .error .emptyPath
  else
    match checkSegments (pieces separator trimmed) with
    | .error e => .error e
    | .ok () => .ok ⟨String.ofList trimmed⟩

/-- Paths are ordered by their texts. -/
def compare (p q : NodePath) : Ordering :=
  compareOfLessAndEq p.text q.text

end NodePath
end TreeCluster
