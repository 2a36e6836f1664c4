import TreeCluster.Text.Decimal
import TreeCluster.Text.Split

/-! # Node addresses

A node is addressed as `name@host:port`; `host:port` is its endpoint.  The written form may
leave the name out (`AddressForm`), and a reader then supplies a fresh one.

The port of a publisher is the address's port, and its point-to-point receiver listens on the
next one (`receiverAddress`). -/

namespace TreeCluster

open Text

/-- Why a text is no address or no path. -/
inductive AddressError where
  /-- A path without a segment. -/
  | emptyPath
  /-- A text that is not of the form `name@host:port`. -/
  | malformedSegment (segment : String)
  /-- A port that is no number below 65536. -/
  | invalidPort (segment : String)
  deriving DecidableEq

/-- The sentence that reports an address error. -/
def AddressError.message : AddressError → String
  | .emptyPath => "empty node path"
  | .malformedSegment segment => s!"malformed node segment '{segment}', expected name@host:port"
  | .invalidPort segment => s!"invalid port in '{segment}'"

/-- The address of one node. -/
structure NodeAddress where
  name : String
  host : String
  port : UInt16
  deriving DecidableEq

namespace NodeAddress

/-- The host and port to dial, `host:port`. -/
def endpoint (a : NodeAddress) : String :=
  a.host ++ ":" ++ Decimal.text a.port.toNat

/-- The written form `name@host:port`. -/
def text (a : NodeAddress) : String :=
  a.name ++ "@" ++ a.endpoint

/-- The same node on a later port; ports past 65535 are refused. -/
def withPortOffset (a : NodeAddress) (offset : UInt16) : Except AddressError NodeAddress :=
  if a.port.toNat + offset.toNat < 65536 then .ok { a with port := a.port + offset }
  else .error (.invalidPort (a.text ++ "+" ++ Decimal.text offset.toNat))

/-- Where the node's receiver listens: the port after the publisher's. -/
def receiverAddress (a : NodeAddress) : Except AddressError NodeAddress :=
  a.withPortOffset 1

/-- Addresses are ordered by name, then host, then port; texts by code points. -/
def compare (a b : NodeAddress) : Ordering :=
  (compareOfLessAndEq a.name b.name).then
    ((compareOfLessAndEq a.host b.host).then (compareOfLessAndEq a.port b.port))

end NodeAddress

/-- An address as it is written: the name may be missing. -/
structure AddressForm where
  name : Option String
  host : String
  port : UInt16
  deriving DecidableEq

namespace AddressForm

/-- Cuts the name off at the first `@`: a written name is not empty. -/
def cutName (text : List Char) : Option (Option (List Char) × List Char) :=
  match cutFirst '@' text with
  | some ([], _) => none
  | some (name, endpoint) => some (some name, endpoint)
  | none => some (none, text)

/-- A port is written in digits, after an optional plus sign. -/
def readPort (text : List Char) : Option UInt16 := do
  let digits := match text with
    | '+' :: digits => digits
    | digits => digits
  let n ← Decimal.value? digits
  if n < 65536 then some (UInt16.ofNat n) else none

/-- Reads `name@host:port` or `host:port`.  The name ends at the first `@`, the host at the
last colon. -/
def parse (text : String) : Except AddressError AddressForm :=
  let chars := text.toList
  if chars = [] ∨ '/' ∈ chars then .error (.malformedSegment text)
  else
    match cutName chars with
    | none => .error (.malformedSegment text)
    | some (name, endpoint) =>
      match cutLast ':' endpoint with
      | none => .error (.malformedSegment text)
      | some ([], _) => .error (.malformedSegment text)
      | some (host, port) =>
        match readPort port with
        | none => .error (.invalidPort text)
        | some port => .ok ⟨name.map String.ofList, String.ofList host, port⟩

/-- The address, under the fresh name if none is written. -/
def resolve (fresh : String) (form : AddressForm) : NodeAddress :=
  ⟨form.name.getD fresh, form.host, form.port⟩

end AddressForm

/-- Reads an address; a text without a name gets the fresh one. -/
def NodeAddress.parse (fresh : String) (text : String) : Except AddressError NodeAddress :=
  (AddressForm.parse text).map (·.resolve fresh)

end TreeCluster
