import TreeCluster.Command.SipHash
import TreeCluster.Table
import TreeCluster.Text.Hexadecimal
import TreeCluster.Text.Quoted
import TreeCluster.Text.Utf8
import TreeCluster.Wire.Error
import TreeCluster.Wire.Layout

/-! # Commands

A command is known by a 32-bit dispatch id, a hash of its name.  Its frame is the id, the length
of the body and the body; both numbers take four bytes, big-endian.

The registry is two tables: from dispatch ids to named handlers, and from names to dispatch ids.  A
name whose id is taken by another name is refused, so the tables stay inverse to each other.

A handler turns the body of a command into an outcome of type `α`.  Typed handlers first read a
value from the body (`typed`). -/

namespace TreeCluster.Command

open Text

/-! ### Frames -/

/-- The dispatch id of a command name: the two halves of its hash, combined. -/
def dispatchId (name : String) : UInt32 :=
  let h := SipHash.hash 0x12340000 0x5678 (Utf8.encode name)
  ((h >>> 32) ^^^ (h &&& 0xffffffff)).toUInt32

/-- The length of id and body length. -/
def headerLength : Nat := 8

/-- The frame of a command. -/
def encode (id : UInt32) (body : Bytes) : Bytes :=
  Word.big 4 id.toNat ++ Word.big 4 body.length ++ body

/-- The command at the front of `input`, with the number of bytes it takes. -/
def decode (input : Bytes) : Except CodecError (UInt32 × Bytes × Nat) :=
  let available := input.length
  if available < headerLength then .error (.incomplete headerLength available)
  else
    let id := UInt32.ofNat (Word.ofBig (input.take 4))
    let length := Word.ofBig ((input.drop 4).take 4)
    let total := headerLength + length
    if available < total then .error (.incomplete total available)
    else .ok (id, (input.drop headerLength).take length, total)

/-! ### The registry -/

/-- Why a registry refuses a call. -/
inductive RegistryError where
  | collision (name existing : String) (id : UInt32)
  | duplicate (name : String)
  | unknownCommand (id : UInt32)
  | unknownName (name : String)
  deriving DecidableEq

/-- A dispatch id in its eight hexadecimal digits. -/
def idText (id : UInt32) : String :=
  "0x" ++ Hexadecimal.padded 8 id.toNat

/-- The sentence that reports the error. -/
def RegistryError.message : RegistryError → String
  | .collision name existing id =>
    "command '" ++ name ++ "' has the same dispatch id " ++ idText id ++ " as '" ++ existing ++ "'"
  | .duplicate name => "command '" ++ name ++ "' is already registered"
  | .unknownCommand id => "no command registered for dispatch id " ++ idText id
  | .unknownName name => "command '" ++ name ++ "' is not registered"

/-- Why a frame is not processed. -/
inductive ProcessError where
  | codec (e : CodecError)
  | registry (e : RegistryError)
  deriving DecidableEq

/-- A registered command. -/
structure Entry (α : Type) where
  name : String
  handler : Bytes → α

/-- The registered commands. -/
structure Registry (α : Type) where
  handlers : Table UInt32 (Entry α)
  ids : Table String UInt32

namespace Registry

variable {α : Type}

/-- The registry without commands. -/
def empty : Registry α :=
  ⟨.empty, .empty⟩

/-- Registers a handler under a name and an id. -/
def insert (r : Registry α) (name : String) (id : UInt32) (handler : Bytes → α) :
    Except RegistryError (Registry α) :=
  match r.handlers.get? id with
  | some existing =>
    if existing.name = name then .error (.duplicate name)
    else .error (.collision name existing.name id)
  | none => .ok ⟨r.handlers.insert id ⟨name, handler⟩, r.ids.insert name id⟩

/-- Registers a handler under a name and the id that `hash` gives it. -/
def registerUnder (hash : String → UInt32) (r : Registry α) (name : String)
    (handler : Bytes → α) : Except RegistryError (Registry α × UInt32) :=
  (r.insert name (hash name) handler).map (·, hash name)

/-- Registers a handler; gives the command's dispatch id. -/
def register (r : Registry α) (name : String) (handler : Bytes → α) :
    Except RegistryError (Registry α × UInt32) :=
  r.registerUnder dispatchId name handler

/-- The handler that reads a typed value from the body and passes it on. -/
def typed [Layout β] (refused : CodecError → α) (handler : β → α) (body : Bytes) : α :=
  match Layout.decode body with
  | .ok value => handler value
  | .error cause => refused (.body cause)

/-- Takes a command out; also says whether it was there. -/
def unregister (r : Registry α) (name : String) : Registry α × Bool :=
  match r.ids.get? name with
  | some id => (⟨r.handlers.erase id, r.ids.erase name⟩, r.handlers.contains id)
  | none => (r, false)

/-- The dispatch id of a registered name. -/
def idOf (r : Registry α) (name : String) : Except RegistryError UInt32 :=
  match r.ids.get? name with
  | some id => .ok id
  | none => .error (.unknownName name)

/-- The name that is registered under an id. -/
def nameOf (r : Registry α) (id : UInt32) : Option String :=
  (r.handlers.get? id).map Entry.name

/-- The number of commands. -/
def size (r : Registry α) : Nat :=
  r.handlers.size

/-- Whether no command is registered. -/
def isEmpty (r : Registry α) : Bool :=
  r.handlers.isEmpty

/-- The frame of a typed value under a registered name. -/
def encodeTyped [Layout β] (r : Registry α) (name : String) (value : β) :
    Except RegistryError Bytes :=
  (r.idOf name).map fun id => encode id (Layout.write value)

/-- Takes one frame off the front of `input` and runs its handler: the bytes taken and the
handler's outcome. -/
def process (r : Registry α) (input : Bytes) : Except ProcessError (Nat × α) :=
  match decode input with
  | .error e => .error (.codec e)
  | .ok (id, body, consumed) =>
    match r.handlers.get? id with
    | none => .error (.registry (.unknownCommand id))
    | some entry => .ok (consumed, entry.handler body)

/-- `process` where handlers are actions: the handler of the frame runs, or none does. -/
def perform {m : Type → Type} [Monad m] {ω : Type} (r : Registry (m ω)) (input : Bytes) :
    m (Except ProcessError (Nat × ω)) :=
  match r.process input with
  | .error e => pure (.error e)
  | .ok (consumed, action) => do
    let outcome ← action
    return .ok (consumed, outcome)

/-- The names with their ids. -/
def display (r : Registry α) : String :=
  let command : String × UInt32 → String := fun (name, id) =>
    Quoted.quoted name ++ ": " ++ Decimal.text id.toNat
  "CommandRegistry \x7b commands: \x7b" ++ ", ".intercalate (r.ids.entries.map command) ++
    "\x7d \x7d"

end Registry
end TreeCluster.Command
