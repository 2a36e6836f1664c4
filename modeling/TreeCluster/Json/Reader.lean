import TreeCluster.Json.Scanner

/-! # Reading typed values from JSON text

A reader takes the text that is left and gives a value of its type with the text after it.  It
goes once from left to right and stops at the first problem, be it of syntax or of shape.

A record is read from an object by the names of its fields, in any order, or from an array by
their positions.  Unknown members of an object are passed over; a field that may be left out
keeps the value it has in the blank record. -/

namespace TreeCluster.Json

open Text

/-- Reads a value of type `α` from the front of a text. -/
abbrev Reader (α : Type) := List Char → Except ReadError (α × List Char)

/-- The error for a value of another type at the front of a text without leading blanks.  The
value is read far enough to be named. -/
def wrongType (due : String) (text : List Char) : ReadError :=
  let report (found : Found) : ReadError := .mismatch (.wrongType found due)
  let named (word : List Char) (rest : List Char) (found : Found) : ReadError :=
    match scanWord word rest with
    | .error e => e
    | .ok _ => report found
  let number (negative : Bool) (rest : List Char) : ReadError :=
    match scanNumber negative rest with
    | .error e => e
    | .ok (n, _) => report n.found
  match text with
  | [] => .malformed
  | 'n' :: rest => named ['u', 'l', 'l'] rest .null
  | 't' :: rest => named ['r', 'u', 'e'] rest (.bool true)
  | 'f' :: rest => named ['a', 'l', 's', 'e'] rest (.bool false)
  | '-' :: rest => number true rest
  | '"' :: rest =>
    match scanString rest with
    | .error e => e
    | .ok (cs, _) => report (.string (String.ofList cs))
  | '[' :: _ => report .sequence
  | '\x7b' :: _ => report .map
  | c :: _ => if c.isDigit then number false text else .malformed

/-! ### Plain values -/

/-- Reads a string. -/
def readString : Reader String := fun text =>
  match skipBlanks text with
  | [] => .error .cutOff
  | '"' :: rest => (scanString rest).map fun (cs, after) => (String.ofList cs, after)
  | other => .error (wrongType "a string" other)

/-- Reads `true` or `false`. -/
def readBool : Reader Bool := fun text =>
  match skipBlanks text with
  | [] => .error .cutOff
  | 't' :: rest => (scanWord ['r', 'u', 'e'] rest).map (true, ·)
  | 'f' :: rest => (scanWord ['a', 'l', 's', 'e'] rest).map (false, ·)
  | other => .error (wrongType "a boolean" other)

/-- Reads `null`, the value of a variant that carries nothing. -/
def readUnit : Reader Unit := fun text =>
  match skipBlanks text with
  | [] => .error .cutOff
  | 'n' :: rest => (scanWord ['u', 'l', 'l'] rest).map ((), ·)
  | other => .error (wrongType "unit" other)

/-- Checks that a number is a whole one up to `max`. -/
def checkNatural (due : String) (max : Nat) : Numeral → Except ReadError Nat
  | .whole n => if n ≤ max then .ok n else .error (.mismatch (.outOfRange n due))
  | .negative n => .error (.mismatch (.outOfRange (-(n : Int)) due))
  | .float x => .error (.mismatch (.wrongType (Numeral.float x).found due))

/-- Reads a whole number from 0 to `max`, where `due` is wanted. -/
def readNatural (due : String) (max : Nat) : Reader Nat := fun text =>
  let check : Numeral × List Char → Except ReadError (Nat × List Char) := fun (n, after) =>
    (checkNatural due max n).map (·, after)
  match skipBlanks text with
  | [] => .error .cutOff
  | '-' :: rest => scanNumber true rest >>= check
  | c :: rest =>
    if c.isDigit then scanNumber false (c :: rest) >>= check
    else .error (wrongType due (c :: rest))

/-- Reads a 16-bit number. -/
def readUInt16 : Reader UInt16 := fun text =>
  (readNatural "u16" 0xffff text).map fun (n, after) => (UInt16.ofNat n, after)

/-- Reads a 32-bit number. -/
def readUInt32 : Reader UInt32 := fun text =>
  (readNatural "u32" 0xffffffff text).map fun (n, after) => (UInt32.ofNat n, after)

/-- Reads a 64-bit number where `due` is wanted. -/
def readUInt64 (due : String) : Reader UInt64 := fun text =>
  (readNatural due 0xffffffffffffffff text).map fun (n, after) => (UInt64.ofNat n, after)

/-! ### Lists -/

/-- Looks for the next item of a list: the text where it starts, or the closing bracket, at
which the text still stands. -/
def nextItem (isFirst : Bool) (text : List Char) : Except ReadError (Bool × List Char) :=
  match skipBlanks text with
  | [] => .error .cutOff
  | ']' :: rest => .ok (false, ']' :: rest)
  | c :: rest =>
    if isFirst then .ok (true, c :: rest)
    else if c ≠ ',' then .error .malformed
    else
      match skipBlanks rest with
      | [] => .error .cutOff
      | ']' :: _ => .error .malformed
      | other => .ok (true, other)

/-- Takes the closing bracket of a list whose wanted items have all been read. -/
def closeList (text : List Char) : Except ReadError (List Char) :=
  match skipBlanks text with
  | [] => .error .cutOff
  | ']' :: rest => .ok rest
  | _ :: _ => .error .malformed

/-- Reads the items of a list up to its closing bracket; each takes at least one character. -/
def readItems (item : Reader α) (isFirst : Bool) (text : List Char) : Nat → Except ReadError (List α × List Char)
  | 0 => .error .cutOff
  | fuel + 1 => do
    let (more, text) ← nextItem isFirst text
    if more then
      let (a, text) ← item text
      let (as, text) ← readItems item false text fuel
      return (a :: as, text)
    else
      let after ← closeList text
      return ([], after)

/-- Reads a list. -/
def readList (item : Reader α) : Reader (List α) := fun text =>
  match skipBlanks text with
  | [] => .error .cutOff
  | '[' :: rest => readItems item true rest (rest.length + 1)
  | other => .error (wrongType "a sequence" other)

/-! ### Variants -/

/-- Takes the colon after a key. -/
def takeColon (text : List Char) : Except ReadError (List Char) :=
  match skipBlanks text with
  | [] => .error .cutOff
  | ':' :: rest => .ok rest
  | _ :: _ => .error .malformed

/-- Reads the name of a variant after its opening quote. -/
def readVariantName (variants : List (String × α)) : Reader α := fun text => do
  let (cs, after) ← scanString text
  match variants.lookup (String.ofList cs) with
  | some a => return (a, after)
  | none => throw (.mismatch (.unknownVariant (String.ofList cs) (variants.map Prod.fst)))

/-- Reads one of the named variants, as a string or as an object with `null` under the name. -/
def readVariant (variants : List (String × α)) : Reader α := fun text =>
  match skipBlanks text with
  | [] => .error .cutOff
  | '"' :: rest => readVariantName variants rest
  | '\x7b' :: rest =>
    match skipBlanks rest with
    | [] => .error .cutOff
    | '"' :: rest => do
      let (a, text) ← readVariantName variants rest
      let text ← takeColon text
      let (_, text) ← readUnit text
      match skipBlanks text with
      | [] => throw .cutOff
      | '\x7d' :: after => return (a, after)
      | _ :: _ => throw .malformed
    | _ :: _ => .error .malformed
  | _ :: _ => .error .malformed

/-! ### Records -/

/-- One field of a record: its name, whether it must be given, and how its value is read into
the record. -/
structure Field (σ : Type) where
  name : String
  required : Bool
  read : σ → Reader σ

/-- A field whose value is stored by `set`. -/
def Field.of (name : String) (required : Bool) (read : Reader α) (set : σ → α → σ) : Field σ :=
  ⟨name, required, fun s text => (read text).map fun (a, after) => (set s a, after)⟩

/-- A record type: the fields in their order, and the record that holds a value for each field
that may be left out. -/
structure Record (σ : Type) where
  name : String
  fields : List (Field σ)
  blank : σ

namespace Record

/-- What is due where the record is wanted. -/
def due (r : Record σ) : String :=
  "struct " ++ r.name

/-- What is due where the record is wanted as a list. -/
def dueLength (r : Record σ) : String :=
  r.due ++ " with " ++ Decimal.text r.fields.length ++
    (if r.fields.length = 1 then " element" else " elements")

/-- Reads the fields in order from the items of a list; after its end the others keep their
values if they may. -/
def readPositions (r : Record σ) (isFirst : Bool) (done : Nat) (s : σ) (text : List Char) :
    List (Field σ) → Except ReadError (σ × List Char)
  | [] => .ok (s, text)
  | f :: more => do
    let (present, text) ← nextItem isFirst text
    if present then
      let (s, text) ← f.read s text
      r.readPositions false (done + 1) s text more
    else if f.required then throw (.mismatch (.wrongLength done r.dueLength))
    else r.readPositions isFirst (done + 1) s text more

/-- Looks for the next key of an object: the text after its opening quote, or nothing at the
closing brace. -/
def nextKey (isFirst : Bool) (text : List Char) : Except ReadError (Option (List Char)) :=
  match skipBlanks text with
  | [] => .error .cutOff
  | '\x7d' :: _ => .ok none
  | c :: rest =>
    if isFirst then
      if c = '"' then .ok (some rest) else .error .malformed
    else if c ≠ ',' then .error .malformed
    else
      match skipBlanks rest with
      | [] => .error .cutOff
      | '"' :: after => .ok (some after)
      | _ :: _ => .error .malformed

/-- Reads the members of an object up to its closing brace, which stays; `seen` are the fields
read so far. -/
def readMembers (r : Record σ) (isFirst : Bool) (seen : List String) (s : σ) (text : List Char) :
    Nat → Except ReadError ((List String × σ) × List Char)
  | 0 => .error .cutOff
  | fuel + 1 => do
    match ← nextKey isFirst text with
    | none => return ((seen, s), text)
    | some text =>
      let (key, text) ← scanString text
      match r.fields.find? fun f => f.name = String.ofList key with
      | none =>
        let text ← takeColon text
        let text ← skipValue text
        r.readMembers false seen s text fuel
      | some f =>
        if f.name ∈ seen then throw (.mismatch (.duplicateField f.name))
        let text ← takeColon text
        let (s, text) ← f.read s text
        r.readMembers false (f.name :: seen) s text fuel

/-- Checks that every required field has been read. -/
def checkFields (r : Record σ) (seen : List String) : Except ReadError Unit :=
  match r.fields.find? fun f => f.required && !seen.contains f.name with
  | some f => .error (.mismatch (.missingField f.name))
  | none => .ok ()

/-- Takes the closing brace of an object whose members have all been read. -/
def closeObject (text : List Char) : Except ReadError (List Char) :=
  match skipBlanks text with
  | [] => .error .cutOff
  | '\x7d' :: rest => .ok rest
  | _ :: _ => .error .malformed

/-- Reads the record from an object or a list. -/
def read (r : Record σ) : Reader σ := fun text =>
  match skipBlanks text with
  | [] => .error .cutOff
  | '[' :: rest => do
    let (s, text) ← r.readPositions true 0 r.blank rest r.fields
    let after ← closeList text
    return (s, after)
  | '\x7b' :: rest => do
    let ((seen, s), text) ← r.readMembers true [] r.blank rest (rest.length + 1)
    r.checkFields seen
    let after ← closeObject text
    return (s, after)
  | other => .error (wrongType r.due other)

end Record

/-- Reads a whole text: one value with nothing but blanks around it. -/
def readAll (read : Reader α) (text : String) : Except ReadError α := do
  let (a, after) ← read text.toList
  match skipBlanks after with
  | [] => return a
  | _ :: _ => throw .malformed

end TreeCluster.Json
