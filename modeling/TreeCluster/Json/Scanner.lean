import TreeCluster.Json.Error
import TreeCluster.Text.Shortest

/-! # Scanning JSON text

Each scanner takes the text that is left and gives what it read with the text after it, or the
first fault on the way.  Strings and numbers are read here, and `skipValue` passes over a value
of any shape. -/

namespace TreeCluster.Json

open Text

/-- The four blank characters. -/
def isBlank (c : Char) : Bool :=
  c = ' ' || c = '\n' || c = '\t' || c = '\r'

/-- The text after leading blanks. -/
def skipBlanks (text : List Char) : List Char :=
  text.dropWhile isBlank

/-- Reads exactly the rest of a word. -/
def scanWord : List Char → List Char → Except ReadError (List Char)
  | [], text => .ok text
  | _ :: _, [] => .error .cutOff
  | w :: word, c :: text => if c = w then scanWord word text else .error .malformed

/-! ### Strings -/

/-- Whether the text has at least `n` bytes. -/
def hasBytes : Nat → List Char → Bool
  | 0, _ => true
  | _ + 1, [] => false
  | n + 1, c :: rest => hasBytes (n + 1 - c.utf8Size) rest

/-- The value of the four digits at the front. -/
def hexFour (text : List Char) : Except ReadError Nat :=
  match text with
  | a :: b :: c :: d :: _ =>
    match Hexadecimal.digitValue? a, Hexadecimal.digitValue? b, Hexadecimal.digitValue? c,
        Hexadecimal.digitValue? d with
    | some a, some b, some c, some d => .ok (((a * 16 + b) * 16 + c) * 16 + d)
    | _, _, _, _ => .error .malformed
  | few => if hasBytes 4 few then .error .malformed else .error .cutOff

/-- Reads what follows a backslash and `u`: the character and the length of its escape.  A high
surrogate must be followed by the escape of a low one. -/
def unicodeEscape (text : List Char) : Except ReadError (Char × Nat) := do
  let n ← hexFour text
  if 0xDC00 ≤ n ∧ n ≤ 0xDFFF then throw .malformed
  if n < 0xD800 ∨ 0xDBFF < n then return (Char.ofNat n, 4)
  match text.drop 4 with
  | [] => throw .cutOff
  | '\\' :: rest =>
    match rest with
    | [] => throw .cutOff
    | 'u' :: rest =>
      let low ← hexFour rest
      if low < 0xDC00 ∨ 0xDFFF < low then throw .malformed
      return (Char.ofNat ((n - 0xD800) * 1024 + (low - 0xDC00) + 0x10000), 10)
    | _ :: _ => throw .malformed
  | _ :: _ => throw .malformed

/-- The character of a one-letter escape. -/
def simpleEscape : Char → Option Char
  | '"' => some '"'
  | '\\' => some '\\'
  | '/' => some '/'
  | 'b' => some '\x08'
  | 'f' => some '\x0c'
  | 'n' => some '\n'
  | 'r' => some '\r'
  | 't' => some '\t'
  | _ => none

/-- Reads what follows a backslash: the character and the length of its escape. -/
def escaped (text : List Char) : Except ReadError (Char × Nat) :=
  match text with
  | [] => .error .cutOff
  | 'u' :: rest => (unicodeEscape rest).map fun (c, width) => (c, width + 1)
  | e :: _ =>
    match simpleEscape e with
    | some c => .ok (c, 1)
    | none => .error .malformed

/-- Reads a string after its opening quote. -/
def scanString (text : List Char) : Except ReadError (List Char × List Char) :=
  match text with
  | [] => .error .cutOff
  | '"' :: rest => .ok ([], rest)
  | '\\' :: rest =>
    match escaped rest with
    | .error e => .error e
    | .ok (c, width) => (scanString (rest.drop width)).map fun (cs, after) => (c :: cs, after)
  | c :: rest =>
    if c.toNat < 32 then .error .malformed
    else (scanString rest).map fun (cs, after) => (c :: cs, after)
termination_by text.length
decreasing_by all_goals simp [List.length_drop]; try omega

/-- The length of an escape that nobody reads: surrogates need not be paired. -/
def escapedWidth (text : List Char) : Except ReadError Nat :=
  match text with
  | [] => .error .cutOff
  | 'u' :: rest => (hexFour rest).map fun _ => 5
  | e :: _ => if (simpleEscape e).isSome then .ok 1 else .error .malformed

/-- Passes over a string after its opening quote. -/
def skipString (text : List Char) : Except ReadError (List Char) :=
  match text with
  | [] => .error .cutOff
  | '"' :: rest => .ok rest
  | '\\' :: rest =>
    match escapedWidth rest with
    | .error e => .error e
    | .ok width => skipString (rest.drop width)
  | c :: rest => if c.toNat < 32 then .error .malformed else skipString rest
termination_by text.length
decreasing_by all_goals simp [List.length_drop]; try omega

/-! ### Numbers -/

/-- A number as it is read: a whole number of 64 bits, or a double. -/
inductive Numeral where
  | whole (n : Nat)
  | negative (n : Nat)
  | float (x : Float)

/-- How the number is reported. -/
def Numeral.found : Numeral → Found
  | .whole n => .integer n
  | .negative n => .integer (-(n : Int))
  | .float x => .float (Shortest.text x)

/-- The largest number that is kept exactly. -/
def maxWhole : Nat := 0xffffffffffffffff

/-- Digits collected up to `maxWhole`; the digits from the first one that would pass it on only
count. -/
structure Significand where
  value : Nat
  dropped : Nat

/-- Takes one more digit. -/
def Significand.push (s : Significand) (c : Char) : Significand :=
  if s.dropped > 0 ∨ s.value * 10 + Decimal.digitValue c > maxWhole then
    { s with dropped := s.dropped + 1 }
  else { s with value := s.value * 10 + Decimal.digitValue c }

/-- The double `value * 10 ^ exponent`, rounded in steps of at most 308 places; a value beyond
the doubles is refused. -/
def scaled (x : Float) (exponent : Int) : Except ReadError Float :=
  if exponent.natAbs ≤ 308 then
    let power := Float.ofScientific 1 false exponent.natAbs
    if exponent ≥ 0 then
      let y := x * power
      if y.isInf then .error .malformed else .ok y
    else .ok (x / power)
  else if x == 0.0 then .ok x
  else if h : exponent ≥ 0 then .error .malformed
  else scaled (x / Float.ofScientific 1 false 308) (exponent + 308)
termination_by exponent.natAbs
decreasing_by omega

/-- The number with the sign in front. -/
def signedFloat (negative : Bool) (significand : Nat) (exponent : Int) :
    Except ReadError Numeral := do
  let x ← scaled (UInt64.ofNat significand).toFloat exponent
  return .float (if negative then -x else x)

/-- The greatest exponent that is read. -/
def maxExponent : Nat := 0x7fffffff

/-- Reads an exponent after its letter. -/
def scanExponent (negative : Bool) (significand : Nat) (start : Int) (text : List Char) :
    Except ReadError (Numeral × List Char) :=
  let (down, text) := match text with
    | '+' :: rest => (false, rest)
    | '-' :: rest => (true, rest)
    | rest => (false, rest)
  match text with
  | [] => .error .cutOff
  | c :: _ =>
    if !c.isDigit then .error .malformed
    else
      let after := text.dropWhile Char.isDigit
      let e := Decimal.valueFrom 0 (text.takeWhile Char.isDigit)
      if e > maxExponent then
        if significand ≠ 0 ∧ !down then .error .malformed
        else .ok (.float (if negative then -0.0 else 0.0), after)
      else do
        let total := if down then max (start - e) (-(maxExponent : Int) - 1)
          else min (start + e) maxExponent
        let n ← signedFloat negative significand total
        return (n, after)

/-- Reads what may follow the whole digits: a fraction and an exponent. -/
def scanFraction (negative : Bool) (s : Significand) (text : List Char) : Except ReadError (Numeral × List Char) :=
  match text with
  | '.' :: rest =>
    match rest with
    | [] => .error .cutOff
    | c :: _ =>
      if !c.isDigit then .error .malformed
      else do
        let ds := rest.takeWhile Char.isDigit
        let all := ds.foldl Significand.push ⟨s.value, 0⟩
        let kept := ds.length - all.dropped
        let exponent : Int := s.dropped - kept
        match rest.dropWhile Char.isDigit with
        | 'e' :: after => scanExponent negative all.value exponent after
        | 'E' :: after => scanExponent negative all.value exponent after
        | after => return (← signedFloat negative all.value exponent, after)
  | 'e' :: after => scanExponent negative s.value s.dropped after
  | 'E' :: after => scanExponent negative s.value s.dropped after
  | after =>
    if s.dropped > 0 then do return (← signedFloat negative s.value s.dropped, after)
    else if !negative then .ok (.whole s.value, after)
    else if s.value = 0 ∨ s.value > 0x8000000000000000 then do
      return (← signedFloat true s.value 0, after)
    else .ok (.negative s.value, after)

/-- Reads a number after its sign.  There is no leading zero. -/
def scanNumber (negative : Bool) (text : List Char) : Except ReadError (Numeral × List Char) :=
  match text with
  | [] => .error .cutOff
  | '0' :: rest =>
    match rest with
    | c :: _ => if c.isDigit then .error .malformed else scanFraction negative ⟨0, 0⟩ rest
    | [] => scanFraction negative ⟨0, 0⟩ rest
  | c :: _ =>
    if !c.isDigit then .error .malformed
    else
      scanFraction negative ((text.takeWhile Char.isDigit).foldl Significand.push ⟨0, 0⟩)
        (text.dropWhile Char.isDigit)

/-- Passes over an exponent after its letter. -/
def skipExponent (text : List Char) : Except ReadError (List Char) :=
  let text := match text with
    | '+' :: rest => rest
    | '-' :: rest => rest
    | rest => rest
  match text with
  | c :: rest => if c.isDigit then .ok (rest.dropWhile Char.isDigit) else .error .malformed
  | [] => .error .malformed

/-- Passes over what may follow whole digits. -/
def skipFraction (text : List Char) : Except ReadError (List Char) :=
  match text with
  | '.' :: rest =>
    match rest with
    | [] => .error .malformed
    | c :: _ =>
      if !c.isDigit then .error .malformed
      else
        match rest.dropWhile Char.isDigit with
        | 'e' :: after => skipExponent after
        | 'E' :: after => skipExponent after
        | after => .ok after
  | 'e' :: after => skipExponent after
  | 'E' :: after => skipExponent after
  | after => .ok after

/-- Passes over a number after its sign.  A sign at the very end is malformed here. -/
def skipNumber (text : List Char) : Except ReadError (List Char) :=
  match text with
  | [] => .error .malformed
  | '0' :: rest =>
    match rest with
    | c :: _ => if c.isDigit then .error .malformed else skipFraction rest
    | [] => .ok []
  | c :: _ =>
    if !c.isDigit then .error .malformed else skipFraction (text.dropWhile Char.isDigit)

/-! ### Values that nobody reads -/

/-- What is open around a value that is passed over. -/
inductive Bracket where
  | list
  | object

/-- What is due next while values are passed over. -/
inductive Due where
  /-- A value. -/
  | value
  /-- A closing bracket, or the first item of the innermost list or object. -/
  | first
  /-- A comma or a closing bracket. -/
  | more
  /-- A key of the innermost object. -/
  | key

/-- One step over values that nobody reads: the brackets that are then open, what is due next,
and the text after it. -/
def skipStep (opened : List Bracket) (due : Due) (text : List Char) :
    Except ReadError (List Bracket × Due × List Char) :=
  let text := skipBlanks text
  match due, text, opened with
  | _, [], _ => .error .cutOff
  | .value, c :: rest, _ =>
    match c with
    | 'n' => (scanWord ['u', 'l', 'l'] rest).map (opened, .more, ·)
    | 't' => (scanWord ['r', 'u', 'e'] rest).map (opened, .more, ·)
    | 'f' => (scanWord ['a', 'l', 's', 'e'] rest).map (opened, .more, ·)
    | '"' => (skipString rest).map (opened, .more, ·)
    | '[' => .ok (.list :: opened, .first, rest)
    | '\x7b' => .ok (.object :: opened, .first, rest)
    | '-' => (skipNumber rest).map (opened, .more, ·)
    | c =>
      if c.isDigit then (skipNumber text).map (opened, .more, ·) else .error .malformed
  | .first, c :: rest, .list :: outer =>
    if c = ']' then .ok (outer, .more, rest) else .ok (opened, .value, text)
  | .first, c :: rest, .object :: outer =>
    if c = '\x7d' then .ok (outer, .more, rest) else .ok (opened, .key, text)
  | .more, c :: rest, .list :: outer =>
    if c = ']' then .ok (outer, .more, rest)
    else if c = ',' then .ok (opened, .value, rest)
    else .error .malformed
  | .more, c :: rest, .object :: outer =>
    if c = '\x7d' then .ok (outer, .more, rest)
    else if c = ',' then .ok (opened, .key, rest)
    else .error .malformed
  | .key, c :: rest, _ => do
    if c ≠ '"' then throw .malformed
    let after ← skipString rest
    match skipBlanks after with
    | [] => throw .cutOff
    | ':' :: after => return (opened, .value, after)
    | _ :: _ => throw .malformed
  | _, _ :: _, [] => .error .malformed

/-- Steps until the outermost value is complete. -/
def skipSteps (opened : List Bracket) (due : Due) (text : List Char) :
    Nat → Except ReadError (List Char)
  | 0 => .error .cutOff
  | fuel + 1 =>
    match skipStep opened due text with
    | .error e => .error e
    | .ok ([], .more, after) => .ok after
    | .ok (opened, due, after) => skipSteps opened due after fuel

/-- Passes over one value.  Every two steps take at least one character. -/
def skipValue (text : List Char) : Except ReadError (List Char) :=
  skipSteps [] .value text (2 * text.length + 2)

end TreeCluster.Json
