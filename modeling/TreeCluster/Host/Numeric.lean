import TreeCluster.Text.Decimal
import TreeCluster.Text.Hexadecimal
import TreeCluster.Text.Split

/-! # Hosts written in numbers

A host can be given by its address of 32 bits: up to four numbers with dots between them, where
each number but the last stands for one byte and the last one for the bytes that are left
(`address?`).  A number is hexadecimal after `0x`, octal after another zero, and decimal
otherwise.  The usual form has one decimal number for each byte (`dotted`). -/

namespace TreeCluster.Host.Numeric

open Text

/-- The number with these digits to a base of at most sixteen. -/
def ofDigits? (base : Nat) (digits : List Char) : Option Nat :=
  digits.foldlM (fun n c => do
    let d ← Hexadecimal.digitValue? c
    if d < base then some (n * base + d) else none) 0

/-- The number that is written between two dots. -/
def number? : List Char → Option Nat
  | [] => none
  | '0' :: 'x' :: d :: more => ofDigits? 16 (d :: more)
  | '0' :: 'X' :: d :: more => ofDigits? 16 (d :: more)
  | '0' :: more => ofDigits? 8 more
  | digits => ofDigits? 10 digits

/-- Puts numbers together below `high`, with room for so many addresses. -/
def combine? (high room : Nat) : List Nat → Option Nat
  | [] => none
  | [last] => if last < room then some (high * room + last) else none
  | n :: more =>
    if n < 256 ∧ 256 < room then combine? (high * 256 + n) (room / 256) more else none

/-- The address that a text of numbers and dots stands for. -/
def address? (host : String) : Option Nat := do
  let numbers ← (pieces '.' host.toList).mapM number?
  combine? 0 0x100000000 numbers

/-- The four bytes of an address with dots between them. -/
def dotted (address : Nat) : String :=
  ".".intercalate ([0x1000000, 0x10000, 0x100, 1].map fun unit =>
    Decimal.text (address / unit % 256))

end TreeCluster.Host.Numeric
