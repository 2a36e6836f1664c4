import TreeCluster.Text.Decimal

/-! # The shortest decimal numeral of a double

A finite double is `mantissa * 2 ^ exponent`.  Every real number nearer to it than to its
neighbours reads back as the same double; among the decimal numbers in that interval
`shortest` picks one with the fewest digits, and of those the nearest.  All arithmetic is on
natural numbers.

`text` writes the digits positionally from `10 ^ (-5)` up to `10 ^ 16` and with an exponent
otherwise. -/

namespace TreeCluster.Text.Shortest

/-- A positive finite double as `mantissa * 2 ^ exponent`; the interval of reals that round to
it is half as wide below it when the mantissa is the least of its binade. -/
structure Binary where
  mantissa : Nat
  exponent : Int
  narrowBelow : Bool

/-- The bit of the mantissa that is not stored, which is the number of stored mantissas. -/
def hidden : Nat := 0x10000000000000

/-- The bit of the sign, which is the number of absolute values. -/
def signBit : Nat := 0x8000000000000000

/-- The parts of the absolute value of a finite double. -/
def Binary.ofBits (bits : Nat) : Binary :=
  let fraction := bits % hidden
  let biased : Nat := bits / hidden % 2048
  if biased = 0 then ⟨fraction, -1074, false⟩
  else ⟨hidden + fraction, (biased : Int) - 1075, fraction = 0 && biased > 1⟩

/-- A decimal number `digits * 10 ^ exponent`. -/
structure Decimal10 where
  digits : Nat
  exponent : Int

/-- Four times the value, over a power of two: `(numerator, denominator)`. -/
def Binary.quadruple (b : Binary) : Nat × Nat :=
  if b.exponent ≥ 0 then (4 * b.mantissa * Nat.pow 2 b.exponent.toNat, 1)
  else (4 * b.mantissa, Nat.pow 2 (-b.exponent).toNat)

/-- The largest `k`, at most `start`, with `den * 10 ^ k ≤ num`. -/
def magnitude (num den : Nat) (start : Int) : Nat → Int
  | 0 => start
  | fuel + 1 =>
    let fits := if start ≥ 0 then den * Nat.pow 10 start.toNat ≤ num
      else den ≤ num * Nat.pow 10 (-start).toNat
    if fits then start else magnitude num den (start - 1) fuel

/-- Looks for a point of the grid `10 ^ exponent` in the interval between `low / den` and
`high / den`; of the two neighbours of `num / den` the nearer one is tried first. -/
def onGrid? (num low high den : Nat) (closed : Bool) (exponent : Int) : Option Nat :=
  let scaleUp := if exponent < 0 then Nat.pow 10 (-exponent).toNat else 1
  let unit := if exponent < 0 then den else den * Nat.pow 10 exponent.toNat
  let floor := num * scaleUp / unit
  let inside (d : Nat) : Bool :=
    if closed then low * scaleUp ≤ d * unit && d * unit ≤ high * scaleUp
    else low * scaleUp < d * unit && d * unit < high * scaleUp
  let remainder := num * scaleUp % unit
  let upperFirst := 2 * remainder > unit || (2 * remainder = unit && floor % 2 = 1)
  let candidates := if upperFirst then [floor + 1, floor] else [floor, floor + 1]
  candidates.find? fun d => d > 0 && inside d

/-- Tries finer and finer grids, from `exponent` down. -/
def search (num low high den : Nat) (closed : Bool) (exponent : Int) : Nat → Decimal10
  | 0 => ⟨num / den, 0⟩
  | fuel + 1 =>
    match onGrid? num low high den closed exponent with
    | some d => ⟨d, exponent⟩
    | none => search num low high den closed (exponent - 1) fuel

/-- The shortest decimal number that reads back as the double. -/
def Binary.shortest (b : Binary) : Decimal10 :=
  let (num, den) := b.quadruple
  let unit := if b.exponent ≥ 0 then Nat.pow 2 b.exponent.toNat else 1
  let low := num - (if b.narrowBelow then unit else 2 * unit)
  let high := num + 2 * unit
  let top := magnitude num (4 * den) 309 700
  search num low high (4 * den) (b.mantissa % 2 = 0) top 20

/-- Digits without trailing zeros, and the power of ten of the first one. -/
def Decimal10.normal (d : Decimal10) : List Char × Int :=
  let ds := Decimal.digits d.digits
  (((ds.reverse.dropWhile (· = '0')).reverse), d.exponent + (ds.length - 1 : Nat))

/-- An exponent with its sign, also where it is positive. -/
def exponentText (e : Int) : String :=
  (if e < 0 then "e-" else "e+") ++ Decimal.text e.natAbs

/-- Digits with the point after the first `1 + power` of them, or with an exponent where that
would take more than sixteen places before the point or five zeros after it. -/
def layout (ds : List Char) (power : Int) : String :=
  if 0 ≤ power ∧ power ≤ 15 then
    let whole := ds.take (power.toNat + 1)
    let fraction := ds.drop (power.toNat + 1)
    String.ofList (whole ++ List.replicate (power.toNat + 1 - whole.length) '0') ++ "." ++
      (if fraction.isEmpty then "0" else String.ofList fraction)
  else if -5 ≤ power ∧ power < 0 then
    "0." ++ String.ofList (List.replicate ((-power).toNat - 1) '0' ++ ds)
  else
    match ds with
    | [] => "0.0"
    | [d] => String.ofList [d] ++ exponentText power
    | d :: more => String.ofList (d :: '.' :: more) ++ exponentText power

/-- The numeral of a finite double. -/
def text (x : Float) : String :=
  let bits := x.toBits.toNat
  let sign := if bits ≥ signBit then "-" else ""
  let magnitudeBits := bits % signBit
  if magnitudeBits = 0 then sign ++ "0.0"
  else
    let (ds, power) := (Binary.ofBits magnitudeBits).shortest.normal
    sign ++ layout ds power

end TreeCluster.Text.Shortest
