import TreeCluster.Text.Decimal

/-! # Durations

A span of time in whole nanoseconds.  The longest one that is represented has `2 ^ 64 - 1` whole
seconds (`Duration.longest`).  A sleep is never longer than thirty years
(`Duration.longestSleep`). -/

namespace TreeCluster

open Text

/-- A span of time. -/
structure Duration where
  nanos : Nat
  deriving DecidableEq

namespace Duration

/-- A span of milliseconds. -/
def ofMillis (n : Nat) : Duration :=
  ⟨n * 1000000⟩

/-- No time at all. -/
def zero : Duration :=
  ⟨0⟩

/-- The longest span. -/
def longest : Duration :=
  ⟨0x10000000000000000 * 1000000000 - 1⟩

/-- The shorter of two spans. -/
def min (a b : Duration) : Duration :=
  if a.nanos ≤ b.nanos then a else b

/-- Thirty years of 365 days. -/
def longestSleep : Duration :=
  .ofMillis 946080000000

/-- How long a sleep for the span takes, in milliseconds and rounded up. -/
def sleepMillis (d : Duration) : Nat :=
  ((d.min longestSleep).nanos + 999999) / 1000000

/-- `n` times the span, unless that passes the longest one. -/
def times? (d : Duration) (n : Nat) : Option Duration :=
  if d.nanos * n ≤ longest.nanos then some ⟨d.nanos * n⟩ else none

/-- A quotient with as many decimals, up to `places`, as are not zeros at the end; the divisor is
`10 ^ places`. -/
def decimals (n places : Nat) : String :=
  let whole := n / Nat.pow 10 places
  let fraction := n % Nat.pow 10 places
  let ds := (Decimal.padded places fraction).toList
  let kept := (ds.reverse.dropWhile (· = '0')).reverse
  if fraction = 0 then Decimal.text whole
  else Decimal.text whole ++ "." ++ String.ofList kept

/-- The span in the largest unit of which it holds a whole one, without zeros at the end. -/
def text (d : Duration) : String :=
  if d.nanos ≥ 1000000000 then decimals d.nanos 9 ++ "s"
  else if d.nanos ≥ 1000000 then decimals d.nanos 6 ++ "ms"
  else if d.nanos ≥ 1000 then decimals d.nanos 3 ++ "µs"
  else Decimal.text d.nanos ++ "ns"

end Duration
end TreeCluster
