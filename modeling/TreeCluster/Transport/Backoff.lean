import TreeCluster.Duration

/-! # Failures and another try

A socket refuses a call, or gives up a connection, for one of a few reasons (`TransportError`).

After each failed attempt the wait doubles, up to a limit (`Backoff.delayAfter`).
`Backoff.retryWith` makes attempts until one succeeds or their number is used up; `Backoff.retry`
does so with outcomes that are known, and records the waits. -/

namespace TreeCluster

/-- Why a socket refuses a call, or what became of a connection. -/
inductive TransportError where
  | notBound
  | noPeers
  | localOnly
  | closed
  /-- A dial failed; the host system knows why. -/
  | connect (peer : String)
  | backlogged (peer : String)
  | connectionLost (peer : String)
  | writeTimeout (peer : String) (after : Duration)
  /-- The host system refused. -/
  | io
  deriving DecidableEq

/-- The sentence that reports the error, without the host system's own words. -/
def TransportError.message : TransportError → String
  | .notBound => "socket has no bind address"
  | .noPeers => "socket has no connected peers"
  | .localOnly => "local-state messages never leave the process"
  | .closed => "socket is closed"
  | .connect peer => "connect to " ++ peer ++ " failed"
  | .backlogged peer => "outbound queue to " ++ peer ++ " is full"
  | .connectionLost peer => "connection to " ++ peer ++ " was lost"
  | .writeTimeout peer after => "write to " ++ peer ++ " timed out after " ++ after.text
  | .io => "input or output failed"

/-- How often to try, and how long to wait in between. -/
structure Backoff where
  maxRetries : UInt32
  baseDelay : Duration
  maxDelay : Duration
  deriving DecidableEq

namespace Backoff

/-- Five attempts, half a second after the first, at most thirty seconds. -/
def standard : Backoff :=
  ⟨5, .ofMillis 500, .ofMillis 30000⟩

/-- The largest power of two by which the base delay is multiplied is `2 ^ 31`. -/
def maxDoublings : Nat := 31

/-- The wait after failed attempt number `attempt`, counted from 1: the base delay doubled once
per earlier failure, and the limit where that is more than the limit, than can be represented,
or than `maxDoublings` doublings. -/
def delayAfter (b : Backoff) (attempt : Nat) : Duration :=
  match attempt with
  | 0 => .zero
  | doublings + 1 =>
    if doublings ≤ maxDoublings then
      match b.baseDelay.times? (Nat.pow 2 doublings) with
      | some delay => delay.min b.maxDelay
      | none => b.maxDelay
    else b.maxDelay

/-- The number of attempts; there is always one. -/
def attempts (b : Backoff) : Nat :=
  max b.maxRetries.toNat 1

/-- Makes attempt number `number` and, as long as they fail, `left` more.  A wait follows each
failure but that of the last attempt. -/
def retryFrom {m : Type → Type} [Monad m] {ε α : Type} (b : Backoff)
    (attempt : Nat → m (Except ε α)) (wait : Duration → m Unit) (number : Nat) :
    Nat → m (Except ε α)
  | 0 => attempt number
  | left + 1 => do
    match ← attempt number with
    | .ok a => return .ok a
    | .error _ =>
      wait (b.delayAfter number)
      b.retryFrom attempt wait (number + 1) left

/-- Makes attempts, numbered from 1, until one succeeds or all are used up. -/
def retryWith {m : Type → Type} [Monad m] {ε α : Type} (b : Backoff)
    (attempt : Nat → m (Except ε α)) (wait : Duration → m Unit) : m (Except ε α) :=
  b.retryFrom attempt wait 1 (b.attempts - 1)

/-- What a series of attempts came to, and the waits between them. -/
structure Retried (ε α : Type) where
  result : Except ε α
  waits : List Duration

/-- Makes attempts whose outcomes are known, and records the waits. -/
def retry {ε α : Type} (b : Backoff) (attempt : Nat → Except ε α) : Retried ε α :=
  let note (time : Duration) : StateM (List Duration) Unit := modify (time :: ·)
  let (result, waits) := (b.retryWith (fun number => pure (attempt number)) note).run []
  ⟨result, waits.reverse⟩

end Backoff
end TreeCluster
