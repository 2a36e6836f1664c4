import TreeCluster.Error

/-! # Calls that wait

A call on a value of type `σ` changes it in steps, and waits in between: for the answer to a dial,
for a place to listen at, for time to pass or for a condition on the value.  While it waits, other
calls may change the value.  `Call.settle` goes on to the next point where the call waits;
`Call.run` goes on to the end with the answers that the world around the value gives. -/

namespace TreeCluster

/-- A call under way. -/
inductive Call (σ α : Type) where
  | done (a : α)
  | look (next : σ → Call σ α)
  | change (f : σ → σ) (next : Call σ α)
  | report (context message : String) (next : Call σ α)
  /-- Waits for a peer to answer; the answer is the number of the connection. -/
  | dial (peer : NodeAddress) (next : Option Nat → Call σ α)
  /-- Waits for a place to listen at; port 0 stands for any.  There may be none. -/
  | listen (address : NodeAddress) (next : Option NodeAddress → Call σ α)
  | sleep (time : Duration) (next : Call σ α)
  /-- Waits for a condition.  The value is changed before each look at it. -/
  | await (prepare : σ → σ) (ready : σ → Bool) (next : Call σ α)

/-- A world `ω` with a value of type `σ` in it, and how it answers to calls on that value. -/
structure Surroundings (σ ω : Type) where
  value : ω → σ
  change : (σ → σ) → ω → ω
  report : String → String → ω → ω
  dial : NodeAddress → ω → ω × Option Nat
  listen : NodeAddress → ω → ω × Option NodeAddress
  /-- Lets time pass. -/
  pause : Duration → ω → ω

namespace Call

variable {σ τ α β : Type}

/-- One call after another. -/
def bind (c : Call σ α) (next : α → Call σ β) : Call σ β :=
  match c with
  | .done a => next a
  | .look f => .look fun s => (f s).bind next
  | .change f c => .change f (c.bind next)
  | .report context message c => .report context message (c.bind next)
  | .dial peer f => .dial peer fun answer => (f answer).bind next
  | .listen address f => .listen address fun place => (f place).bind next
  | .sleep time c => .sleep time (c.bind next)
  | .await prepare ready c => .await prepare ready (c.bind next)

instance : Monad (Call σ) where
  pure := .done
  bind := bind

/-- A call on a part of a larger value. -/
def within (get : τ → σ) (set : σ → τ → τ) : Call σ α → Call τ α
  | .done a => .done a
  | .look f => .look fun t => (f (get t)).within get set
  | .change f c => .change (fun t => set (f (get t)) t) (c.within get set)
  | .report context message c => .report context message (c.within get set)
  | .dial peer f => .dial peer fun answer => (f answer).within get set
  | .listen address f => .listen address fun place => (f place).within get set
  | .sleep time c => .sleep time (c.within get set)
  | .await prepare ready c =>
    .await (fun t => set (prepare (get t)) t) (fun t => ready (get t)) (c.within get set)

/-- The value that calls work on, and what they reported. -/
structure Scene (σ : Type) where
  value : σ
  sink : Sink

/-- Goes on to the end of the call or to the next point where it waits. -/
def settle : Call σ α → Scene σ → Scene σ × Call σ α
  | .look f, s => (f s.value).settle s
  | .change f c, s => c.settle { s with value := f s.value }
  | .report context message c, s => c.settle { s with sink := s.sink.report context message }
  | .await prepare ready c, s =>
    let s := { s with value := prepare s.value }
    if ready s.value then c.settle s else (s, .await prepare ready c)
  | c, s => (s, c)

/-- Goes on to the end of the call, or to a condition that does not hold. -/
def run {ω : Type} (h : Surroundings σ ω) : Call σ α → ω → ω × Call σ α
  | .done a, w => (w, .done a)
  | .look f, w => (f (h.value w)).run h w
  | .change f c, w => c.run h (h.change f w)
  | .report context message c, w => c.run h (h.report context message w)
  | .dial peer f, w =>
    let (w, answer) := h.dial peer w
    (f answer).run h w
  | .listen address f, w =>
    let (w, place) := h.listen address w
    (f place).run h w
  | .sleep time c, w => c.run h (h.pause time w)
  | .await prepare ready c, w =>
    let w := h.change prepare w
    if ready (h.value w) then c.run h w else (w, .await prepare ready c)

/-- The result of a call that has ended. -/
def result? : Call σ α → Option α
  | .done a => some a
  | _ => none

end Call
end TreeCluster
