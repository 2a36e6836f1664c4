import TreeCluster.Host.Traffic

/-! # Pumps of a host

A pump takes one message after the other from its socket and pushes each into its looper, which
runs until nothing is left to do.  `Host.deliver` lets traffic and pumps go on until nothing is
under way any more, or what is under way cannot move.

This belongs to the test world of `Host` too.  What a pump does with each answer is `Pump`, and a
looper acts by the rules of `Machine`. -/

namespace TreeCluster

open Looper (Heard Machine Program RuleHandler)

namespace Forwarding

/-- The mailbox of a looper that a pump feeds has this many places. -/
def mailboxCapacity : Nat := 64

/-- The program of a looper that a pump feeds: handlers, the event loop, and no end.  (Nobody
learns the result of a task that waits for its own.) -/
def program (handlers : List RuleHandler) : Program Heard :=
  handlers.foldr (fun h next => h.register id next)
    (.spawn .serving fun _ => .join Machine.first none fun _ => .done (.ok ()))

/-- A pump with a new looper. -/
def start (handlers : List RuleHandler) : Forwarding :=
  ⟨(Machine.start mailboxCapacity (program handlers)).settle, none, false⟩

/-- Gives the looper something more to do, and lets it run until nothing is left to do. -/
def perform (f : Forwarding) (p : Program Heard) : Forwarding × TaskId :=
  let (machine, task) := f.machine.spawn .caller p
  ({ f with machine := machine.settle }, task)

/-- Pushes a message into the looper. -/
def push (f : Forwarding) (m : Message) : Forwarding :=
  let (f, task) := f.perform (.push m none fun r => .done (r.getD (.ok ())))
  { f with pushing := some task }

/-- Asks the looper to stop. -/
def term (f : Forwarding) : Forwarding :=
  (f.perform (.term (.done (.ok ())))).1

/-- Looks whether the message that was received last has been pushed. -/
def afterPush (f : Forwarding) : Forwarding :=
  match f.pushing.bind f.machine.results.get? with
  | none => f
  | some r => { f with pushing := none, ended := !Pump.goesOn r }

/-- Goes on with what was received. -/
def advance (f : Forwarding) (received : Except TransportError Message) (sink : Sink) :
    Forwarding × Sink :=
  match Pump.afterReceive received with
  | .push m =>
    let f := { f with machine := { f.machine with sink } }.push m
    (f.afterPush, f.machine.sink)
  | .report context e => (f, sink.report context e.message)
  | .stop => ({ f with ended := true }, sink)

/-- What the handlers of the looper heard, oldest first. -/
def heard (f : Forwarding) : List Heard :=
  f.machine.notes.reverse.map Prod.snd

end Forwarding

namespace Host

/-- Lets the pump of a socket go on. -/
def forward (h : Host) (name : String) : Host :=
  match h.pumps.get? name, h.sockets.get? name with
  | some f, some s =>
    let f := f.afterPush
    if f.ended || f.pushing.isSome then { h with pumps := h.pumps.insert name f }
    else
      match Socket.receive.settle ⟨s, h.sink⟩ with
      | (scene, .done received) =>
        let (f, sink) := f.advance received scene.sink
        { h with
          sockets := h.sockets.insert name scene.value
          pumps := h.pumps.insert name f
          sink }
      | (scene, _) => { h with sockets := h.sockets.insert name scene.value }
  | _, _ => h

/-- Traffic, and then one step of each pump. -/
def round (h : Host) : Host :=
  h.pumps.keys.foldl forward h.exchange

/-- Lets everything go on until nothing moves. -/
def deliver (h : Host) : Host :=
  let next := h.round
  if next.unsettled < h.unsettled then next.deliver else next
termination_by h.unsettled

/-- Lets time pass. -/
def pause (time : Duration) (h : Host) : Host :=
  let h := h.deliver
  (h.socketIds.foldl (delay time) h).deliver

end Host
end TreeCluster
