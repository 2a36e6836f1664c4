import TreeCluster.Looper.Machine

/-! # The event loop

The loop takes messages in the order in which they were accepted and starts a task for each one
that has a handler.  It ends at a stop request, at a terminate message, or at a message that
arrives while there is no handler at all.  With it the mailbox and every timer end
(`Machine.stop`).

A probe arms the timer of its action unless that timer already runs; a success disarms it. -/

namespace TreeCluster.Looper

/-- The message as it goes into the mailbox: a failed one has been visited once more. -/
def pushed (m : Message) : Message :=
  if m.state = .failed then m.visit else m

namespace Machine

variable {ν : Type}

/-- Goes on with a mailbox that has taken a message in. -/
def accept (s : Machine ν) (task : TaskId) (origin : Origin) (m : Message) (mailbox : Mailbox) :
    Machine ν :=
  ({ s with looper := { s.looper with mailbox } }.record (.accepted task origin m)).wakeServer

/-- Starts the timer of a probe's action, unless it runs. -/
def arm (s : Machine ν) (probe : Message) (deadline : Duration) : Machine ν × TimerChange :=
  if s.looper.trickers.contains probe.action then (s, .kept)
  else
    let generation := s.looper.generation + 1
    let due := s.now + deadline.sleepMillis
    let (s, task) := s.spawn (.tricker probe.action generation)
      (.tricker due (probe.transition .failed))
    let trickers := s.looper.trickers.insert probe.action ⟨generation, task⟩
    ({ s with looper := { s.looper with trickers, generation } },
      .armed ⟨probe, generation, due, task⟩)

/-- Stops the timer of an action. -/
def disarm (s : Machine ν) (action : Action) : Machine ν × TimerChange :=
  match s.looper.trickers.get? action with
  | none => (s, .kept)
  | some t =>
    let trickers := s.looper.trickers.erase action
    ({ s with looper := { s.looper with trickers } }.abort t.task, .disarmed t.generation)

/-- Frees the timer slot of an action if the timer in it is of a generation. -/
def vacate (s : Machine ν) (action : Action) (generation : Nat) : Machine ν :=
  match s.looper.trickers.get? action with
  | none => s
  | some t =>
    if t.generation = generation then
      { s with looper := { s.looper with trickers := s.looper.trickers.erase action } }
    else s

/-- What a message that goes to a handler does to the timer of its action. -/
def time (s : Machine ν) (m : Message) (deadline : Duration) : Machine ν × TimerChange :=
  if deadline = .zero then (s, .kept)
  else
    match m.state with
    | .probe => s.arm m deadline
    | .succeed => s.disarm m.action
    | _ => (s, .kept)

/-- Hands a message to the handler of its action, if there is one. -/
def dispatch (s : Machine ν) (m : Message) : Machine ν × Fate ν :=
  match s.looper.handlers.get? m.action with
  | none => (s, .skipped)
  | some h =>
    let (s, change) := s.time m h.deadline
    let (s, task) := s.spawn (.handler m) (h.body m)
    (s, .handed task (h.body m) change)

/-- Closes the mailbox; those who wait for a place learn of it. -/
def closeMailbox (s : Machine ν) : Machine ν :=
  let (mailbox, waiting) := s.looper.mailbox.close
  { s with looper := { s.looper with mailbox } }.wakeAll waiting

/-- Ends the looper with its timers. -/
def stop (s : Machine ν) : Machine ν :=
  let timers := s.looper.trickers.entries.map (fun e => e.2.task) ++ s.looper.intervals
  let s := timers.foldl abort s.closeMailbox
  { s with
    looper := { s.looper with trickers := .empty, intervals := [], closed := true } }.record
      .stopped

/-- Asks the loop to stop.  The message only wakes it: the request is seen before any message. -/
def term (s : Machine ν) (task : TaskId) : Machine ν :=
  if s.looper.closed then s
  else
    let s := { s with looper := { s.looper with closed := true } }.record .termed
    let m := Message.new .terminate .probe (Int64.ofNat (s.now * 1000000))
    match s.looper.mailbox.put m with
    | .ok mailbox => s.accept task .stopRequest m mailbox
    | .error _ => s.wakeServer

/-- What the event loop did in one turn. -/
inductive Turn where
  | tookMessage
  | stopped
  | idle

/-- One turn of the event loop. -/
def turn (s : Machine ν) : Machine ν × Turn :=
  if s.looper.closed then (s.stop, .stopped)
  else
    match s.looper.mailbox.take? with
    | none => (s, .idle)
    | some (m, mailbox, next) =>
      let s := { s with looper := { s.looper with mailbox } }.wakeAll next.toList
      if m.action = .terminate || s.looper.handlers.isEmpty then
        ((s.record (.taken m .last)).stop, .stopped)
      else
        let (s, fate) := s.dispatch m
        (s.record (.taken m fate), .tookMessage)

end Machine
end TreeCluster.Looper
