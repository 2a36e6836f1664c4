import TreeCluster.Proofs.Transport.Carrying
import TreeCluster.Proofs.Wire.Header

/-! # Subscribers to one action

A subscriber that takes only messages which begin with the byte of an action gets those of this
action, and no others (`wanted_iff`): whatever arrives and in whatever chunks, calls to receive
return them all, in their order, as long as there is room in the inbox (`Link.heard_of_run`).

Messages of an unknown action are shown as `undefined` and do not begin with its byte, so those who
subscribe to `undefined` do not get them (`Link.exists_unheard`). -/

namespace TreeCluster

open Connection Wire

namespace Socket

variable {stream raw : Bytes} {m : Message}

/-- A message that was split off a stream begins with the byte of an action if it has that action,
and if this is `undefined`, was not given it for an unknown byte. -/
theorem wanted_iff (h : (m, raw) ∈ messages stream) (a : Action) :
    wanted [a.byte] (m, raw) = true ↔
      m.action = a ∧ (a = .undefined → raw.head? = some Action.undefined.byte) := by
  obtain ⟨x, y, rest, rfl, action, -⟩ := header_of_mem_messages h
  have first : wanted [a.byte] (m, x :: y :: rest) = true ↔ x = a.byte := by
    simpa [wanted] using eq_comm
  rw [first, action, List.head?_cons, Option.some_inj]
  constructor
  · rintro rfl
    exact ⟨Action.ofByte_byte a, congrArg Action.byte⟩
  · rintro ⟨read, own⟩
    by_cases known : a = .undefined
    · exact (own known).trans (congrArg Action.byte known.symm)
    · exact (Action.ofByte_eq_iff known x).mp read

end Socket

namespace Link

open Socket

/-- **A subscriber gets the messages of its action**: it takes what begins with the byte of an
action, and there is always room in its inbox.  Whoever writes to the connection, and whatever
happens to the subscriber but that it is given another filter:

* What has arrived is the first part of what was written.
* Calls have returned the first of those messages in what has arrived that are shown to have the
  action; if the action is `undefined`, of those that are written with its byte.  Messages behind
  one above the limit do not count, for the reader gives up there.
* When the reader finds no other message and none that is wanted is left in the inbox, calls have
  returned all of them.
* A call that waits in an open socket takes the first wanted message of the inbox. -/
theorem heard_of_run (a : Action) (c : ℕ) (options : SocketOptions) (source : Socket)
    (stream : Bytes) {events : List Event} (spares : ∀ event ∈ events, event.Spares c)
    (kept : ∀ filter, Event.atTarget (.subscribe filter) ∉ events)
    (room : ∀ front ∈ events.inits,
      ((carrying c source ((new .subscriber options).subscribe [a.byte]) stream).run
        front).target.inbox.isFull = false) :
    let before := carrying c source ((new .subscriber options).subscribe [a.byte]) stream
    let l := before.run events
    let heard := (accepted options.maxFrameBytes (before.input events)).filter fun frame =>
      frame.1.action = a ∧ (a = .undefined → frame.2.head? = some Action.undefined.byte)
    before.input events <+: stream ++ before.output events ∧
      l.taken <+: heard.map Prod.fst ∧
      ((∃ r ∈ l.target.readersOf c, r.held = none ∧
          ∀ frame, r.buffer.next.1 ≠ .ok (some frame)) →
        (∀ m ∈ l.target.inbox.queue, l.target.wants m = false) →
          l.taken = heard.map Prod.fst) ∧
      ∀ m, l.target.closed = false → l.target.inbox.queue.find? l.target.wants = some m →
        (awaitWanted.settle ⟨l.target, .empty⟩).2 = .done (.ok m.message) := by
  intro before l heard
  obtain ⟨handed, frames, intake⟩ :
      ∃ handed frames, l.Intake True [a.byte] options.maxFrameBytes (before.input events) handed
        frames :=
    (intake_carrying (c := c) source _ rfl stream).run spares fun _ => calms_of_inits kept room
  have connection : l.connection = c := before.run_connection events
  have chosen : (accepted options.maxFrameBytes (before.input events)).filter
      (wanted [a.byte]) = heard := by
    refine List.filter_congr fun frame inside => ?_
    have whole := List.takeWhile_subset _ inside
    rw [Bool.eq_iff_iff, decide_eq_true_iff]
    exact wanted_iff whole a
  obtain ⟨handed_eq, conveys⟩ := And.intro intake.taken intake.conveys
  rw [connection] at conveys
  refine ⟨⟨l.wire, before.input_append_wire events⟩, ?_, ?_, fun m opened found =>
    settle_awaitWanted_of_find? opened found .empty⟩
  · rw [← handed_eq, ← chosen]
    exact (((List.prefix_append _ _).trans (conveys.front trivial)).trans
      (intake.accepted.filter _)).map _
  · rintro ⟨r, mine, free, silent⟩ nothing
    have reads := intake.reads
    have all := intake.drained (connection.symm ▸ mine) silent
    rw [connection] at reads
    have alone : l.target.readersOf c = [r] := reads.eq_singleton mine
    -- what is in transit is not wanted, so that nothing is left
    have rest : (l.target.inTransit c l.origins).filter (wanted [a.byte]) = [] := by
      rw [inTransit, alone, List.filter_append, ← conveys.filter trivial, filter_ownFrames nothing]
      simp [Reader.waiting, free]
    have whole := conveys.whole trivial (by simp [alone])
    rw [rest, List.append_nil, all, chosen] at whole
    rw [← handed_eq, whole]

/-- Of three messages the one in the middle has another action.  They arrive in two chunks, and
calls return the other two. -/
theorem heard_of_run_of_three_messages :
    let m (action : Action) (content : UInt8) : Message :=
      { Message.new action .probe 0 with contents := [[content]] }
    let source := Socket.new .publisher {}
    let stream := encode (m .join 1) ++ encode (m .crash 2) ++ encode (m .join 3)
    let events : List Event := [.openTarget "p", .arrive 30, .forward, .receive, .resume 0,
      .arrive 100, .forward, .forward, .forward, .receive, .resume 0]
    let before := carrying 0 source ((new .subscriber {}).subscribe [Action.join.byte]) stream
    let l := before.run events
    let heard := (accepted ({} : SocketOptions).maxFrameBytes (before.input events)).filter fun frame =>
      frame.1.action = .join ∧ (Action.join = .undefined → frame.2.head? = some Action.undefined.byte)
    (∀ event ∈ events, event.Spares 0) ∧ (∀ filter, Event.atTarget (.subscribe filter) ∉ events) ∧
      (∀ front ∈ events.inits, (before.run front).target.inbox.isFull = false) ∧
      l.taken = [m .join 1, m .join 3] ∧ l.taken = heard.map Prod.fst := by
  intro m source stream events before l heard
  have spares : ∀ event ∈ events, event.Spares 0 := by simp [events, Event.Spares]
  have kept : ∀ filter, Event.atTarget (.subscribe filter) ∉ events := by simp [events]
  have room : ∀ front ∈ events.inits, (before.run front).target.inbox.isFull = false := by
    decide +kernel
  have taken : l.taken = [m .join 1, m .join 3] := by decide +kernel
  have idle : ∃ r ∈ l.target.readersOf 0, r.held = none ∧
      ∀ frame, r.buffer.next.1 ≠ .ok (some frame) := by
    have one : (l.target.readersOf 0).map (fun r => (r.held.isNone, r.buffer.next.1.toOption)) =
        [(true, some none)] := by
      decide +kernel
    obtain ⟨r, alone, state⟩ := List.map_eq_singleton_iff.mp one
    obtain ⟨free, next⟩ := Prod.mk.inj state
    refine ⟨r, alone ▸ List.mem_singleton_self r, Option.isNone_iff_eq_none.mp free, ?_⟩
    intro frame handed
    rw [handed] at next
    cases next
  have empty : ∀ m ∈ l.target.inbox.queue, l.target.wants m = false := by decide +kernel
  -- what happened is known now, and is not to be run again
  clear_value stream events
  obtain ⟨-, -, all, -⟩ := heard_of_run .join 0 {} source stream spares kept room
  exact ⟨spares, kept, room, taken, all idle empty⟩

/-- A message of an unknown action is shown as `undefined`, but who subscribes to `undefined` does
not get it: it has arrived and is in the inbox no more, and the call to receive still waits. -/
theorem exists_unheard :
    let stream : Bytes := [99, 1, 0, 0, 0, 0, 0, 0, 0, 0, 0, 0, 0, 0]
    let events : List Event := [.openTarget "p", .arrive 14, .forward, .receive, .resume 0]
    let before := carrying 0 (new .publisher {})
      ((new .subscriber {}).subscribe [Action.undefined.byte]) stream
    let l := before.run events
    (∀ front ∈ events.inits, (before.run front).target.inbox.isFull = false) ∧
      (∃ frame ∈ messages (before.input events), frame.1.action = .undefined ∧
        frame.1 ∉ l.taken) ∧
      l.target.inbox.queue.length = 0 ∧ l.calls.length = 1 := by
  intro stream events before l
  have room : ∀ front ∈ events.inits, (before.run front).target.inbox.isFull = false := by
    decide +kernel
  have arrived : before.input events = stream := by decide +kernel
  have decoded : decode stream = .ok (Message.new .undefined .probe 0, 14) := by decide +kernel
  have waits : l.taken = [] ∧ l.target.inbox.queue.length = 0 ∧ l.calls.length = 1 := by
    decide +kernel
  refine ⟨room, ⟨(Message.new .undefined .probe 0, stream.take 14), ?_, rfl, ?_⟩, waits.2⟩
  · rw [arrived, messages_of_ok decoded]
    exact List.mem_cons_self ..
  · rw [waits.1]
    exact List.not_mem_nil

end Link
end TreeCluster
