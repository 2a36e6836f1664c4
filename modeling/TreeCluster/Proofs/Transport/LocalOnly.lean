import TreeCluster.Proofs.Transport.Carrying
import TreeCluster.Proofs.Wire.Header

/-! # Messages that stay in the process

A message in the state `localOnly` is refused by whoever sends it, so no writer ever holds one:
what is queued on a connection are encodings of messages in other states (`Link.Outgoing`).

The state of a received message is what its second byte says.  So no such message is received from
a peer that writes with a socket of its own, but one that writes its own bytes can send one
(`Link.local_of_run`, `Link.exists_local`). -/

namespace TreeCluster

open Connection Socket Wire

namespace Connection.Writer

theorem queue_write (w : Writer) (n : ℕ) : (w.write n).1.queue ⊆ w.queue := by
  obtain ⟨key, connection, capacity, queue, current, spent, stopped⟩ := w
  cases current with
  | nil =>
      cases queue with
      | nil => exact fun _ => id
      | cons frame rest => exact List.subset_cons_self frame rest
  | cons byte more => exact fun _ => id

end Connection.Writer

namespace Socket

theorem send_local (s : Socket) {m : Message} (stays : m.state = .localOnly) :
    s.send m = (s, .error (if s.closed then .closed else .localOnly)) ∧ s.takers m = [] := by
  unfold send takers
  split_ifs <;> simp_all

end Socket

namespace Link

variable {l l' : Link}

/-- What is queued on the connection are encodings of messages that may leave the process. -/
structure Outgoing (l : Link) : Prop where
  state : ∀ m ∈ l.queued, m.state ≠ .localOnly
  frames : ∀ w ∈ l.writers, ∀ frame ∈ w.queue, ∃ m ∈ l.queued, frame = encode m

theorem Outgoing.of_writers (h : l.Outgoing) (queued : l'.queued = l.queued)
    (fewer : ∀ w' ∈ l'.writers, w'.queue = [] ∨ ∃ w ∈ l.writers, w'.queue ⊆ w.queue) :
    l'.Outgoing where
  state := queued ▸ h.state
  frames w' hw' frame inside := by
    obtain none | ⟨w, hw, subset⟩ := fewer w' hw'
    · rw [none] at inside
      cases inside
    · rw [queued]
      exact h.frames w hw frame (subset inside)

theorem Outgoing.openSource (h : l.Outgoing) (key : String) :
    (l.apply (.openSource key)).Outgoing := by
  rw [apply]
  split_ifs
  · exact h
  · refine h.of_writers rfl fun w' hw' => ?_
    rcases List.mem_append.mp hw' with listed | dropped
    · obtain ⟨inside, mine⟩ := List.mem_filter.mp listed
      rcases List.mem_append.mp inside with old | new
      · refine Or.inr ⟨w', List.mem_append_left _ (List.mem_filter.mpr ⟨?_, mine⟩), fun _ => id⟩
        exact (List.mem_filter.mp old).1
      · obtain rfl := List.mem_singleton.mp new
        exact Or.inl rfl
    · exact Or.inr ⟨w', List.mem_append_right _ dropped, fun _ => id⟩

theorem Outgoing.send (h : l.Outgoing) (m : Message) : (l.apply (.send m)).Outgoing := by
  by_cases stays : m.state = .localOnly
  · obtain ⟨refused, nobody⟩ := send_local l.source stays
    have queues : l.queues m = false := by rw [Link.queues, nobody]; rfl
    refine h.of_writers ?_ fun w' hw' => Or.inr ⟨w', ?_, fun _ => id⟩
    · simp [Link.apply, queues]
    · simpa [Link.apply, Link.writers, refused] using hw'
  · obtain ⟨dropped, ⟨listed, queued⟩ | ⟨listed, queued⟩⟩ := ends_send l.source l.connection m
    · refine h.of_writers ?_ fun w' hw' => Or.inr ⟨w', ?_, fun _ => id⟩
      · simp [Link.apply, Link.queues, queued]
      · simpa [Link.apply, Link.writers, listed, dropped] using hw'
    · have now : (l.apply (.send m)).queued =
          if (l.source.writersOf l.connection).any (·.takes) then l.queued ++ [m] else l.queued := by
        rw [← queued]
        rfl
      have before : ∀ m' ∈ l.queued, m' ∈ (l.apply (.send m)).queued := by
        intro m' inside
        rw [now]
        split_ifs
        · exact List.mem_append_left _ inside
        · exact inside
      refine ⟨fun m' inside => ?_, fun w' hw' frame inside => ?_⟩
      · rw [now] at inside
        split_ifs at inside
        · rcases List.mem_append.mp inside with old | new
          · exact h.state m' old
          · exact List.mem_singleton.mp new ▸ stays
        · exact h.state m' inside
      · have old : ∀ w ∈ l.writers, frame ∈ w.queue →
            ∃ m' ∈ (l.apply (.send m)).queued, frame = encode m' := fun w hw inside =>
          (h.frames w hw frame inside).imp fun m' h => ⟨before m' h.1, h.2⟩
        simp only [Link.apply, Link.writers, listed, dropped] at hw'
        rcases List.mem_append.mp hw' with offered | dropped
        · obtain ⟨w, hw, stayed⟩ := List.mem_filterMap.mp offered
          obtain ⟨takes, rfl⟩ | ⟨-, rfl⟩ := Writer.afterOffer_eq_some stayed
          · rcases List.mem_append.mp inside with earlier | last
            · exact old w (List.mem_append_left _ hw) earlier
            · refine ⟨m, ?_, List.mem_singleton.mp last⟩
              rw [now, if_pos (List.any_eq_true.mpr ⟨w, hw, takes⟩)]
              exact List.mem_append_right _ (List.mem_singleton_self m)
          · exact old w' (List.mem_append_left _ hw) inside
        · exact old w' (List.mem_append_right _ dropped) inside

theorem Outgoing.mapWriters (h : l.Outgoing) {g : Writer → Writer}
    (same : ∀ w, (g w).connection = w.connection) (fewer : ∀ w, (g w).queue ⊆ w.queue)
    (wire : Bytes) :
    ({ l with source := l.source.mapWriters l.connection g, wire } : Link).Outgoing := by
  refine h.of_writers rfl fun w' hw' => ?_
  rw [Link.writers, ends_mapWriters same] at hw'
  obtain ⟨w, hw, rfl⟩ := List.mem_map.mp hw'
  exact Or.inr ⟨w, hw, fewer w⟩

theorem Outgoing.apply (h : l.Outgoing) {event : Event} (spares : event.Spares l.connection) :
    (l.apply event).Outgoing := by
  cases event with
  | openSource key => exact h.openSource key
  | send m => exact h.send m
  | write n => exact h.mapWriters (write_connection · n) (Writer.queue_write · n) _
  | stopWriting =>
      exact h.mapWriters (g := Writer.stop) (fun _ => rfl) (fun w => List.nil_subset w.queue) _
  | atSource change =>
      have r := change_releases l.source spares
      exact h.of_writers rfl fun w' hw' => Or.inr ⟨w', r.all.subset hw', fun _ => id⟩
  | resume i =>
      rw [Link.apply]
      split
      · exact h
      · rw [Link.resume]
        split
        dsimp only
        split <;> exact ⟨h.state, h.frames⟩
  | _ =>
      rw [Link.apply]
      try split
      all_goals exact ⟨h.state, h.frames⟩

theorem Outgoing.run (h : l.Outgoing) {events : List Event}
    (spares : ∀ event ∈ events, event.Spares l.connection) : (l.run events).Outgoing := by
  induction events generalizing l with
  | nil => exact h
  | cons event events ih =>
      obtain ⟨first, others⟩ := List.forall_mem_cons.mp spares
      rw [← l.apply_connection event] at others
      exact ih (h.apply first) others

/-- **What stays in the process is not sent**, but it can be received.  Whatever happens to a
connection of two new sockets, and whoever writes to it:

* A message in the state `localOnly` is refused, and nothing changes.
* What is queued for the connection are encodings of messages in other states.
* What calls have returned was decoded from what has arrived, and its state is `localOnly` if and
  only if that is what its second byte says.
* So nothing in this state is received where only the socket at the other end has written. -/
theorem local_of_run (c : ℕ) (role role' : Role) (options options' : SocketOptions)
    (stream : Bytes) {events : List Event} (spares : ∀ event ∈ events, event.Spares c) :
    let before := carrying c (new role options) (new role' options') stream
    let l := before.run events
    (∀ m : Message, m.state = .localOnly → l.apply (.send m) = l ∧
      (l.source.send m).2 = .error (if l.source.closed then .closed else .localOnly)) ∧
    (∀ m ∈ l.queued, m.state ≠ .localOnly) ∧
    (∀ w ∈ l.writers, ∀ frame ∈ w.queue, ∃ m ∈ l.queued, frame = encode m) ∧
    before.input events <+: stream ++ before.output events ∧
    (∀ m ∈ l.taken, ∃ raw, (m, raw) ∈ messages (before.input events) ∧
      (m.state = .localOnly ↔ raw[1]? = some State.localOnly.byte)) ∧
    (stream = [] → (∀ event ∈ events, event.Regular c) → ∀ m ∈ l.taken, m.state ≠ .localOnly) := by
  intro before l
  have outgoing : l.Outgoing := by
    refine Outgoing.run (l := before) ⟨nofun, ?_⟩ spares
    rintro w hw
    cases hw
  obtain ⟨handed, frames, intake⟩ :
      ∃ handed frames, l.Intake False [] options'.maxFrameBytes (before.input events) handed
        frames :=
    (intake_carrying (c := c) _ (new role' options') rfl stream).run spares nofun
  refine ⟨fun m stays => ?_, outgoing.state, outgoing.frames,
    ⟨l.wire, before.input_append_wire events⟩, fun m taken => ?_, ?_⟩
  · obtain ⟨refused, nobody⟩ := send_local l.source stays
    refine ⟨?_, congrArg Prod.snd refused⟩
    simp [Link.apply, queues, refused, nobody]
  · rw [← intake.taken] at taken
    obtain ⟨⟨m, raw⟩, inside, rfl⟩ := List.mem_map.mp taken
    have arrived : (m, raw) ∈ messages (before.input events) :=
      List.takeWhile_subset _ (intake.accepted.subset
        (intake.conveys.ordered.subset (List.mem_append_left _ inside)))
    obtain ⟨x, y, rest, rfl, -, state⟩ := header_of_mem_messages arrived
    refine ⟨_, arrived, ?_⟩
    rw [state, State.ofByte_eq_iff (s := .localOnly) (by decide) y]
    simp
  · rintro rfl regular m taken
    obtain ⟨⟨_, _, _, sound⟩, -⟩ := Sound.run (l := before) (sound_start rfl rfl) regular
    obtain ⟨sent, inside, rfl⟩ := List.mem_map.mp (sound.taken.2.subset taken)
    exact outgoing.state sent inside

/-- Of two messages one must stay in the process; the other one is queued and received. -/
theorem local_of_run_of_two_messages :
    let m (state : State) := Message.new .join state 7
    let events : List Event := [.openSource "r", .atTarget (.listenAt ⟨"r", "h", 1⟩),
      .openTarget "s", .send (m .localOnly), .send (m .probe), .write 100, .arrive 100, .forward,
      .receive, .resume 0]
    let l := (carrying 0 (new .sender {}) (new .receiver {}) []).run events
    (∀ event ∈ events, event.Spares 0) ∧ l.queued = [m .probe] ∧ l.taken = [m .probe] ∧
      ∀ m ∈ l.taken, m.state ≠ .localOnly := by
  intro m events l
  have fits : ∀ state, Fits (m state) := fun state => ⟨by simp [m, Message.new], nofun⟩
  have regular : ∀ event ∈ events, event.Regular 0 := by
    simp [events, Event.Regular, Change.Spares, fits]
  have spares : ∀ event ∈ events, event.Spares 0 := by simp [events, Event.Spares, Change.Spares]
  have received : l.queued = [m .probe] ∧ l.taken = [m .probe] := by decide +kernel
  obtain ⟨-, -, -, -, -, own⟩ := local_of_run 0 .sender .receiver {} {} [] spares
  exact ⟨spares, received.1, received.2, own rfl regular⟩

/-- A peer that writes its own bytes sends a message whose state is `localOnly`, and a call to
receive returns it. -/
theorem exists_local :
    let stream : Bytes := [6, 6, 0, 0, 0, 0, 0, 0, 0, 0, 0, 0, 0, 0]
    let events : List Event := [.atTarget (.listenAt ⟨"r", "h", 1⟩), .openTarget "p", .arrive 5,
      .forward, .arrive 9, .forward, .receive, .resume 0]
    let l := (carrying 0 (new .sender {}) (new .receiver {}) stream).run events
    l.taken = [Message.new .join .localOnly 0] := by
  decide +kernel

end Link
end TreeCluster
