import TreeCluster.Proofs.Transport.Delivery
import TreeCluster.Proofs.Transport.Writing
import TreeCluster.Proofs.Wire.RoundTrip

/-! # Connections deliver in order

What was queued on a connection has arrived at its other end, or is on the wire, or is left to be
written (`Link.Sound`), and every event keeps this (`Link.Sound.apply`).

So whatever happens, what a receiver has taken from a connection are the first of the messages
that were queued on it, with no visits, and what a subscriber has taken are some of them in their
order (`Link.taken_of_run`). -/

namespace TreeCluster.Link

open Connection Socket Wire

/-- `arrived` has arrived and `left` is left to be written of what was queued, and the reader has
handed out `frames`. -/
structure Sound (l : Link) (arrived left : Bytes) (frames : List (Message × Bytes)) : Prop where
  bytes : l.queued.flatMap encode = arrived ++ (l.wire ++ left)
  writes : l.source.Writes l.connection left
  unwritten : l.written = false → l.writers = [] ∧ left = []
  reads : l.target.Reads l.connection arrived frames
  unread : l.readFrom = false → l.target.readersOf l.connection = [] ∧ arrived = [] ∧ frames = []
  delivers : l.target.Delivers l.connection l.origins l.taken frames
  calls : ∀ call ∈ l.calls, Receiving call
  fits : ∀ m ∈ l.queued, Fits m

variable {l : Link} {arrived left : Bytes} {frames : List (Message × Bytes)}

theorem own_replicate (queue : List Inbound) :
    own queue (List.replicate queue.length false) = [] := by
  induction queue with
  | nil => rfl
  | cons m queue ih => exact ih

theorem sound_start {c : ℕ} {source target : Socket}
    (noWriter : source.writersOf c ++ source.drainingOf c = [])
    (noReader : target.readersOf c = []) : (start c source target).Sound [] [] [] := by
  obtain ⟨listed, -⟩ := List.append_eq_nil_iff.mp noWriter
  have nothing : target.passedOn c (List.replicate target.inbox.queue.length false) [] = [] := by
    simp [passedOn, own_replicate, heldBy, noReader]
  refine ⟨rfl, ⟨?_, ?_, ?_⟩, fun _ => ⟨noWriter, rfl⟩, ⟨?_, ?_, ?_⟩, fun _ => ⟨noReader, rfl, rfl⟩,
    ⟨?_, ?_, ?_, ?_⟩, by simp [start], by simp [start]⟩
  · simp [start, noWriter]
  · simp [start, noWriter]
  · simp [start, listed]
  · simp [start, noReader]
  · simp [start, noReader]
  · exact fun _ => List.nil_prefix
  · simp [start]
  · exact nothing ▸ List.Sublist.refl _
  · exact fun _ => nothing ▸ List.prefix_rfl
  · exact fun _ _ => nothing

/-! ### The source -/

theorem Sound.atSource {source : Socket} (h : l.Sound arrived left frames)
    (r : Releases l.connection l.source source) :
    ({ l with source } : Link).Sound arrived left frames := by
  refine ⟨h.bytes, h.writes.releases r, fun unwritten => ?_, h.reads, h.unread, h.delivers, h.calls,
    h.fits⟩
  obtain ⟨none, left⟩ := h.unwritten unwritten
  exact ⟨List.subperm_nil.mp (none ▸ r.all), left⟩

theorem Sound.openSource (h : l.Sound arrived left frames) (key : String) :
    (l.apply (.openSource key)).Sound arrived left frames := by
  rw [apply]
  split_ifs with written
  · exact h
  · obtain ⟨none, rfl⟩ := h.unwritten (eq_false_of_ne_true written)
    exact ⟨h.bytes, Writes.attach none key, nofun, h.reads, h.unread, h.delivers, h.calls, h.fits⟩

theorem Sound.send (h : l.Sound arrived left frames) {m : Message} (fits : Fits m) :
    ∃ left', (l.apply (.send m)).Sound arrived left' frames := by
  refine ⟨_, ?_, h.writes.send m, fun unwritten => ?_, h.reads, h.unread, h.delivers, h.calls, ?_⟩
  · have bytes := h.bytes
    change (if l.queues m = true then l.queued ++ [m] else l.queued).flatMap encode =
      arrived ++ (l.wire ++ (left ++ if l.queues m = true then encode m else []))
    cases l.queues m <;> simp [bytes]
  · obtain ⟨none, rfl⟩ := h.unwritten unwritten
    obtain ⟨listed, dropped⟩ := List.append_eq_nil_iff.mp none
    obtain ⟨listed, silent⟩ := ends_send_of_none listed m
    refine ⟨?_, by simp [silent]⟩
    simp only [apply, writers, listed, (ends_send l.source l.connection m).1, dropped]
    rfl
  · simp only [apply]
    split_ifs
    · simpa [or_imp, forall_and, fits] using h.fits
    · exact h.fits

theorem Sound.write (h : l.Sound arrived left frames) (n : ℕ) :
    ∃ left', (l.apply (.write n)).Sound arrived left' frames := by
  obtain ⟨left', split, writes⟩ := h.writes.write n
  refine ⟨left', ?_, writes, fun unwritten => ?_, h.reads, h.unread, h.delivers, h.calls, h.fits⟩
  · have bytes := h.bytes
    rw [← split] at bytes
    simpa [apply, writers] using bytes
  · obtain ⟨none, rfl⟩ := h.unwritten unwritten
    refine ⟨?_, (List.append_eq_nil_iff.mp split).2⟩
    simp only [apply, writers, ends_mapWriters (write_connection · n)]
    rw [show l.source.writersOf l.connection ++ l.source.drainingOf l.connection = [] from none]
    rfl

theorem Sound.stopWriting (h : l.Sound arrived left frames) :
    (l.apply .stopWriting).Sound arrived left frames := by
  refine ⟨h.bytes, h.writes.stop, fun unwritten => ?_, h.reads, h.unread, h.delivers, h.calls,
    h.fits⟩
  obtain ⟨none, left⟩ := h.unwritten unwritten
  refine ⟨?_, left⟩
  simp only [apply, writers, ends_mapWriters (f := Writer.stop) fun _ => rfl]
  rw [show l.source.writersOf l.connection ++ l.source.drainingOf l.connection = [] from none]
  rfl

/-! ### The target -/

theorem Sound.atTarget {target : Socket} (h : l.Sound arrived left frames)
    (r : Releases l.connection l.target target) :
    ({ l with target } : Link).Sound arrived left frames := by
  refine ⟨h.bytes, h.writes, h.unwritten, h.reads.of_sublist r.readers, fun unread => ?_,
    h.delivers.releases h.reads.one r, h.calls, h.fits⟩
  obtain ⟨none, nothing⟩ := h.unread unread
  exact ⟨List.sublist_nil.mp (none ▸ r.readers), nothing⟩

theorem Sound.openTarget (h : l.Sound arrived left frames) (key : String) :
    (l.apply (.openTarget key)).Sound arrived left frames := by
  rw [apply]
  split_ifs with readFrom
  · exact h
  · obtain ⟨none, rfl, rfl⟩ := h.unread (eq_false_of_ne_true readFrom)
    exact ⟨h.bytes, h.writes, h.unwritten, Reads.attach none key, nofun,
      h.delivers.attach none key, h.calls, h.fits⟩

theorem Sound.arrive (h : l.Sound arrived left frames) (n : ℕ) :
    ∃ arrived', (l.apply (.arrive n)).Sound arrived' left frames := by
  rw [apply]
  split
  · exact ⟨arrived, h⟩
  · next r hr =>
      have mine : r ∈ l.target.readersOf l.connection := List.mem_of_find?_eq_some hr
      refine ⟨arrived ++ l.wire.take n, ?_, h.writes, h.unwritten, h.reads.receive mine _,
        fun unread => ?_, h.delivers.mapReaders (fun _ same => same) fun _ => rfl, h.calls, h.fits⟩
      · rw [List.append_assoc, ← List.append_assoc (l.wire.take n), List.take_append_drop]
        exact h.bytes
      · rw [(h.unread unread).1] at mine
        cases mine

theorem Sound.forward (h : l.Sound arrived left frames) :
    ∃ frames', (l.apply .forward).Sound arrived left frames' := by
  rw [apply]
  split
  · exact ⟨frames, h⟩
  · next r hr =>
      have mine : r ∈ l.target.readersOf l.connection := List.mem_of_find?_eq_some hr
      have step := r.forward_forwarded (l.target.role = .subscriber) l.target.inbox
      have number : (r.forward (l.target.role = .subscriber) l.target.inbox).1.connection =
          l.connection :=
        (r.forward_connection _ _).trans (by simpa using (List.mem_filter.mp mine).2)
      have alone := readersOf_mapReaders (t := l.target)
        (f := fun _ => (r.forward (l.target.role = .subscriber) l.target.inbox).1)
        fun _ _ => number
      rw [h.reads.eq_singleton mine] at alone
      obtain ⟨more, reads, delivers⟩ :
          ∃ more, (l.forward r).target.Reads l.connection arrived (frames ++ more) ∧
            (l.forward r).target.Delivers l.connection (l.forward r).origins l.taken
              (frames ++ more) :=
        h.delivers.forward h.reads mine step alone rfl rfl
      refine ⟨frames ++ more, h.bytes, h.writes, h.unwritten, reads, fun unread => ?_, delivers,
        h.calls, h.fits⟩
      rw [(h.unread unread).1] at mine
      cases mine

theorem Sound.stopReading (h : l.Sound arrived left frames) :
    (l.apply .stopReading).Sound arrived left frames := by
  refine ⟨h.bytes, h.writes, h.unwritten, h.reads.mapReaders (fun _ same => same) fun _ => rfl,
    fun unread => ?_, h.delivers.mapReaders (fun _ same => same) fun _ => rfl, h.calls, h.fits⟩
  obtain ⟨none, nothing⟩ := h.unread unread
  have readers := readersOf_mapReaders (t := l.target) (c := l.connection)
    (f := fun r => { r with finished := true }) fun _ same => same
  rw [none] at readers
  exact ⟨readers, nothing⟩

theorem Sound.elsewhere (h : l.Sound arrived left frames) (m : Inbound) :
    (l.apply (.elsewhere m)).Sound arrived left frames := by
  rw [apply]
  split_ifs
  · exact h
  · exact ⟨h.bytes, h.writes, h.unwritten, h.reads.of_sublist (List.Sublist.refl _), h.unread,
      h.delivers.elsewhere m, h.calls, h.fits⟩

theorem Sound.withQueue (h : l.Sound arrived left frames) {queue : List Inbound}
    {origins : List Bool} {taken : List Message} {calls : List (Call Socket Socket.Answer)}
    (delivers : (l.target.withQueue queue).Delivers l.connection origins taken frames)
    (receiving : ∀ call ∈ calls, Receiving call) :
    ({ l with target := l.target.withQueue queue, origins, taken, calls } : Link).Sound
      arrived left frames :=
  ⟨h.bytes, h.writes, h.unwritten, h.reads.of_sublist (List.Sublist.refl _), h.unread, delivers,
    receiving, h.fits⟩

theorem Sound.resume (h : l.Sound arrived left frames) (i : ℕ) :
    (l.apply (.resume i)).Sound arrived left frames := by
  rw [apply]
  split
  · exact h
  · next call found =>
      have reception := settle_receiving (h.calls call (List.mem_of_getElem? found)) l.target .empty
      have ended : ∀ call ∈ l.calls.eraseIdx i, Receiving call := fun call inside =>
        h.calls call (List.mem_of_mem_eraseIdx inside)
      rw [Link.resume]
      generalize call.settle ⟨l.target, .empty⟩ = settled at reception
      obtain ⟨⟨target, sink⟩, rest⟩ := settled
      change Reception l.target target rest at reception
      cases reception with
      | waits split unwanted receiving =>
          simp only [receiving.result?_eq, length_sub_withQueue split]
          refine h.withQueue (h.delivers.skip split unwanted) fun call inside => ?_
          rcases List.mem_or_eq_of_mem_set inside with inside | rfl
          · exact h.calls call inside
          · exact receiving
      | refused split unwanted =>
          simp only [Call.result?, length_sub_withQueue split]
          exact h.withQueue (h.delivers.skip split unwanted) ended
      | @took skipped rest m split unwanted =>
          have longer := length_sub_withQueue (split.trans (List.append_cons skipped m rest))
          rw [List.length_append] at longer
          simp only [Call.result?, longer, List.length_singleton, Nat.add_sub_cancel]
          exact h.withQueue (h.delivers.take split unwanted) ended

/-! ### Runs -/

theorem Sound.apply (h : l.Sound arrived left frames) {event : Event}
    (regular : event.Regular l.connection) :
    ∃ arrived' left' frames', (l.apply event).Sound arrived' left' frames' := by
  cases event with
  | openSource key => exact ⟨_, _, _, h.openSource key⟩
  | openTarget key => exact ⟨_, _, _, h.openTarget key⟩
  | send m =>
      obtain ⟨left', h⟩ := h.send regular
      exact ⟨_, left', _, h⟩
  | write n =>
      obtain ⟨left', h⟩ := h.write n
      exact ⟨_, left', _, h⟩
  | stopWriting => exact ⟨_, _, _, h.stopWriting⟩
  | arrive n =>
      obtain ⟨arrived', h⟩ := h.arrive n
      exact ⟨arrived', _, _, h⟩
  | forward =>
      obtain ⟨frames', h⟩ := h.forward
      exact ⟨_, _, frames', h⟩
  | stopReading => exact ⟨_, _, _, h.stopReading⟩
  | receive =>
      refine ⟨_, _, _, h.bytes, h.writes, h.unwritten, h.reads, h.unread, h.delivers, ?_, h.fits⟩
      simpa [Link.apply, or_imp, forall_and, Receiving] using h.calls
  | resume i => exact ⟨_, _, _, h.resume i⟩
  | elsewhere m => exact ⟨_, _, _, h.elsewhere m⟩
  | atSource change => exact ⟨_, _, _, h.atSource (change_releases _ regular)⟩
  | atTarget change => exact ⟨_, _, _, h.atTarget (change_releases _ regular)⟩

theorem resume_connection (l : Link) (i : ℕ) (call : Call Socket Socket.Answer) :
    (l.resume i call).connection = l.connection := by
  rw [Link.resume]
  split
  dsimp only
  split <;> rfl

theorem resume_target (l : Link) (i : ℕ) (call : Call Socket Socket.Answer) :
    (l.resume i call).target = (call.settle ⟨l.target, .empty⟩).1.value := by
  rw [Link.resume]
  split
  next scene call settled =>
    rw [settled]
    dsimp only
    split <;> rfl

theorem apply_connection (l : Link) (event : Event) :
    (l.apply event).connection = l.connection := by
  cases event <;> simp only [Link.apply]
  all_goals
    try split
    all_goals first | rfl | exact l.resume_connection _ _

theorem Sound.lossless (h : l.Sound arrived left frames) {event : Event}
    (regular : event.Regular l.connection) (lossless : l.target.Lossless) :
    (l.apply event).target.Lossless := by
  cases event with
  | atTarget change =>
      have r := change_releases l.target regular
      exact ⟨r.role ▸ lossless.1, (r.filter lossless.1).trans lossless.2⟩
  | resume i =>
      rw [Link.apply]
      split
      · exact lossless
      · next call found =>
          rw [resume_target]
          obtain ⟨queue, same⟩ := (settle_receiving (h.calls call (List.mem_of_getElem? found))
            l.target .empty).exists_queue
          rw [same]
          exact lossless
  | _ =>
      simp only [Link.apply]
      try split
      all_goals exact lossless

theorem Sound.run (h : l.Sound arrived left frames) {events : List Event}
    (regular : ∀ event ∈ events, event.Regular l.connection) :
    (∃ arrived' left' frames', (l.run events).Sound arrived' left' frames') ∧
      (l.target.Lossless → (l.run events).target.Lossless) := by
  induction events generalizing l arrived left frames with
  | nil => exact ⟨⟨_, _, _, h⟩, id⟩
  | cons event events ih =>
      obtain ⟨first, others⟩ := List.forall_mem_cons.mp regular
      obtain ⟨_, _, _, next⟩ := h.apply first
      rw [← l.apply_connection event] at others
      obtain ⟨sound, lossless⟩ := ih next others
      exact ⟨sound, fun all => lossless (h.lossless first all)⟩

/-- What was taken are the first messages that were queued, or some of them. -/
theorem Sound.taken (h : l.Sound arrived left frames) :
    (l.target.Lossless → l.taken <+: l.queued.map fun m => { m with visits := 0 }) ∧
      l.taken.Sublist (l.queued.map fun m => { m with visits := 0 }) := by
  have handed := map_fst_prefix_of_messages h.fits h.bytes (h.reads.front _)
  have first : l.taken <+: l.target.passedOn l.connection l.origins l.taken :=
    (List.prefix_append _ _).trans (List.prefix_append _ _)
  exact ⟨fun lossless => (first.trans (h.delivers.front lossless)).trans handed,
    (first.sublist.trans h.delivers.ordered).trans handed.sublist⟩

/-- **Connections deliver in order**: whatever happens to a connection and to the sockets at its
ends, what a receiver has taken from it are the first of the messages that were queued on it, with
no visits, and what any socket has taken from it are some of them, in their order. -/
theorem taken_of_run {c : ℕ} {source target : Socket}
    (noWriter : source.writersOf c ++ source.drainingOf c = []) (noReader : target.readersOf c = [])
    {events : List Event} (regular : ∀ event ∈ events, event.Regular c) :
    let l := (start c source target).run events
    (target.role = .receiver → target.filter = [] →
      l.taken <+: l.queued.map fun m => { m with visits := 0 }) ∧
    l.taken.Sublist (l.queued.map fun m => { m with visits := 0 }) := by
  intro l
  obtain ⟨⟨arrived, left, frames, sound⟩, lossless⟩ :=
    (sound_start noWriter noReader).run regular
  refine ⟨fun receives all => sound.taken.1 (lossless ⟨?_, all⟩), sound.taken.2⟩
  rw [start, receives]
  nofun

/-- Two messages go over a connection, and a third one is sent when it has been dropped. -/
theorem taken_of_run_of_two_messages :
    let m (content : UInt8) : Message :=
      { Message.new .undefined .probe 0 with contents := [[content]], visits := 2 }
    let source := Socket.new .sender {}
    let target := (Socket.new .receiver {}).listenAt ⟨"r", "h", 1⟩
    let events : List Event := [.openSource "r", .openTarget "s", .send (m 1), .send (m 2),
      .write 100, .write 100, .arrive 10, .forward, .arrive 100, .forward, .forward, .receive,
      .resume 0, .atSource (.disconnect true), .send (m 3), .receive, .resume 0]
    let l := (start 0 source target).run events
    source.writersOf 0 ++ source.drainingOf 0 = [] ∧ target.readersOf 0 = [] ∧
      (∀ event ∈ events, event.Regular 0) ∧ target.role = .receiver ∧ target.filter = [] ∧
      l.taken.map (·.contents) = [[[1]], [[2]]] ∧
      l.taken <+: l.queued.map fun m => { m with visits := 0 } := by
  intro m source target events l
  have regular : ∀ event ∈ events, event.Regular 0 := by
    have fits : ∀ content, Fits (m content) := by
      intro content
      simp [m, Fits, Short]
    simp [events, Event.Regular, Change.Spares, fits]
  have received : l.taken.map (·.contents) = [[[1]], [[2]]] := by
    subst l events target source m
    cbv
  exact ⟨rfl, rfl, regular, rfl, rfl, received, (taken_of_run rfl rfl regular).1 rfl rfl⟩

end TreeCluster.Link
