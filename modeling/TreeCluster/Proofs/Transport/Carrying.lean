import TreeCluster.Proofs.Transport.InOrder
import TreeCluster.Proofs.Transport.Intake
import TreeCluster.Proofs.Transport.Live

/-! # Links on which anybody writes

The wire of a link may carry bytes from the start that somebody else has written
(`Link.carrying`), and what arrives at its end comes off the front of the wire
(`Link.input_append_wire`).  What the reader there has split off and what has become of it is an
`Intake` of the link.  Every event keeps this (`Intake.apply`), and no wanted message gets lost as
long as every event is calm (`Link.Calm`): the inbox has room and the filter stays as it is.

A reader splits off the messages up to the first one above its limit (`Intake.accepted`), and has
split off all of these when it finds no other one (`Intake.drained`). -/

namespace TreeCluster

open Connection Wire

namespace Socket

/-- A change leaves the options alone, and the filter unless it gives another one. -/
theorem settings_change (s : Socket) (change : Change) :
    (s.change change).options = s.options ∧
      ((∀ filter, change ≠ .subscribe filter) → (s.change change).filter = s.filter) := by
  have stale : ∀ s : Socket, s.dropStale.options = s.options ∧ s.dropStale.filter = s.filter := by
    intro s
    rw [(sheds_dropStale s).rest]
    exact ⟨rfl, rfl⟩
  cases change with
  | addPeer peer => exact ⟨rfl, fun _ => rfl⟩
  | removePeer peer => exact ⟨rfl, fun _ => rfl⟩
  | subscribe filter =>
      rw [Socket.change]
      split_ifs <;> exact ⟨rfl, fun other => absurd rfl (other filter)⟩
  | listenAt address => exact ⟨rfl, fun _ => rfl⟩
  | dropStale => exact ⟨(stale s).1, fun _ => (stale s).2⟩
  | disconnect everything =>
      cases everything with
      | false => exact ⟨(stale s).1, fun _ => (stale s).2⟩
      | true =>
          obtain ⟨options, filter⟩ := stale { s with peers := s.peers.markAllStale }
          exact ⟨options, fun _ => filter⟩
  | attachDialled key connection =>
      simp only [Socket.change, attachDialled]
      split <;> exact ⟨rfl, fun _ => rfl⟩
  | attachAccepted key connection =>
      simp only [Socket.change, attachAccepted]
      split <;> exact ⟨rfl, fun _ => rfl⟩
  | close =>
      simp only [Socket.change, close]
      split <;> exact ⟨rfl, fun _ => rfl⟩

end Socket

open Socket

namespace Link

/-- The link of two sockets before either has its end of it, where somebody else has written to
the wire. -/
def carrying (c : ℕ) (source target : Socket) (stream : Bytes) : Link :=
  { start c source target with wire := stream }

/-- What an event puts on the wire. -/
def puts (l : Link) : Event → Bytes
  | .write n => l.writers.flatMap fun w => (w.write n).2
  | _ => []

/-- What arrives at the reader with an event. -/
def gets (l : Link) : Event → Bytes
  | .arrive n =>
    match l.reader? with
    | none => []
    | some _ => l.wire.take n
  | _ => []

/-- What some events put on the wire. -/
def output (l : Link) : List Event → Bytes
  | [] => []
  | event :: events => l.puts event ++ (l.apply event).output events

/-- What arrives at the reader over some events. -/
def input (l : Link) : List Event → Bytes
  | [] => []
  | event :: events => l.gets event ++ (l.apply event).input events

/-- Another connection has another number. -/
def Event.Spares (c : ℕ) : Event → Prop
  | .atSource change => change.Spares c
  | .atTarget change => change.Spares c
  | _ => True

/-- The target has room for a message, and the event gives it no other filter. -/
def Calm (l : Link) (event : Event) : Prop :=
  l.target.inbox.isFull = false ∧ ∀ filter, event ≠ .atTarget (.subscribe filter)

/-- The reader of the target has split `arrived` into `frames`, none of them above the limit, and
of these calls have returned `handed`. -/
structure Intake (steady : Prop) (f : Bytes) (limit : ℕ) (l : Link) (arrived : Bytes)
    (handed frames : List (Message × Bytes)) : Prop where
  reads : l.target.Reads l.connection arrived frames
  unread : l.readFrom = false → l.target.readersOf l.connection = [] ∧ arrived = [] ∧ frames = []
  calls : ∀ call ∈ l.calls, Receiving call
  options : l.target.options.maxFrameBytes = limit
  limited : ∀ r ∈ l.target.readersOf l.connection, r.buffer.maxFrameBytes = limit
  within : ∀ frame ∈ frames, frame.2.length ≤ limit
  taken : handed.map Prod.fst = l.taken
  conveys : l.target.Conveys steady f l.connection l.origins handed frames

variable {steady : Prop} {f : Bytes} {limit : ℕ} {l : Link} {arrived : Bytes}
  {handed frames : List (Message × Bytes)}

theorem run_connection (l : Link) (events : List Event) :
    (l.run events).connection = l.connection := by
  induction events generalizing l with
  | nil => rfl
  | cons event events ih => exact (ih _).trans (l.apply_connection event)

theorem gets_append_wire (l : Link) (event : Event) :
    l.gets event ++ (l.apply event).wire = l.wire ++ l.puts event := by
  cases event with
  | arrive n =>
      cases hr : l.reader? with
      | none => simp [gets, puts, Link.apply, hr]
      | some r => simp [gets, puts, Link.apply, hr]
  | write n => rfl
  | resume i =>
      refine Eq.trans ?_ (List.append_nil _).symm
      rw [Link.apply]
      split
      · rfl
      · rw [Link.resume]
        split
        dsimp only
        split <;> rfl
  | _ =>
      refine Eq.trans ?_ (List.append_nil _).symm
      rw [Link.apply]
      try split
      all_goals rfl

theorem input_append_wire (l : Link) (events : List Event) :
    l.input events ++ (l.run events).wire = l.wire ++ l.output events := by
  induction events generalizing l with
  | nil => exact (List.append_nil _).symm
  | cons event events ih =>
      calc l.input (event :: events) ++ (l.run (event :: events)).wire
          = l.gets event ++ ((l.apply event).input events ++ ((l.apply event).run events).wire) :=
            List.append_assoc _ _ _
        _ = l.wire ++ l.output (event :: events) := by
            rw [ih, ← List.append_assoc, gets_append_wire, List.append_assoc]
            rfl

theorem intake_carrying {c : ℕ} (source target : Socket)
    (noReader : target.readersOf c = []) (stream : Bytes) :
    (carrying c source target stream).Intake steady target.filter target.options.maxFrameBytes
      [] [] [] := by
  have nothing : target.inTransit c (List.replicate target.inbox.queue.length false) = [] := by
    simp [inTransit, ownFrames_others, noReader]
  refine ⟨⟨?_, ?_, fun _ => List.nil_prefix⟩, fun _ => ⟨noReader, rfl, rfl⟩, ?_, rfl, ?_,
    List.forall_mem_nil _, rfl, ⟨?_, ?_, fun _ => rfl, fun _ => ?_, fun _ reading => absurd noReader reading⟩⟩
  · simp [carrying, start, noReader]
  · simp [carrying, start, noReader]
  · simp [carrying, start]
  · simp [carrying, start, noReader]
  · simp [carrying, start]
  · simp [carrying, start, nothing]
  · simp [carrying, start, nothing]

/-! ### Steps -/

theorem Intake.atSource (h : l.Intake steady f limit arrived handed frames) (source : Socket)
    (wire : Bytes) (written : Bool) (queued : List Message) :
    ({ l with source, wire, written, queued } : Link).Intake steady f limit arrived handed
      frames :=
  ⟨h.reads, h.unread, h.calls, h.options, h.limited, h.within, h.taken, h.conveys⟩

theorem Intake.atTarget (h : l.Intake steady f limit arrived handed frames) {change : Change}
    (spares : change.Spares l.connection)
    (calm : steady → ∀ filter, change ≠ .subscribe filter) :
    (l.apply (.atTarget change)).Intake steady f limit arrived handed frames := by
  have r := change_releases l.target spares
  obtain ⟨options, filter⟩ := settings_change l.target change
  refine ⟨h.reads.of_sublist r.readers, fun unread => ?_, h.calls,
    (congrArg SocketOptions.maxFrameBytes options).trans h.options,
    fun r' mine => h.limited r' (r.readers.subset mine), h.within, h.taken,
    h.conveys.releases h.reads.one r fun steady => filter (calm steady)⟩
  obtain ⟨none, nothing⟩ := h.unread unread
  exact ⟨List.sublist_nil.mp (none ▸ r.readers), nothing⟩

theorem Intake.openTarget (h : l.Intake steady f limit arrived handed frames) (key : String) :
    (l.apply (.openTarget key)).Intake steady f limit arrived handed frames := by
  rw [apply]
  split_ifs with readFrom
  · exact h
  · obtain ⟨none, rfl, rfl⟩ := h.unread (eq_false_of_ne_true readFrom)
    refine ⟨Reads.attach none key, (fun never => by cases never), h.calls, h.options, ?_,
      List.forall_mem_nil _, h.taken, h.conveys.attach none key⟩
    rw [readersOf_attachReader none]
    intro r mine
    obtain rfl := List.mem_singleton.mp mine
    exact h.options

theorem Intake.mapReaders (h : l.Intake steady f limit arrived handed frames) {g : Reader → Reader}
    (same : ∀ r, r.connection = l.connection → (g r).connection = l.connection)
    (held : ∀ r, (g r).held = r.held)
    (limits : ∀ r, (g r).buffer.maxFrameBytes = r.buffer.maxFrameBytes) {arrived' wire : Bytes}
    (reads : Reads (l.target.mapReaders l.connection g) l.connection arrived' frames)
    (unread : l.readFrom = false → arrived' = []) :
    ({ l with target := l.target.mapReaders l.connection g, wire } : Link).Intake steady f limit
      arrived' handed frames := by
  have readers := readersOf_mapReaders (t := l.target) same
  refine ⟨reads, fun never => ?_, h.calls, h.options, ?_, h.within, h.taken,
    h.conveys.mapReaders same held⟩
  · obtain ⟨none, -, nothing⟩ := h.unread never
    exact ⟨by rw [readers, none]; rfl, unread never, nothing⟩
  · rw [readers]
    exact List.forall_mem_map.mpr fun r mine => (limits r).trans (h.limited r mine)

theorem Intake.arrive (h : l.Intake steady f limit arrived handed frames) (n : ℕ) :
    (l.apply (.arrive n)).Intake steady f limit (arrived ++ l.gets (.arrive n)) handed
      frames := by
  cases hr : l.reader? with
  | none =>
      simp only [apply, gets, hr, List.append_nil]
      exact h
  | some r =>
      have mine : r ∈ l.target.readersOf l.connection := List.mem_of_find?_eq_some hr
      simp only [apply, gets, hr]
      refine h.mapReaders (g := (·.receive (l.wire.take n))) (fun _ same => same) (fun _ => rfl)
        (fun _ => rfl) (h.reads.receive mine _) fun unread => ?_
      rw [(h.unread unread).1] at mine
      cases mine

theorem Intake.stopReading (h : l.Intake steady f limit arrived handed frames) :
    (l.apply .stopReading).Intake steady f limit arrived handed frames :=
  h.mapReaders (g := fun r => { r with finished := true }) (fun _ same => same) (fun _ => rfl)
    (fun _ => rfl) (h.reads.mapReaders (fun _ same => same) fun _ => rfl)
    fun unread => (h.unread unread).2.1

theorem Intake.forward (h : l.Intake steady f limit arrived handed frames)
    (room : steady → l.target.inbox.isFull = false) :
    ∃ frames', (l.apply .forward).Intake steady f limit arrived handed frames' := by
  rw [apply]
  split
  · exact ⟨frames, h⟩
  · next r hr =>
      have mine : r ∈ l.target.readersOf l.connection := List.mem_of_find?_eq_some hr
      have before := h.reads.eq_singleton mine
      set lossy := decide (l.target.role = .subscriber)
      obtain ⟨more, passed, keeps, queue, some, all⟩ :=
        Reader.forward_account (h.reads.consistent mine) lossy l.target.inbox
      have number : (r.forward lossy l.target.inbox).1.connection = l.connection :=
        (r.forward_connection _ _).trans (by simpa using (List.mem_filter.mp mine).2)
      have after : (l.forward r).target.readersOf l.connection =
          [(r.forward lossy l.target.inbox).1] := by
        have mapped := readersOf_mapReaders (t := l.target)
          (f := fun _ => (r.forward lossy l.target.inbox).1) fun _ _ => number
        rwa [before] at mapped
      have longer : (l.forward r).origins = l.origins ++ List.replicate passed.length true := by
        have grown : (r.forward lossy l.target.inbox).2.1.queue.length -
            l.target.inbox.queue.length = passed.length := by
          rw [queue, List.length_append, Nat.add_sub_cancel_left]
        rw [← grown]
        rfl
      refine ⟨frames ++ more, ?_, fun unread => ?_, h.calls, h.options, ?_, ?_, h.taken, ?_⟩
      · have reads := h.reads.of_keeps mine after keeps
        rwa [List.append_nil] at reads
      · rw [(h.unread unread).1] at mine
        cases mine
      · intro r' hr'
        obtain rfl : r' = _ := List.mem_singleton.mp (after ▸ hr')
        exact keeps.limit.trans (h.limited r mine)
      · intro frame inside
        rcases List.mem_append.mp inside with old | new
        · exact h.within frame old
        · exact (keeps.within frame new).trans (h.limited r mine).le
      · rw [longer]
        exact h.conveys.forward before after rfl queue some fun calm => all (room calm)

theorem Intake.elsewhere (h : l.Intake steady f limit arrived handed frames) (m : Inbound) :
    (l.apply (.elsewhere m)).Intake steady f limit arrived handed frames := by
  rw [apply]
  split_ifs
  · exact h
  · exact ⟨h.reads.of_sublist (List.Sublist.refl _), h.unread, h.calls, h.options, h.limited,
      h.within, h.taken, h.conveys.elsewhere m⟩

theorem Intake.withQueue (h : l.Intake steady f limit arrived handed frames)
    {queue : List Inbound} {origins : List Bool} {taken : List Message}
    {calls : List (Call Socket Socket.Answer)} {handed' : List (Message × Bytes)}
    (conveys : (l.target.withQueue queue).Conveys steady f l.connection origins handed' frames)
    (same : handed'.map Prod.fst = taken) (receiving : ∀ call ∈ calls, Receiving call) :
    ({ l with target := l.target.withQueue queue, origins, taken, calls } : Link).Intake steady f
      limit arrived handed' frames :=
  ⟨h.reads.of_sublist (List.Sublist.refl _), h.unread, receiving, h.options, h.limited, h.within,
    same, conveys⟩

theorem Intake.resume (h : l.Intake steady f limit arrived handed frames) (i : ℕ) :
    ∃ handed', (l.apply (.resume i)).Intake steady f limit arrived handed' frames := by
  rw [apply]
  split
  · exact ⟨handed, h⟩
  · next call found =>
      have receiving := h.calls call (List.mem_of_getElem? found)
      have reception := settle_receiving receiving l.target .empty
      have want := @wants_of_took call receiving l.target .empty
      have ended : ∀ call ∈ l.calls.eraseIdx i, Receiving call := fun call inside =>
        h.calls call (List.mem_of_mem_eraseIdx inside)
      rw [Link.resume]
      generalize call.settle ⟨l.target, .empty⟩ = settled at reception want
      obtain ⟨⟨target, sink⟩, rest⟩ := settled
      change Reception l.target target rest at reception
      cases reception with
      | waits split unwanted receiving =>
          simp only [receiving.result?_eq, length_sub_withQueue split]
          refine ⟨handed, h.withQueue (h.conveys.skip split unwanted) h.taken fun call inside => ?_⟩
          rcases List.mem_or_eq_of_mem_set inside with inside | rfl
          · exact h.calls call inside
          · exact receiving
      | refused split unwanted =>
          simp only [Call.result?, length_sub_withQueue split]
          exact ⟨handed, h.withQueue (h.conveys.skip split unwanted) h.taken ended⟩
      | @took skipped rest m split unwanted =>
          have longer := length_sub_withQueue (split.trans (List.append_cons skipped m rest))
          rw [List.length_append] at longer
          simp only [Call.result?, longer, List.length_singleton, Nat.add_sub_cancel]
          refine ⟨_, h.withQueue (h.conveys.take split unwanted (want split unwanted rfl rfl))
            ?_ ended⟩
          rw [List.map_append, h.taken]
          split_ifs <;> simp [Inbound.frame]

/-! ### Runs -/

theorem Intake.apply (h : l.Intake steady f limit arrived handed frames) {event : Event}
    (spares : event.Spares l.connection) (calm : steady → l.Calm event) :
    ∃ handed' frames',
      (l.apply event).Intake steady f limit (arrived ++ l.gets event) handed' frames' := by
  have silent : ∀ {l' : Link} (handed' frames'), l'.Intake steady f limit arrived handed' frames' →
      ∃ handed' frames', l'.Intake steady f limit (arrived ++ []) handed' frames' :=
    fun _ _ h => ⟨_, _, (List.append_nil arrived).symm ▸ h⟩
  cases event with
  | openSource key =>
      refine silent handed frames ?_
      rw [Link.apply]
      split_ifs
      · exact h
      · exact h.atSource _ _ _ _
  | openTarget key => exact silent _ _ (h.openTarget key)
  | send m => exact silent _ _ (h.atSource _ _ _ _)
  | write n => exact silent _ _ (h.atSource _ _ _ _)
  | stopWriting => exact silent _ _ (h.atSource _ _ _ _)
  | arrive n => exact ⟨_, _, h.arrive n⟩
  | forward =>
      obtain ⟨frames', h⟩ := h.forward fun steady => (calm steady).1
      exact silent _ _ h
  | stopReading => exact silent _ _ h.stopReading
  | receive =>
      refine silent handed frames ⟨h.reads, h.unread, ?_, h.options,
        h.limited, h.within, h.taken, h.conveys⟩
      simpa [Link.apply, or_imp, forall_and, Receiving] using h.calls
  | resume i =>
      obtain ⟨handed', h⟩ := h.resume i
      exact silent _ _ h
  | elsewhere m => exact silent _ _ (h.elsewhere m)
  | atSource change => exact silent _ _ (h.atSource _ _ _ _)
  | atTarget change =>
      exact silent _ _ (h.atTarget spares fun steady filter same =>
        (calm steady).2 filter (congrArg Event.atTarget same))

/-- The times are calm over some events. -/
def Calms (l : Link) : List Event → Prop
  | [] => True
  | event :: events => l.Calm event ∧ (l.apply event).Calms events

theorem calms_of_inits {events : List Event}
    (kept : ∀ filter, Event.atTarget (.subscribe filter) ∉ events)
    (room : ∀ front ∈ events.inits, (l.run front).target.inbox.isFull = false) :
    l.Calms events := by
  induction events generalizing l with
  | nil => trivial
  | cons event events ih =>
      refine ⟨⟨room [] ((List.mem_inits _ _).mpr List.nil_prefix), fun filter same => ?_⟩,
        ih (fun filter inside => kept filter (List.mem_cons_of_mem _ inside)) fun front first => ?_⟩
      · exact kept filter (same ▸ List.mem_cons_self ..)
      · have front := (List.mem_inits _ _).mp first
        exact room (event :: _) ((List.mem_inits _ _).mpr (List.prefix_cons_inj event |>.mpr front))

theorem Intake.run (h : l.Intake steady f limit arrived handed frames) {events : List Event}
    (spares : ∀ event ∈ events, event.Spares l.connection) (calm : steady → l.Calms events) :
    ∃ handed' frames',
      (l.run events).Intake steady f limit (arrived ++ l.input events) handed' frames' := by
  induction events generalizing l arrived handed frames with
  | nil => exact ⟨_, _, (List.append_nil arrived).symm ▸ h⟩
  | cons event events ih =>
      obtain ⟨first, others⟩ := List.forall_mem_cons.mp spares
      obtain ⟨_, _, next⟩ := h.apply first fun steady => (calm steady).1
      rw [← l.apply_connection event] at others
      rw [input, ← List.append_assoc]
      exact ih next others fun steady => (calm steady).2

/-! ### What has been split off -/

theorem Intake.accepted (h : l.Intake steady f limit arrived handed frames) :
    frames <+: accepted limit arrived := by
  obtain ⟨later, split⟩ := h.reads.front []
  rw [List.append_nil] at split
  rw [Wire.accepted, ← split, List.takeWhile_append_of_pos fun frame inside =>
    decide_eq_true (h.within frame inside)]
  exact List.prefix_append _ _

/-- A reader that finds no message in its buffer has split off all that it accepts. -/
theorem Intake.drained (h : l.Intake steady f limit arrived handed frames) {r : Reader}
    (mine : r ∈ l.target.readersOf l.connection)
    (silent : ∀ frame, r.buffer.next.1 ≠ .ok (some frame)) :
    frames = Wire.accepted limit arrived := by
  obtain ⟨limit', keeps⟩ := h.reads.kept r mine
  obtain rfl : limit' = limit := keeps.limit.symm.trans (h.limited r mine)
  have rest : Wire.accepted limit' r.buffer.buffer = [] := by
    refine accepted_of_verdict ?_
    rw [← h.limited r mine]
    cases refused : overrun r.buffer.maxFrameBytes r.buffer.buffer with
    | some size => exact Or.inl ⟨size, rfl⟩
    | none =>
        cases decoded : decode r.buffer.buffer with
        | error e => exact Or.inr ⟨e, rfl⟩
        | ok result =>
            have next := FrameBuffer.next_of_ok keeps.consistent refused decoded
            exact absurd (congrArg Prod.fst next) (silent _)
  rw [keeps.accepted_eq, rest, List.append_nil]

end Link
end TreeCluster
