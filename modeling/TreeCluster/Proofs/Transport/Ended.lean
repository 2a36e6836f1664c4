import TreeCluster.Proofs.Transport.Intake
import TreeCluster.Proofs.Wire.Bounded
import TreeCluster.Transport.ReadTask

/-! # A stream read to its end

The task of a receiver goes through its stream in steps (`ReadTask.Turned`).  While it is at work
it has split a first part of the stream into messages, and has reported nothing
(`ReadTask.Midway`).  When it has ended these are all messages that the limit allows, and it has
reported what ended it, if that was not the end of the stream (`ReadTask.Ended`, `complaints`).

Every step with room in the inbox brings the task closer to its end (`ReadTask.weight`). -/

namespace TreeCluster.Connection

open Wire

/-! ### What a stream comes to -/

/-- The size for which a stream is given up.  Where nothing has arrived nothing is refused. -/
def refusal (limit : ℕ) (stream : Bytes) : Option ℕ :=
  if stream = [] then none else overrun limit (leftover limit stream)

/-- What is reported about a stream: the first message above the limit, or else that reading
failed. -/
def complaints (limit : ℕ) (ending : Reader.Ending) (stream : Bytes) : List StreamError :=
  match refusal limit stream, ending with
  | some size, _ => [.decode (.frameTooLarge size limit)]
  | none, .failure text => [.read text]
  | none, .endOfStream => []

/-- The sink after some reports about what a receiver reads from a peer. -/
def reported (peer : String) (sink : Sink) (errors : List StreamError) : Sink :=
  errors.foldl (fun sink e => sink.report (e.context .receiver peer) e.message) sink

theorem preambleLength_le_of_mem_messages {stream : Bytes} {frame : Message × Bytes}
    (h : frame ∈ messages stream) : preambleLength ≤ frame.2.length := by
  rw [length_of_mem_messages h, length_encode, encodedLength_eq]
  exact Nat.le_add_right _ _

theorem exists_decode_nil : ∃ e, decode [] = .error e :=
  ⟨_, rfl⟩

section

variable {limit : ℕ} {arrived : Bytes} {frames : List (Message × Bytes)} {b : FrameBuffer}

/-- A message that is refused where it stands ends the stream, whatever comes behind it. -/
theorem accepted_of_refused (kept : (FrameBuffer.new limit).Keeps arrived frames b)
    (started : arrived ≠ []) {size : ℕ} (refused : overrun limit b.buffer = some size)
    (rest : Bytes) :
    accepted limit (arrived ++ rest) = frames ∧ refusal limit (arrived ++ rest) = some size := by
  have whole := kept.trans (FrameBuffer.keeps_extend kept.consistent rest)
  rw [List.append_nil] at whole
  have still : overrun limit (b.buffer ++ rest) = some size := overrun_append refused rest
  have none : accepted limit (b.buffer ++ rest) = [] := accepted_of_verdict (.inl ⟨size, still⟩)
  have left := leftover_of_append whole.bytes whole.accepted_eq
  constructor
  · rw [whole.accepted_eq]
    exact (congrArg _ none).trans (List.append_nil _)
  · rw [refusal, if_neg (List.append_ne_nil_of_left_ne_nil started rest)]
    exact (congrArg _ (left.trans (leftover_of_accepted none))).trans still

/-- A stream that ends before its next message is complete, and before that is refused. -/
theorem accepted_of_incomplete (kept : (FrameBuffer.new limit).Keeps arrived frames b)
    (incomplete : ∃ e, decode b.buffer = .error e)
    (clear : arrived ≠ [] → overrun limit b.buffer = none) :
    accepted limit arrived = frames ∧ refusal limit arrived = none := by
  have none : accepted limit b.buffer = [] := accepted_of_verdict (.inr incomplete)
  have left := leftover_of_append kept.bytes kept.accepted_eq
  constructor
  · rw [kept.accepted_eq, none, List.append_nil]
  · rw [refusal]
    split_ifs with nothing
    · rfl
    · exact (congrArg _ (left.trans (leftover_of_accepted none))).trans (clear nothing)

end

namespace ReadTask

/-! ### Steps -/

/-- What a step does to the task of a receiver that has not ended. -/
inductive Turned (t : ReadTask) : ReadTask → Prop
  /-- A chunk is read. -/
  | took {chunk : Bytes} {unread : List Bytes} :
      t.reading = true → t.unread = chunk :: unread →
        Turned t { t with reader := t.reader.receive chunk, reading := false, unread }
  /-- There is nothing to read yet. -/
  | waited : t.reading = true → t.unread = [] → t.ending = none → Turned t t
  /-- The stream has ended. -/
  | closed : t.reading = true → t.unread = [] → t.ending = some .endOfStream →
      Turned t { t with reader := { t.reader with finished := true } }
  /-- A read fails. -/
  | failed {text : String} : t.reading = true → t.unread = [] →
      t.ending = some (.failure text) → Turned t (t.giveUp (.read text))
  /-- A message goes on waiting for a place. -/
  | blocked : t.reading = false → t.inbox.isFull = true → Turned t t
  /-- The message that waited finds a place. -/
  | released {m : Inbound} : t.reading = false → t.inbox.isFull = false →
      t.reader.held = some m →
        Turned t { t with reader := { t.reader with held := none }, inbox := t.inbox.push m }
  /-- The next message is refused. -/
  | refused {size : ℕ} : t.reading = false → t.reader.held = none →
      overrun t.reader.buffer.maxFrameBytes t.reader.buffer.buffer = some size →
        Turned t (t.giveUp (.decode (.frameTooLarge size t.reader.buffer.maxFrameBytes)))
  /-- The next message is not complete. -/
  | emptied {scan : Option Scan} : t.reading = false → t.reader.held = none →
      overrun t.reader.buffer.maxFrameBytes t.reader.buffer.buffer = none →
      (∃ e, decode t.reader.buffer.buffer = .error e) →
      { t.reader.buffer with scan := scan }.Consistent →
        Turned t { t with
          reader := { t.reader with buffer := { t.reader.buffer with scan := scan } }
          reading := true }
  /-- The next message is passed on. -/
  | passed {m : Inbound} {buffer : FrameBuffer} : t.reading = false → t.inbox.isFull = false →
      t.reader.held = none → t.reader.buffer.Keeps [] [m.frame] buffer →
        Turned t { t with reader := { t.reader with buffer }, inbox := t.inbox.push m }
  /-- The next message has to wait. -/
  | kept {m : Inbound} {buffer : FrameBuffer} : t.reading = false → t.reader.held = none →
      t.reader.buffer.Keeps [] [m.frame] buffer →
        Turned t { t with reader := { t.reader with buffer, held := some m } }

theorem passOn_turned {t : ReadTask} (receiver : t.role = .receiver)
    (consistent : t.reader.buffer.Consistent) (through : t.reading = false) :
    Turned t t.passOn := by
  obtain ⟨role, ⟨key, connection, buffer, held, finished⟩, reading, unread, ending, inbox, sink⟩ := t
  obtain rfl : role = .receiver := receiver
  obtain rfl : reading = false := through
  cases held with
  | some m =>
      cases full : inbox.isFull with
      | true =>
          simp only [passOn, Reader.forward, full, if_true]
          exact .blocked rfl full
      | false =>
          simp only [passOn, Reader.forward, full, Bool.false_eq_true, if_false]
          exact .released rfl full rfl
  | none =>
      cases ho : overrun buffer.maxFrameBytes buffer.buffer with
      | some size =>
          have next := FrameBuffer.next_of_overrun consistent ho
          simp only [passOn, Reader.forward, next]
          exact .refused rfl rfl ho
      | none =>
          cases hd : decode buffer.buffer with
          | error e =>
              obtain ⟨scan, next, again⟩ := FrameBuffer.next_of_error consistent ho hd
              simp only [passOn, Reader.forward, next]
              exact .emptied rfl rfl ho ⟨e, hd⟩ again
          | ok r =>
              obtain ⟨m, taken⟩ := r
              have next := FrameBuffer.next_of_ok consistent ho hd
              have keeps := FrameBuffer.keeps_next consistent
              rw [next] at keeps
              obtain ⟨frame, handed, keeps⟩ | ⟨silent, -⟩ := keeps
              · obtain rfl := Option.some.inj (Except.ok.inj handed)
                cases full : inbox.isFull with
                | true =>
                    simp only [passOn, Reader.forward, next, full]
                    exact .kept (m := ⟨m, _⟩) rfl rfl keeps
                | false =>
                    simp only [passOn, Reader.forward, next, full]
                    exact .passed (m := ⟨m, _⟩) rfl full rfl keeps
              · exact absurd rfl (silent _)

theorem turn_turned {t : ReadTask} (receiver : t.role = .receiver)
    (live : t.reader.finished = false) (consistent : t.reader.buffer.Consistent) :
    Turned t t.turn := by
  obtain ⟨role, reader, reading, unread, ending, inbox, sink⟩ := t
  rw [turn, live]
  cases reading with
  | false => exact passOn_turned receiver consistent rfl
  | true =>
      cases unread with
      | cons chunk unread => exact .took rfl rfl
      | nil =>
          match ending with
          | none => exact .waited rfl rfl rfl
          | some .endOfStream => exact .closed rfl rfl rfl
          | some (.failure text) => exact .failed rfl rfl rfl

theorem turn_of_finished {t : ReadTask} (h : t.reader.finished = true) : t.turn = t := by
  rw [turn, if_pos h]

/-- A task that rests stays as it is until something comes from outside. -/
theorem turn_of_rests {t : ReadTask} (h : t.rests = true) : t.turn = t := by
  cases live : t.reader.finished with
  | true => exact turn_of_finished live
  | false =>
      obtain ⟨role, ⟨key, connection, buffer, held, finished⟩, reading, unread, ending, inbox, sink⟩ := t
      obtain rfl : finished = false := live
      cases reading with
      | true =>
          cases unread <;> cases ending <;> simp [rests] at h
          rfl
      | false =>
          cases held <;> simp [rests] at h
          simp [turn, passOn, Reader.forward, h]

theorem goOn_eq_iterate (t : ReadTask) (fuel : ℕ) : t.goOn fuel = turn^[fuel] t := by
  induction fuel generalizing t with
  | zero => rfl
  | succ fuel ih =>
      rw [goOn, Function.iterate_succ_apply]
      split_ifs with rests
      · have still := turn_of_rests rests
        rw [still, Function.iterate_fixed still]
      · exact ih t.turn

/-! ### What a task has done -/

/-- The task is at work.  It has split what has arrived of the stream into `frames` and the bytes
that it keeps, and has reported nothing. -/
structure Midway (limit : ℕ) (stream : Bytes) (sink : Sink) (t : ReadTask) (arrived : Bytes)
    (frames : List (Message × Bytes)) : Prop where
  live : t.reader.finished = false
  quiet : t.sink = sink
  kept : (FrameBuffer.new limit).Keeps arrived frames t.reader.buffer
  rest : arrived ++ t.unread.flatten = stream
  chunks : ∀ chunk ∈ t.unread, chunk ≠ []
  started : t.reading = false → arrived ≠ []
  free : t.reading = true → t.reader.held = none
  incomplete : t.reading = true → ∃ e, decode t.reader.buffer.buffer = .error e
  clear : t.reading = true → arrived ≠ [] → overrun limit t.reader.buffer.buffer = none

/-- The task has ended, with all messages of the stream and its report. -/
structure Ended (limit : ℕ) (ending : Reader.Ending) (stream : Bytes) (sink : Sink) (t : ReadTask)
    (frames : List (Message × Bytes)) : Prop where
  finished : t.reader.finished = true
  free : t.reader.held = none
  all : frames = accepted limit stream
  told : t.sink = reported t.reader.key sink (complaints limit ending stream)

/-- The task of a receiver reads a stream with a known ending, and has handed out `frames`. -/
structure Course (limit : ℕ) (key : String) (ending : Reader.Ending) (stream : Bytes)
    (sink : Sink) (t : ReadTask) (frames : List (Message × Bytes)) : Prop where
  receiver : t.role = .receiver
  peer : t.reader.key = key
  known : t.ending = some ending
  stage : (∃ arrived, Midway limit stream sink t arrived frames) ∨
    Ended limit ending stream sink t frames

/-- What a step does to the messages: it splits off `more` and passes on some if there is room. -/
structure Moves (t t' : ReadTask) (more : List (Message × Bytes)) (passed : List Inbound) :
    Prop where
  inbox : t'.inbox = { t.inbox with queue := t.inbox.queue ++ passed }
  waiting : passed.map Inbound.frame ++ t'.reader.waiting = t.reader.waiting ++ more
  room : passed = [] ∨ t.inbox.isFull = false

theorem moves_nothing {t t' : ReadTask} (inbox : t'.inbox = t.inbox)
    (held : t'.reader.held = t.reader.held) : Moves t t' [] [] where
  inbox := by rw [inbox, List.append_nil]
  waiting := by simp [Reader.waiting, held]
  room := .inl rfl

section

variable {limit : ℕ} {key : String} {ending : Reader.Ending} {stream arrived : Bytes}
  {sink : Sink} {frames : List (Message × Bytes)} {t t' : ReadTask}

theorem Midway.maxFrameBytes (h : Midway limit stream sink t arrived frames) :
    t.reader.buffer.maxFrameBytes = limit :=
  h.kept.limit

theorem Midway.drained (h : Midway limit stream sink t arrived frames) (reading : t.reading = true)
    (read : t.unread = []) : accepted limit stream = frames ∧ refusal limit stream = none := by
  have whole : arrived = stream := by simpa [read] using h.rest
  rw [← whole]
  exact accepted_of_incomplete h.kept (h.incomplete reading) (h.clear reading)

theorem Midway.splitOff (h : Midway limit stream sink t arrived frames) (through : t.reading = false)
    {frame : Message × Bytes} {buffer : FrameBuffer}
    (keeps : t.reader.buffer.Keeps [] [frame] buffer) (held : Option Inbound) (inbox : Inbox) :
    Midway limit stream sink { t with reader := { t.reader with buffer, held }, inbox } arrived
      (frames ++ [frame]) := by
  have further := h.kept.trans keeps
  rw [List.append_nil] at further
  have no (reading : t.reading = true) : False := by simp [through] at reading
  exact ⟨h.live, h.quiet, further, h.rest, h.chunks, h.started, fun r => (no r).elim,
    fun r => (no r).elim, fun r => (no r).elim⟩

/-- A step of a task at work splits off `more`, and the task goes on or has ended. -/
theorem Midway.turned (h : Midway limit stream sink t arrived frames)
    (receiver : t.role = .receiver) (known : t.ending = some ending) (step : Turned t t') :
    ∃ more passed, Moves t t' more passed ∧
      ((∃ arrived, Midway limit stream sink t' arrived (frames ++ more)) ∨
        Ended limit ending stream sink t' (frames ++ more)) := by
  have no : false ≠ true := Bool.false_ne_true
  cases step with
  | @took chunk unread reading first =>
      refine ⟨[], [], moves_nothing rfl rfl, .inl ⟨arrived ++ chunk, ?_⟩⟩
      have some : chunk ≠ [] := h.chunks chunk (first ▸ List.mem_cons_self)
      refine ⟨h.live, h.quiet, h.kept.trans (FrameBuffer.keeps_extend h.kept.consistent chunk), ?_,
        fun c hc => h.chunks c (first ▸ List.mem_cons_of_mem chunk hc),
        fun _ => List.append_ne_nil_of_right_ne_nil arrived some, fun r => (no r).elim,
        fun r => (no r).elim, fun r => (no r).elim⟩
      rw [List.append_assoc, ← List.flatten_cons, ← first]
      exact h.rest
  | waited _ _ unknown => rw [known] at unknown; cases unknown
  | closed reading read last =>
      obtain ⟨all, clear⟩ := h.drained reading read
      obtain rfl := Option.some.inj (known.symm.trans last)
      refine ⟨[], [], moves_nothing rfl rfl, .inr ⟨rfl, h.free reading, ?_, ?_⟩⟩
      · rw [List.append_nil, all]
      · simp only [complaints, clear, reported, List.foldl_nil, h.quiet]
  | @failed text reading read last =>
      obtain ⟨all, clear⟩ := h.drained reading read
      obtain rfl := Option.some.inj (known.symm.trans last)
      refine ⟨[], [], moves_nothing rfl rfl, .inr ⟨rfl, h.free reading, ?_, ?_⟩⟩
      · rw [List.append_nil, all]
      · simp only [complaints, clear, reported, List.foldl_cons, List.foldl_nil, giveUp, receiver,
          h.quiet]
  | blocked reading full =>
      refine ⟨[], [], moves_nothing rfl rfl, .inl ⟨arrived, ?_⟩⟩
      rwa [List.append_nil]
  | @released m reading room held =>
      refine ⟨[], [m], ⟨rfl, by simp [Reader.waiting, held], .inr room⟩, .inl ⟨arrived, ?_⟩⟩
      rw [List.append_nil]
      exact ⟨h.live, h.quiet, h.kept, h.rest, h.chunks, h.started, fun _ => rfl, h.incomplete,
        h.clear⟩
  | @refused size reading held refused =>
      rw [h.maxFrameBytes] at refused ⊢
      obtain ⟨all, beyond⟩ :=
        accepted_of_refused h.kept (h.started reading) refused t.unread.flatten
      rw [h.rest] at all beyond
      refine ⟨[], [], moves_nothing rfl rfl, .inr ⟨rfl, held, ?_, ?_⟩⟩
      · rw [List.append_nil, all]
      · simp only [complaints, beyond, reported, List.foldl_cons, List.foldl_nil, giveUp, receiver,
          h.quiet]
  | @emptied scan reading held clear incomplete again =>
      refine ⟨[], [], moves_nothing rfl rfl, .inl ⟨arrived, ?_⟩⟩
      rw [h.maxFrameBytes] at clear
      rw [List.append_nil]
      exact ⟨h.live, h.quiet, ⟨again, h.kept.limit, h.kept.bytes, h.kept.split, h.kept.within⟩,
        h.rest, h.chunks, fun r => (no r.symm).elim, fun _ => held, fun _ => incomplete,
        fun _ _ => clear⟩
  | @passed m buffer reading room held keeps =>
      refine ⟨[m.frame], [m], ⟨rfl, by simp [Reader.waiting, held], .inr room⟩,
        .inl ⟨arrived, ?_⟩⟩
      exact h.splitOff reading keeps t.reader.held (t.inbox.push m)
  | @kept m buffer reading held keeps =>
      refine ⟨[m.frame], [], ⟨by rw [List.append_nil], by simp [Reader.waiting, held], .inl rfl⟩,
        .inl ⟨arrived, ?_⟩⟩
      exact h.splitOff reading keeps (some m) t.inbox

theorem Turned.same (step : Turned t t') :
    t'.role = t.role ∧ t'.reader.key = t.reader.key ∧ t'.ending = t.ending := by
  cases step <;> exact ⟨rfl, rfl, rfl⟩

/-- **Every step of the task** splits off the next messages of the stream and passes them on in
their order, until the task has ended. -/
theorem Course.turn (h : Course limit key ending stream sink t frames) :
    ∃ more passed, Moves t t.turn more passed ∧
      Course limit key ending stream sink t.turn (frames ++ more) := by
  rcases h.stage with ⟨arrived, midway⟩ | ended
  · have step := turn_turned h.receiver midway.live midway.kept.consistent
    obtain ⟨role, peer, known⟩ := step.same
    obtain ⟨more, passed, moves, stage⟩ := midway.turned h.receiver h.known step
    exact ⟨more, passed, moves, role.trans h.receiver, peer.trans h.peer, known.trans h.known,
      stage⟩
  · rw [turn_of_finished ended.finished]
    refine ⟨[], [], moves_nothing rfl rfl, ?_⟩
    rwa [List.append_nil]

theorem Course.live (h : Course limit key ending stream sink t frames)
    (live : t.reader.finished = false) : ∃ arrived, Midway limit stream sink t arrived frames :=
  h.stage.resolve_right fun ended => by simp [ended.finished] at live

theorem Course.ended (h : Course limit key ending stream sink t frames)
    (finished : t.reader.finished = true) : Ended limit ending stream sink t frames :=
  h.stage.resolve_left fun ⟨_, midway⟩ => by simp [midway.live] at finished

theorem Course.prefix_accepted (h : Course limit key ending stream sink t frames) :
    frames <+: accepted limit stream := by
  rcases h.stage with ⟨arrived, midway⟩ | ended
  · have whole := midway.kept.trans
      (FrameBuffer.keeps_extend midway.kept.consistent t.unread.flatten)
    rw [midway.rest, List.append_nil] at whole
    exact ⟨_, whole.accepted_eq.symm⟩
  · rw [ended.all]

theorem Course.withInbox (h : Course limit key ending stream sink t frames) (inbox : Inbox) :
    Course limit key ending stream sink { t with inbox } frames where
  receiver := h.receiver
  peer := h.peer
  known := h.known
  stage := by
    rcases h.stage with ⟨arrived, m⟩ | e
    · exact .inl ⟨arrived, m.live, m.quiet, m.kept, m.rest, m.chunks, m.started, m.free,
        m.incomplete, m.clear⟩
    · exact .inr ⟨e.finished, e.free, e.all, e.told⟩

/-! ### Progress -/

/-- How much the task has still to do. -/
def weight (t : ReadTask) : ℕ :=
  3 * t.unread.flatten.length + t.reader.buffer.pending + t.reader.waiting.length +
    (if t.reading then 0 else 1) + if t.reader.finished then 0 else 1

theorem pending_of_keeps {b b' : FrameBuffer} {frame : Message × Bytes}
    (h : b.Keeps [] [frame] b') : b'.pending + preambleLength ≤ b.pending := by
  have split := h.split []
  have first : frame ∈ messages (b.buffer ++ [] ++ []) := split ▸ List.mem_cons_self
  have length := congrArg List.length h.bytes
  have least := preambleLength_le_of_mem_messages first
  simp only [List.flatMap_cons, List.flatMap_nil, List.append_nil, List.length_append] at length
  simp only [FrameBuffer.pending]
  omega

/-- Each step of a task at work leaves it less to do, unless it waits for a place in the inbox. -/
theorem Midway.weight_lt (h : Midway limit stream sink t arrived frames)
    (known : t.ending = some ending) (step : Turned t t') :
    t' = t ∧ t.inbox.isFull = true ∨ t'.weight < t.weight := by
  have live := h.live
  cases step with
  | @took chunk unread reading first =>
      have some : 0 < chunk.length :=
        List.length_pos_of_ne_nil (h.chunks chunk (first ▸ List.mem_cons_self))
      right
      simp only [weight, Reader.receive, FrameBuffer.extend, FrameBuffer.pending, Reader.waiting,
        first, reading, live, List.flatten_cons, List.length_append, Bool.false_eq_true, if_true,
        if_false]
      omega
  | waited _ _ unknown => rw [known] at unknown; cases unknown
  | closed => exact .inr (by simp [weight, live, Reader.waiting])
  | failed reading => exact .inr (by simp [weight, live, reading, Reader.waiting, giveUp])
  | blocked _ full => exact .inl ⟨rfl, full⟩
  | released _ _ held => exact .inr (by simp [weight, Reader.waiting, held])
  | refused reading => exact .inr (by simp [weight, live, reading, Reader.waiting, giveUp])
  | emptied reading => exact .inr (by simp [weight, reading, Reader.waiting, FrameBuffer.pending])
  | passed reading _ held keeps =>
      have shorter := pending_of_keeps keeps
      simp only [preambleLength] at shorter
      right
      simp only [weight, Reader.waiting, held]
      omega
  | kept reading held keeps =>
      have shorter := pending_of_keeps keeps
      simp only [preambleLength] at shorter
      right
      simp only [weight, Reader.waiting, held, Option.toList_none, Option.toList_some, List.map_nil,
        List.map_cons, List.length_nil, List.length_cons]
      omega

end

end ReadTask
end TreeCluster.Connection
