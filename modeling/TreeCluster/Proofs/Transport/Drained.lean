import TreeCluster.Proofs.Transport.Ended

/-! # A reading task whose messages are taken

The task of a receiver works beside those who take messages out of its inbox and beside other
connections that bring messages to it (`Consumed`).  In any schedule the messages that have been
taken are the first ones of the stream, and nothing is reported before the task has ended
(`Consumed.Sound`).

In a fair schedule (`Consumed.Fair`) the task ends, and all messages that the limit allows are
taken in the end. -/

namespace TreeCluster.Connection

open Wire Socket

/-- The task of a receiver, and what has become of its messages. -/
structure Consumed where
  task : ReadTask
  /-- Which messages in the inbox came over the connection. -/
  origins : List Bool
  /-- The messages of the connection that have been taken, oldest first, with their bytes. -/
  taken : List (Message × Bytes)

namespace Consumed

/-- What happens to the task and at the inbox. -/
inductive Event where
  /-- The task takes a step. -/
  | turn
  /-- The oldest message is taken out of the inbox. -/
  | take
  /-- Another connection brings a message, if there is a place for it. -/
  | elsewhere (m : Inbound)

/-- What an event does. -/
def apply (s : Consumed) : Event → Consumed
  | .turn =>
    let new := s.task.turn.inbox.queue.length - s.task.inbox.queue.length
    { s with task := s.task.turn, origins := s.origins ++ List.replicate new true }
  | .take =>
    match s.task.inbox.queue, s.origins with
    | m :: _, mine :: origins =>
      { task := { s.task with inbox := s.task.inbox.pop }
        origins
        taken := s.taken ++ if mine then [m.frame] else [] }
    | _, _ => s
  | .elsewhere m =>
    if s.task.inbox.isFull then s
    else
      { s with
        task := { s.task with inbox := s.task.inbox.push m }
        origins := s.origins ++ [false] }

/-- The state after the first `n` events of a schedule. -/
def after (s : Consumed) (schedule : ℕ → Event) : ℕ → Consumed
  | 0 => s
  | n + 1 => (s.after schedule n).apply (schedule n)

/-- A receiver gets its end of a connection, over which some chunks come and then the stream ends.
In its inbox are messages of other connections. -/
def start (options : SocketOptions) (key : String) (connection : ℕ) (chunks : List Bytes)
    (ending : Reader.Ending) (queue : List Inbound) (sink : Sink) : Consumed where
  task :=
    { role := .receiver
      reader := ⟨key, connection, .new options.maxFrameBytes, none, false⟩
      reading := true
      unread := chunks
      ending := some ending
      inbox := ⟨max options.inboundCapacity 1, queue⟩
      sink }
  origins := List.replicate queue.length false
  taken := []

/-! ### What every schedule keeps -/

/-- Of the messages that were split off the stream, the first ones have been taken, those after
them are in the inbox, and the last one may wait for a place there. -/
structure Sound (limit : ℕ) (key : String) (ending : Reader.Ending) (stream : Bytes) (sink : Sink)
    (s : Consumed) : Prop where
  aligned : s.task.inbox.queue.length = s.origins.length
  course : s.task.Course limit key ending stream sink
    (s.taken ++ ownFrames s.task.inbox.queue s.origins ++ s.task.reader.waiting)

variable {limit : ℕ} {key : String} {ending : Reader.Ending} {stream : Bytes} {sink : Sink}
  {s : Consumed}

theorem sound_start (options : SocketOptions) (key : String) (connection : ℕ)
    {chunks : List Bytes} (whole : ∀ chunk ∈ chunks, chunk ≠ []) (ending : Reader.Ending)
    (queue : List Inbound) (sink : Sink) :
    Sound options.maxFrameBytes key ending chunks.flatten sink
      (start options key connection chunks ending queue sink) := by
  have kept := FrameBuffer.keeps_run (FrameBuffer.consistent_new options.maxFrameBytes) []
  have frames : (start options key connection chunks ending queue sink).taken ++
      ownFrames queue (List.replicate queue.length false) ++ [] = [] := by
    rw [ownFrames_others]
    rfl
  have midway : (start options key connection chunks ending queue sink).task.Midway
      options.maxFrameBytes chunks.flatten sink [] [] :=
    ⟨rfl, rfl, kept, rfl, whole, nofun, fun _ => rfl, fun _ => exists_decode_nil,
      fun _ some => absurd rfl some⟩
  exact ⟨by simp [start], rfl, rfl, rfl, .inl ⟨[], frames ▸ midway⟩⟩

theorem apply_turn {more : List (Message × Bytes)} {passed : List Inbound}
    (moves : s.task.Moves s.task.turn more passed) :
    s.apply .turn =
      { s with
        task := s.task.turn
        origins := s.origins ++ List.replicate passed.length true } := by
  have new : s.task.turn.inbox.queue.length - s.task.inbox.queue.length = passed.length := by
    rw [moves.inbox, List.length_append, Nat.add_sub_cancel_left]
  simp only [apply, new]

theorem Sound.apply (h : Sound limit key ending stream sink s) (event : Event) :
    Sound limit key ending stream sink (s.apply event) := by
  obtain ⟨aligned, course⟩ := h
  cases event with
  | turn =>
      obtain ⟨more, passed, moves, further⟩ := course.turn
      have queue : s.task.turn.inbox.queue = s.task.inbox.queue ++ passed := by rw [moves.inbox]
      rw [apply_turn moves]
      refine ⟨by simp [queue, aligned], ?_⟩
      have frames : s.taken ++ ownFrames s.task.turn.inbox.queue
            (s.origins ++ List.replicate passed.length true) ++ s.task.turn.reader.waiting =
          s.taken ++ ownFrames s.task.inbox.queue s.origins ++ s.task.reader.waiting ++ more := by
        rw [queue, ownFrames_append aligned, ownFrames_mine]
        simp only [List.append_assoc, moves.waiting]
      exact frames ▸ further
  | take =>
      simp only [Consumed.apply]
      split
      · next m rest mine origins queue mined =>
          rw [queue, mined] at aligned
          rw [queue, mined, ownFrames_cons, ← List.append_assoc] at course
          have pop : s.task.inbox.pop = { s.task.inbox with queue := rest } := by
            rw [Inbox.pop, queue]
            rfl
          rw [pop]
          exact ⟨Nat.succ.inj aligned, course.withInbox _⟩
      · exact ⟨aligned, course⟩
  | elsewhere m =>
      simp only [Consumed.apply]
      split_ifs
      · exact ⟨aligned, course⟩
      · refine ⟨?_, ?_⟩
        · simp [Inbox.push, aligned]
        · have queue : ownFrames (s.task.inbox.push m).queue (s.origins ++ [false]) =
              ownFrames s.task.inbox.queue s.origins :=
            (ownFrames_append aligned).trans (List.append_nil _)
          rw [queue]
          exact course.withInbox _

theorem Sound.after (h : Sound limit key ending stream sink s) (schedule : ℕ → Event) (n : ℕ) :
    Sound limit key ending stream sink (s.after schedule n) := by
  induction n with
  | zero => exact h
  | succ n ih => exact ih.apply (schedule n)

/-! ### Fair schedules -/

/-- The next event is a step of the task, and there is a place in the inbox. -/
def Room (s : Consumed) (schedule : ℕ → Event) (k : ℕ) : Prop :=
  schedule k = .turn ∧ (s.after schedule k).task.inbox.isFull = false

/-- The task and those who take messages act again and again.  If other connections bring messages,
they leave a place again and again when the task takes a step. -/
structure Fair (s : Consumed) (schedule : ℕ → Event) : Prop where
  turns : ∀ n, ∃ k ≥ n, schedule k = .turn
  takes : ∀ n, ∃ k ≥ n, schedule k = .take
  places : (∀ n m, schedule n ≠ .elsewhere m) ∨ ∀ n, ∃ k ≥ n, s.Room schedule k

/-- What is approached again and again is reached: it is, or a measure gets smaller. -/
theorem exists_of_descent {goal : ℕ → Prop} {measure : ℕ → ℕ} {start : ℕ}
    (down : ∀ n ≥ start, ∃ k ≥ n, goal k ∨ measure k < measure n) :
    ∀ n ≥ start, ∃ k ≥ n, goal k := by
  intro n
  induction hm : measure n using Nat.strong_induction_on generalizing n with
  | _ m ih =>
      intro later
      obtain ⟨k, from_n, reached | less⟩ := down n later
      · exact ⟨k, from_n, reached⟩
      · obtain ⟨j, from_k, reached⟩ := ih _ (hm ▸ less) k rfl (later.trans from_n)
        exact ⟨j, from_n.trans from_k, reached⟩

theorem measure_le (measure : Consumed → ℕ) {schedule : ℕ → Event} {n k : ℕ}
    (step : ∀ j ≥ n, measure (s.after schedule (j + 1)) ≤ measure (s.after schedule j))
    (later : n ≤ k) : measure (s.after schedule k) ≤ measure (s.after schedule n) := by
  induction k, later using Nat.le_induction with
  | base => exact le_rfl
  | succ k later ih => exact (step k later).trans ih

theorem Sound.capacity_apply (h : Sound limit key ending stream sink s) (event : Event) :
    (s.apply event).task.inbox.capacity = s.task.inbox.capacity := by
  cases event with
  | turn =>
      obtain ⟨more, passed, moves, -⟩ := h.course.turn
      rw [apply_turn moves, moves.inbox]
  | take => simp only [Consumed.apply]; split <;> rfl
  | elsewhere m => simp only [Consumed.apply]; split_ifs <;> rfl

theorem Sound.capacity_after (h : Sound limit key ending stream sink s) (schedule : ℕ → Event)
    (n : ℕ) : (s.after schedule n).task.inbox.capacity = s.task.inbox.capacity := by
  induction n with
  | zero => rfl
  | succ n ih => exact ((h.after schedule n).capacity_apply (schedule n)).trans ih

/-! ### A place in the inbox -/

/-- Without other connections the inbox gets fuller only by a step of the task with room. -/
theorem Sound.length_apply (h : Sound limit key ending stream sink s) {event : Event}
    (alone : ∀ m, event ≠ .elsewhere m) :
    (s.apply event).task.inbox.queue.length ≤ s.task.inbox.queue.length ∨
      event = .turn ∧ s.task.inbox.isFull = false := by
  cases event with
  | turn =>
      obtain ⟨more, passed, moves, -⟩ := h.course.turn
      rcases moves.room with rfl | room
      · left
        rw [apply_turn moves, moves.inbox, List.append_nil]
      · exact .inr ⟨rfl, room⟩
  | take =>
      left
      simp only [Consumed.apply]
      split
      · simp [Inbox.pop]
      · exact le_rfl
  | elsewhere m => exact absurd rfl (alone m)

theorem Sound.length_take (h : Sound limit key ending stream sink s) :
    (s.apply .take).task.inbox.queue.length = s.task.inbox.queue.length - 1 := by
  have aligned := h.aligned
  simp only [Consumed.apply]
  split
  · simp [Inbox.pop]
  · next other =>
      cases queue : s.task.inbox.queue with
      | nil => simp
      | cons m rest =>
          cases mined : s.origins with
          | nil => simp [queue, mined] at aligned
          | cons mine origins => exact absurd mined (other m rest mine origins queue)

section

variable {schedule : ℕ → Event}

theorem Sound.room_or_length_le (h : Sound limit key ending stream sink s)
    (alone : ∀ n m, schedule n ≠ .elsewhere m) {j k : ℕ} (later : j ≤ k) :
    (∃ i ≥ j, s.Room schedule i) ∨
      (s.after schedule k).task.inbox.queue.length ≤
        (s.after schedule j).task.inbox.queue.length := by
  induction k, later using Nat.le_induction with
  | base => exact .inr le_rfl
  | succ k later ih =>
      rcases ih with found | fewer
      · exact .inl found
      · rcases (h.after schedule k).length_apply (alone k) with step | room
        · exact .inr (step.trans fewer)
        · exact .inl ⟨k, later, room⟩

/-- An empty inbox stays empty until the task takes a step. -/
theorem Fair.exists_room_of_empty (fair : Fair s schedule)
    (h : Sound limit key ending stream sink s) (places : 0 < s.task.inbox.capacity)
    (alone : ∀ n m, schedule n ≠ .elsewhere m) {k : ℕ}
    (empty : (s.after schedule k).task.inbox.queue.length = 0) :
    ∃ i ≥ k, s.Room schedule i := by
  obtain ⟨j, from_k, turn⟩ := fair.turns k
  rcases h.room_or_length_le alone from_k with found | fewer
  · exact found
  · refine ⟨j, from_k, turn, ?_⟩
    have still : (s.after schedule j).task.inbox.queue.length = 0 :=
      Nat.le_zero.mp (fewer.trans empty.le)
    have capacity := h.capacity_after schedule j
    simp only [Inbox.isFull, still, capacity, decide_eq_false_iff_not]
    omega

theorem Fair.room (fair : Fair s schedule) (h : Sound limit key ending stream sink s)
    (places : 0 < s.task.inbox.capacity) (n : ℕ) : ∃ k ≥ n, s.Room schedule k := by
  rcases fair.places with alone | left
  · let length (k : ℕ) : ℕ := (s.after schedule k).task.inbox.queue.length
    have down : ∀ n ≥ 0, ∃ k ≥ n, s.Room schedule k ∨ length k < length n := by
      intro n _
      obtain ⟨k, from_n, take⟩ := fair.takes n
      rcases h.room_or_length_le alone from_n with ⟨i, from_n, room⟩ | fewer
      · exact ⟨i, from_n, .inl room⟩
      · by_cases nobody : length k = 0
        · obtain ⟨i, from_k, room⟩ := fair.exists_room_of_empty h places alone nobody
          exact ⟨i, from_n.trans from_k, .inl room⟩
        · have taken : length (k + 1) = length k - 1 := by
            have step := (h.after schedule k).length_take
            rwa [← take] at step
          have less : length (k + 1) < length k := by omega
          exact ⟨k + 1, Nat.le_succ_of_le from_n, .inr (less.trans_le fewer)⟩
    exact exists_of_descent down n (Nat.zero_le n)
  · exact left n

end

/-! ### The end of the task -/

theorem Sound.weight_turn (h : Sound limit key ending stream sink s)
    (live : s.task.reader.finished = false) :
    s.task.turn = s.task ∧ s.task.inbox.isFull = true ∨ s.task.turn.weight < s.task.weight := by
  obtain ⟨arrived, midway⟩ := h.course.live live
  exact midway.weight_lt h.course.known
    (ReadTask.turn_turned h.course.receiver live midway.kept.consistent)

theorem task_apply {event : Event} (other : event ≠ .turn) :
    ∃ inbox, (s.apply event).task = { s.task with inbox } := by
  cases event with
  | turn => exact absurd rfl other
  | take => simp only [apply]; split <;> exact ⟨_, rfl⟩
  | elsewhere m => simp only [apply]; split_ifs <;> exact ⟨_, rfl⟩

theorem Sound.weight_apply (h : Sound limit key ending stream sink s) (event : Event) :
    (s.apply event).task.weight ≤ s.task.weight := by
  by_cases turn : event = .turn
  · rw [turn, Consumed.apply]
    cases live : s.task.reader.finished with
    | true => rw [ReadTask.turn_of_finished live]
    | false =>
        rcases h.weight_turn live with ⟨same, -⟩ | less
        · rw [same]
        · exact less.le
  · obtain ⟨inbox, same⟩ := task_apply turn
    rw [same]
    rfl

theorem Fair.exists_finished {schedule : ℕ → Event} (fair : Fair s schedule)
    (h : Sound limit key ending stream sink s) (places : 0 < s.task.inbox.capacity) :
    ∃ k, (s.after schedule k).task.reader.finished = true := by
  let weight (k : ℕ) : ℕ := (s.after schedule k).task.weight
  have down : ∀ n ≥ 0, ∃ k ≥ n, (s.after schedule k).task.reader.finished = true ∨
      weight k < weight n := by
    intro n _
    obtain ⟨k, from_n, turn, room⟩ := fair.room h places n
    have fewer : weight k ≤ weight n := measure_le (fun s => s.task.weight)
      (fun j _ => (h.after schedule j).weight_apply (schedule j)) from_n
    cases live : (s.after schedule k).task.reader.finished with
    | true => exact ⟨k, from_n, .inl live⟩
    | false =>
        rcases (h.after schedule k).weight_turn live with ⟨-, full⟩ | less
        · rw [room] at full
          cases full
        · have step : weight (k + 1) = (s.after schedule k).task.turn.weight := by
            simp only [weight, after, turn, apply]
          exact ⟨k + 1, Nat.le_succ_of_le from_n, .inr (step ▸ less.trans_le fewer)⟩
  obtain ⟨k, -, finished⟩ := exists_of_descent down 0 (Nat.zero_le 0)
  exact ⟨k, finished⟩

theorem finished_apply (finished : s.task.reader.finished = true) (event : Event) :
    (s.apply event).task.reader.finished = true := by
  by_cases turn : event = .turn
  · rw [turn, apply, ReadTask.turn_of_finished finished]
    exact finished
  · obtain ⟨inbox, same⟩ := task_apply turn
    rw [same]
    exact finished

/-! ### The last message -/

/-- How many messages have to be taken before none of the connection is left. -/
def lastOwn : List Bool → ℕ
  | [] => 0
  | mine :: rest => if mine = true ∨ 0 < lastOwn rest then lastOwn rest + 1 else 0

theorem lastOwn_concat (origins : List Bool) : lastOwn (origins ++ [false]) = lastOwn origins := by
  induction origins with
  | nil => rfl
  | cons mine rest ih => rw [List.cons_append, lastOwn, lastOwn, ih]

theorem lastOwn_tail (mine : Bool) (rest : List Bool) :
    lastOwn rest = lastOwn (mine :: rest) - 1 := by
  rw [lastOwn]
  split_ifs <;> omega

theorem ownFrames_of_lastOwn {queue : List Inbound} {origins : List Bool}
    (none : lastOwn origins = 0) : ownFrames queue origins = [] := by
  induction origins generalizing queue with
  | nil => rw [ownFrames, List.zip_nil_right, List.filterMap_nil]
  | cons mine rest ih =>
      rw [lastOwn] at none
      split_ifs at none with some
      obtain ⟨other, later⟩ := not_or.mp some
      cases queue with
      | nil => rfl
      | cons m queue =>
          rw [ownFrames_cons, if_neg other, ih (Nat.eq_zero_of_not_pos later)]
          rfl

theorem Sound.lastOwn_take (h : Sound limit key ending stream sink s) :
    lastOwn (s.apply .take).origins = lastOwn s.origins - 1 := by
  have aligned := h.aligned
  simp only [Consumed.apply]
  split
  · next m rest mine origins queue mined =>
      rw [mined]
      exact lastOwn_tail mine origins
  · next other =>
      cases mined : s.origins with
      | nil => rfl
      | cons mine origins =>
          cases queue : s.task.inbox.queue with
          | nil => simp [queue, mined] at aligned
          | cons m rest => exact absurd mined (other m rest mine origins queue)

/-- Once the task has ended no message of the connection comes to the inbox. -/
theorem Sound.lastOwn_apply (h : Sound limit key ending stream sink s)
    (finished : s.task.reader.finished = true) (event : Event) :
    lastOwn (s.apply event).origins ≤ lastOwn s.origins := by
  cases event with
  | turn =>
      have still : s.task.Moves s.task.turn [] [] := by
        rw [ReadTask.turn_of_finished finished]
        exact ReadTask.moves_nothing rfl rfl
      rw [apply_turn still, List.length_nil, List.replicate_zero, List.append_nil]
  | take =>
      rw [h.lastOwn_take]
      exact Nat.sub_le _ _
  | elsewhere m =>
      simp only [Consumed.apply]
      split_ifs
      · exact le_rfl
      · exact (lastOwn_concat s.origins).le

/-- When the task has ended and its last message has been taken, the messages that have been taken
are all that the limit allows. -/
theorem Sound.taken_eq (h : Sound limit key ending stream sink s)
    (finished : s.task.reader.finished = true) (none : lastOwn s.origins = 0) :
    s.taken = accepted limit stream := by
  have ended := h.course.ended finished
  have nothing : s.task.reader.waiting = [] := by simp [Reader.waiting, ended.free]
  have all := ended.all
  rwa [ownFrames_of_lastOwn none, nothing, List.append_nil, List.append_nil] at all

/-- In a fair schedule the task ends, and all of its messages are taken, for good. -/
theorem Fair.exists_taken {schedule : ℕ → Event} (fair : Fair s schedule)
    (h : Sound limit key ending stream sink s) (places : 0 < s.task.inbox.capacity) :
    ∃ n, ∀ k ≥ n, (s.after schedule k).task.reader.finished = true ∧
      lastOwn (s.after schedule k).origins = 0 := by
  obtain ⟨n, finished⟩ := fair.exists_finished h places
  have stays {k : ℕ} (later : n ≤ k) : (s.after schedule k).task.reader.finished = true := by
    induction k, later using Nat.le_induction with
    | base => exact finished
    | succ k _ ih => exact finished_apply ih (schedule k)
  have fewer {j k : ℕ} (from_n : n ≤ j) (later : j ≤ k) :
      lastOwn (s.after schedule k).origins ≤ lastOwn (s.after schedule j).origins :=
    measure_le (fun s => lastOwn s.origins)
      (fun i from_j => (h.after schedule i).lastOwn_apply (stays (from_n.trans from_j)) _) later
  have down : ∀ j ≥ n, ∃ k ≥ j, lastOwn (s.after schedule k).origins = 0 ∨
      lastOwn (s.after schedule k).origins < lastOwn (s.after schedule j).origins := by
    intro j from_n
    obtain ⟨k, from_j, take⟩ := fair.takes j
    have less : lastOwn (s.after schedule (k + 1)).origins =
        lastOwn (s.after schedule k).origins - 1 := by
      have step := (h.after schedule k).lastOwn_take
      rwa [← take] at step
    have before := fewer from_n from_j
    exact ⟨k + 1, Nat.le_succ_of_le from_j, by omega⟩
  obtain ⟨j, from_n, none⟩ := exists_of_descent down n le_rfl
  exact ⟨j, fun k later => ⟨stays (from_n.trans later),
    Nat.le_zero.mp ((fewer from_n later).trans none.le)⟩⟩

/-! ### What is taken and what is reported -/

/-- **A bad stream costs one report and no earlier message.**  A peer writes a stream to a
receiver, in any chunks, and the stream ends or fails; the limit and the capacity of the inbox are
any.  In every schedule the messages that are taken are the first ones that the limit allows, and
before the task has ended nothing is reported.  In a fair schedule the task ends and all those
messages are taken; what is reported is the first message above the limit if there is one, or else
that reading failed if it did. -/
theorem taken_and_reported (options : SocketOptions) (key : String) (connection : ℕ)
    (chunks : List Bytes) (whole : ∀ chunk ∈ chunks, chunk ≠ []) (ending : Reader.Ending)
    (queue : List Inbound) (sink : Sink) (schedule : ℕ → Event) :
    let s := start options key connection chunks ending queue sink
    let limit := options.maxFrameBytes
    let stream := chunks.flatten
    (∀ n, (s.after schedule n).taken <+: accepted limit stream ∧
      ((s.after schedule n).task.reader.finished = false →
        (s.after schedule n).task.sink = sink)) ∧
    (Fair s schedule → ∃ n, ∀ k ≥ n,
      (s.after schedule k).task.reader.finished = true ∧
      (s.after schedule k).taken = accepted limit stream ∧
      (s.after schedule k).task.sink = reported key sink (complaints limit ending stream)) := by
  intro s limit stream
  have sound : Sound limit key ending stream sink s :=
    sound_start options key connection whole ending queue sink
  refine ⟨fun n => ⟨?_, fun live => ?_⟩, fun fair => ?_⟩
  · have split := (sound.after schedule n).course.prefix_accepted
    rw [List.append_assoc] at split
    exact (List.prefix_append _ _).trans split
  · obtain ⟨arrived, midway⟩ := (sound.after schedule n).course.live live
    exact midway.quiet
  · have places : 0 < s.task.inbox.capacity := Nat.lt_of_lt_of_le Nat.one_pos (Nat.le_max_right _ _)
    obtain ⟨n, done⟩ := fair.exists_taken sound places
    refine ⟨n, fun k later => ?_⟩
    obtain ⟨finished, none⟩ := done k later
    have there := sound.after schedule k
    refine ⟨finished, there.taken_eq finished none, ?_⟩
    have told := (there.course.ended finished).told
    rwa [there.course.peer] at told

/-- Two messages come in three chunks, with a third one behind them that announces a frame of 100
bytes.  The inbox has one place, and whoever takes messages and the task act in turns. -/
theorem taken_and_reported_of_three_chunks :
    let frame : Bytes := [6, 1, 0, 0, 0, 0, 0, 0, 0, 0, 0, 0, 0, 0]
    let chunks : List Bytes := [frame.take 5, frame.drop 5 ++ frame ++ [6, 1],
      [0, 0, 0, 0, 0, 0, 0, 0, 0, 0, 0, 1, 0, 0, 0, 100, 9]]
    let options : SocketOptions := { maxFrameBytes := 20, inboundCapacity := 1 }
    let s := start options "peer" 0 chunks (.failure "connection reset") [] Sink.empty
    let schedule : ℕ → Event := fun n => if n % 2 = 0 then .turn else .take
    let m := Message.new .join .probe 0
    (∀ chunk ∈ chunks, chunk ≠ []) ∧ Fair s schedule ∧
      ∃ n, ∀ k ≥ n, (s.after schedule k).taken = [(m, frame), (m, frame)] ∧
        (s.after schedule k).task.sink =
          ⟨["receiver decode from peer: frame of 118 bytes exceeds limit of 20"]⟩ := by
  intro frame chunks options s schedule m
  have whole : ∀ chunk ∈ chunks, chunk ≠ [] := by decide
  have fair : Fair s schedule := by
    refine ⟨fun n => ⟨2 * n, by omega, ?_⟩, fun n => ⟨2 * n + 1, by omega, ?_⟩, .inl ?_⟩
    · simp [schedule]
    · simp [schedule, Nat.add_mod]
    · intro n m
      simp only [schedule]
      split_ifs <;> simp
  obtain ⟨-, final⟩ := taken_and_reported options "peer" 0 chunks whole
    (.failure "connection reset") [] Sink.empty schedule
  obtain ⟨n, done⟩ := final fair
  -- the stream is two messages and the front of a third one
  let bad : Bytes := [6, 1, 0, 0, 0, 0, 0, 0, 0, 0, 0, 0, 0, 1, 0, 0, 0, 100, 9]
  have stream : chunks.flatten = frame ++ (frame ++ bad) := by decide
  have first : decode (frame ++ (frame ++ bad)) = .ok (m, 14) := by decide +kernel
  have second : decode (frame ++ bad) = .ok (m, 14) := by decide +kernel
  have refused : overrun 20 bad = some 118 := by decide +kernel
  have none : accepted 20 bad = [] := accepted_of_verdict (.inl ⟨118, refused⟩)
  have behind : (frame ++ (frame ++ bad)).drop 14 = frame ++ bad := rfl
  have last : (frame ++ bad).drop 14 = bad := rfl
  have all : accepted 20 chunks.flatten = [(m, frame), (m, frame)] := by
    rw [stream, accepted_of_ok first (by decide), behind, accepted_of_ok second (by decide), last,
      none]
    rfl
  have left : leftover 20 chunks.flatten = bad := by
    rw [stream, leftover_of_ok first (by decide), behind, leftover_of_ok second (by decide), last,
      leftover_of_accepted none]
  have told : complaints 20 (.failure "connection reset") chunks.flatten =
      [.decode (.frameTooLarge 118 20)] := by
    have some : chunks.flatten ≠ [] := by decide
    simp only [complaints, refusal, some, if_false, left, refused]
  refine ⟨whole, fair, n, fun k later => ?_⟩
  obtain ⟨-, taken, reports⟩ := done k later
  exact ⟨taken.trans all, reports.trans (by rw [told]; decide +kernel)⟩

end Consumed
end TreeCluster.Connection
