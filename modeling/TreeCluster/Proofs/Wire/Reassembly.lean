import TreeCluster.Proofs.Wire.Limit

/-! # Messages reassembled from chunks

A buffer that only receives chunks and hands out messages keeps a saved walk that could as well
have started at the front (`FrameBuffer.Consistent`), so the answer of `next` depends on the
bytes in the buffer and the limit alone (`next_of_overrun`, `next_of_ok`, `next_of_error`).

`messages` splits a whole stream by decoding its front again and again.  Whatever the chunks
are and whenever messages are asked for, a buffer hands out a first part of these messages, and
when it is asked until it has no more, it has handed out those up to the first one above the
limit (`accepted`), holds the rest of the stream (`leftover`) and gives the answer that belongs
to that rest (`verdict`): see `run_eq_of_stream`. -/

namespace TreeCluster.Wire

/-- The messages that stand one behind the other in a stream, each with its bytes. -/
def messages (stream : Bytes) : List (Message × Bytes) :=
  match _ : decode stream with
  | .error _ => []
  | .ok (m, taken) => (m, stream.take taken) :: messages (stream.drop taken)
termination_by stream.length
decreasing_by
  have := decode_bounds ‹_›
  simp only [preambleLength] at this
  rw [List.length_drop]
  omega

theorem messages_of_ok {stream : Bytes} {m : Message} {taken : ℕ}
    (h : decode stream = .ok (m, taken)) :
    messages stream = (m, stream.take taken) :: messages (stream.drop taken) := by
  rw [messages]
  split
  · next he => rw [h] at he; cases he
  · next he =>
      obtain ⟨rfl, rfl⟩ := Prod.mk.inj (Except.ok.inj (h.symm.trans he))
      rfl

theorem messages_of_error {stream : Bytes} {e : CodecError} (h : decode stream = .error e) :
    messages stream = [] := by
  rw [messages]
  split
  · rfl
  · next he => rw [h] at he; cases he

/-- The messages of a stream up to the first one above the limit. -/
def accepted (limit : ℕ) (stream : Bytes) : List (Message × Bytes) :=
  (messages stream).takeWhile fun frame => frame.2.length ≤ limit

/-- The stream behind the accepted messages. -/
def leftover (limit : ℕ) (stream : Bytes) : Bytes :=
  stream.drop ((accepted limit stream).flatMap Prod.snd).length

/-- What a buffer says when it is asked for a message. -/
abbrev Answer := Except CodecError (Option (Message × Bytes))

/-- The answer to bytes without a message that could be handed out: the size for which the front
is refused, or that there is no message yet. -/
def verdict (limit : ℕ) (rest : Bytes) : Answer :=
  match overrun limit rest with
  | some size => .error (.frameTooLarge size limit)
  | none => .ok none

namespace FrameBuffer

/-! ### What an answer depends on -/

/-- The saved walk started at the front, over a part of the buffer, and met no bound above the
limit. -/
def Consistent (b : FrameBuffer) : Prop :=
  ∀ scan, b.scan = some scan → ∃ seen, seen <+: b.buffer ∧ preambleLength ≤ seen.length ∧
    overrun b.maxFrameBytes seen = none ∧ scan = reachedFront seen

theorem consistent_new (limit : ℕ) : (new limit).Consistent := by
  intro scan h
  cases h

theorem Consistent.extend {b : FrameBuffer} (h : b.Consistent) (chunk : Bytes) :
    (b.extend chunk).Consistent := by
  intro scan hs
  obtain ⟨seen, front, rest⟩ := h scan hs
  exact ⟨seen, front.trans (List.prefix_append _ _), rest⟩

theorem scanFront_of_start {b : FrameBuffer} {start : Scan} (h : b.startScan = .ok (some start)) :
    b.scanFront =
      match (frameBounds b.buffer start.offset start.framesLeft).find? (b.maxFrameBytes < ·) with
      | some size => .error (.frameTooLarge size b.maxFrameBytes)
      | none => .ok (some (reached b.buffer start.offset start.framesLeft)) := by
  have walked := walk_eq b.maxFrameBytes b.buffer start.framesLeft start.offset
  simp only [scanFront, h, bind, Except.bind, pending, walked]
  cases (frameBounds b.buffer start.offset start.framesLeft).find? (b.maxFrameBytes < ·) with
  | none => rfl
  | some size => rfl

/-- Where the walk has got to after the walk before, it would also have got to from the front. -/
theorem scanFront_eq {b : FrameBuffer} (h : b.Consistent) :
    b.scanFront =
      match overrun b.maxFrameBytes b.buffer with
      | some size => .error (.frameTooLarge size b.maxFrameBytes)
      | none =>
        if b.pending < preambleLength then .ok none else .ok (some (reachedFront b.buffer)) := by
  obtain ⟨buffer, limit, scan⟩ := b
  cases scan with
  | none =>
      by_cases small : limit < preambleLength
      · rw [overrun_of_lt small]
        simp [scanFront, startScan, checkLimit_of_lt small, bind, Except.bind]
      · have fits := Nat.not_lt.mp small
        by_cases short : buffer.length < preambleLength
        · rw [overrun_of_not_arrived fits short]
          simp [scanFront, startScan, checkLimit_of_le fits, short, pending, bind, Except.bind, pure,
            Except.pure]
        · have start : startScan ⟨buffer, limit, none⟩ =
              .ok (some ⟨(readPreamble buffer).2, preambleLength⟩) := by
            simp [startScan, checkLimit_of_le fits, short, pending, bind, Except.bind, pure,
              Except.pure, readPreamble]
          rw [scanFront_of_start start, overrun_of_arrived fits (Nat.not_lt.mp short)]
          simp only [pending, short, if_false]
          rfl
  | some scan =>
      obtain ⟨seen, ⟨more, rfl⟩, arrived, clear, rfl⟩ := h scan rfl
      have fits : preambleLength ≤ limit :=
        overrun_eq_none.mp clear _ (List.mem_cons_self ..)
      have whole : preambleLength ≤ (seen ++ more).length :=
        arrived.trans (List.prefix_append _ _).length_le
      have passed :
          ∀ size ∈ frameBounds seen preambleLength (readPreamble seen).2, size ≤ limit := by
        intro size hs
        apply overrun_eq_none.mp clear
        rw [bounds, if_neg (Nat.not_lt.mpr arrived)]
        exact List.mem_cons_of_mem _ hs
      rw [scanFront_of_start rfl, overrun_of_arrived fits whole, readPreamble_append arrived]
      simp only [reachedFront, pending, readPreamble_append arrived, frameBounds_resume passed,
        reached_resume, Nat.not_lt.mpr whole, if_false]

/-- A front that is over the limit is refused, and the buffer stays. -/
theorem next_of_overrun {b : FrameBuffer} (h : b.Consistent) {size : ℕ}
    (refused : overrun b.maxFrameBytes b.buffer = some size) :
    b.next = (.error (.frameTooLarge size b.maxFrameBytes), b) := by
  rw [next, scanFront_eq h, refused]

/-- A complete message within the limit is split off. -/
theorem next_of_ok {b : FrameBuffer} (h : b.Consistent)
    (clear : overrun b.maxFrameBytes b.buffer = none) {m : Message} {taken : ℕ}
    (hd : decode b.buffer = .ok (m, taken)) :
    b.next =
      (.ok (some (m, b.buffer.take taken)),
        { b with buffer := b.buffer.drop taken, scan := none }) := by
  have arrived : ¬b.pending < preambleLength :=
    Nat.not_lt.mpr ((decode_bounds hd).1.trans (decode_bounds hd).2)
  have whole : decodeShared (b.buffer.take taken) = .ok (m, taken) := by
    rw [decodeShared_eq]
    simpa using decode_take_append hd []
  rw [next, scanFront_eq h, clear]
  simp only [arrived, if_false, reachedFront_of_ok hd, whole]

/-- While the message is not complete, the walk over what has arrived is saved. -/
theorem next_of_error {b : FrameBuffer} (h : b.Consistent)
    (clear : overrun b.maxFrameBytes b.buffer = none) {e : CodecError}
    (hd : decode b.buffer = .error e) :
    ∃ scan, b.next = (.ok none, { b with scan := scan }) ∧ { b with scan := scan }.Consistent := by
  rw [next, scanFront_eq h, clear]
  by_cases short : b.pending < preambleLength
  · simp only [short, if_true]
    exact ⟨b.scan, rfl, h⟩
  · have arrived : preambleLength ≤ b.buffer.length := Nat.not_lt.mp short
    have left := framesLeft_of_error arrived hd
    simp only [short, if_false]
    refine ⟨some (reachedFront b.buffer), ?_, ?_⟩
    · cases hs : reachedFront b.buffer with
      | mk framesLeft offset =>
          rw [hs] at left
          obtain ⟨more, rfl⟩ := Nat.exists_eq_succ_of_ne_zero left
          rfl
    · intro scan hs
      exact ⟨b.buffer, List.prefix_rfl, arrived, clear, (Option.some.inj hs).symm⟩

/-! ### Runs -/

/-- What happens to a buffer: bytes of the stream arrive, or the next message is asked for. -/
inductive Event where
  | arrive (chunk : Bytes)
  | ask

/-- The bytes that have arrived. -/
def received : List Event → Bytes
  | [] => []
  | .arrive chunk :: rest => chunk ++ received rest
  | .ask :: rest => received rest

/-- The messages that a buffer hands out over some events, and the buffer after them. -/
def run (b : FrameBuffer) : List Event → List (Message × Bytes) × FrameBuffer
  | [] => ([], b)
  | .arrive chunk :: rest => (b.extend chunk).run rest
  | .ask :: rest =>
    match b.next with
    | (.ok (some frame), b) => (frame :: (b.run rest).1, (b.run rest).2)
    | (_, b) => b.run rest

/-- A buffer is asked until it hands out no more: the messages, the answer that ends it, and the
buffer after it. -/
inductive Drained : FrameBuffer → List (Message × Bytes) → Answer → FrameBuffer → Prop
  | stop {b b' : FrameBuffer} {answer : Answer} :
      b.next = (answer, b') → (∀ frame, answer ≠ .ok (some frame)) → Drained b [] answer b'
  | more {b b₁ b₂ : FrameBuffer} {frame : Message × Bytes} {frames : List (Message × Bytes)}
      {answer : Answer} :
      b.next = (.ok (some frame), b₁) → Drained b₁ frames answer b₂ →
        Drained b (frame :: frames) answer b₂

theorem Drained.unique {b b₁ b₂ : FrameBuffer} {frames₁ frames₂ : List (Message × Bytes)}
    {answer₁ answer₂ : Answer} (h₁ : b.Drained frames₁ answer₁ b₁)
    (h₂ : b.Drained frames₂ answer₂ b₂) :
    frames₂ = frames₁ ∧ answer₂ = answer₁ ∧ b₂ = b₁ := by
  induction h₁ generalizing frames₂ with
  | stop next silent =>
      cases h₂ with
      | stop next' _ =>
          obtain ⟨rfl, rfl⟩ := Prod.mk.inj (next'.symm.trans next)
          exact ⟨rfl, rfl, rfl⟩
      | more next' _ =>
          obtain ⟨same, -⟩ := Prod.mk.inj (next.symm.trans next')
          exact absurd same (silent _)
  | more next _ ih =>
      cases h₂ with
      | stop next' silent =>
          obtain ⟨same, -⟩ := Prod.mk.inj (next'.symm.trans next)
          exact absurd same (silent _)
      | more next' rest =>
          obtain ⟨same, rfl⟩ := Prod.mk.inj (next'.symm.trans next)
          obtain rfl := Option.some.inj (Except.ok.inj same)
          obtain ⟨rfl, rfl, rfl⟩ := ih rest
          exact ⟨rfl, rfl, rfl⟩

/-- What a run from `b` to `b'` keeps, over which `chunk` arrives and `taken` is handed out: no
byte is lost, and the messages are the first ones of every stream that goes on from there. -/
structure Keeps (b : FrameBuffer) (chunk : Bytes) (taken : List (Message × Bytes))
    (b' : FrameBuffer) : Prop where
  consistent : b'.Consistent
  limit : b'.maxFrameBytes = b.maxFrameBytes
  bytes : taken.flatMap Prod.snd ++ b'.buffer = b.buffer ++ chunk
  split : ∀ later, messages (b.buffer ++ chunk ++ later) = taken ++ messages (b'.buffer ++ later)
  within : ∀ frame ∈ taken, frame.2.length ≤ b.maxFrameBytes

theorem keeps_extend {b : FrameBuffer} (h : b.Consistent) (chunk : Bytes) :
    Keeps b chunk [] (b.extend chunk) :=
  ⟨h.extend chunk, rfl, rfl, fun _ => rfl, by simp⟩

theorem Keeps.trans {b b₁ b₂ : FrameBuffer} {chunk₁ chunk₂ : Bytes}
    {taken₁ taken₂ : List (Message × Bytes)} (h₁ : Keeps b chunk₁ taken₁ b₁)
    (h₂ : Keeps b₁ chunk₂ taken₂ b₂) : Keeps b (chunk₁ ++ chunk₂) (taken₁ ++ taken₂) b₂ where
  consistent := h₂.consistent
  limit := h₂.limit.trans h₁.limit
  bytes := by
    rw [List.flatMap_append, List.append_assoc, h₂.bytes, ← List.append_assoc, h₁.bytes,
      List.append_assoc]
  split := by
    intro later
    have first := h₁.split (chunk₂ ++ later)
    simp only [List.append_assoc] at first ⊢
    rw [first, ← List.append_assoc b₁.buffer, h₂.split]
  within := by
    intro frame hf
    rcases List.mem_append.mp hf with hf | hf
    · exact h₁.within frame hf
    · rw [← h₁.limit]
      exact h₂.within frame hf

theorem keeps_next {b : FrameBuffer} (h : b.Consistent) :
    (∃ frame, b.next.1 = .ok (some frame) ∧ Keeps b [] [frame] b.next.2) ∨
      (∀ frame, b.next.1 ≠ .ok (some frame)) ∧ Keeps b [] [] b.next.2 := by
  cases ho : overrun b.maxFrameBytes b.buffer with
  | some size =>
      rw [next_of_overrun h ho]
      exact Or.inr ⟨by simp, h, rfl, by simp, by simp, by simp⟩
  | none =>
      cases hd : decode b.buffer with
      | error e =>
          obtain ⟨scan, hn, hc⟩ := next_of_error h ho hd
          rw [hn]
          exact Or.inr ⟨by simp, hc, rfl, by simp, by simp, by simp⟩
      | ok r =>
          obtain ⟨m, taken⟩ := r
          rw [next_of_ok h ho hd]
          refine Or.inl ⟨_, rfl, by simp [Consistent], rfl, by simp, ?_, ?_⟩
          · intro later
            have hm := messages_of_ok (decode_append hd later)
            have inside := (decode_bounds hd).2
            rw [List.take_append_of_le_length inside, List.drop_append_of_le_length inside] at hm
            simpa using hm
          · have fits := (overrun_eq_none_iff hd _).mp ho
            simp only [List.mem_singleton, forall_eq, List.length_take]
            omega

theorem keeps_run {b : FrameBuffer} (h : b.Consistent) (events : List Event) :
    Keeps b (received events) (b.run events).1 (b.run events).2 := by
  induction events generalizing b with
  | nil => exact ⟨h, rfl, by simp [run, received], by simp [run, received], by simp [run]⟩
  | cons event rest ih =>
      cases event with
      | arrive chunk => exact (keeps_extend h chunk).trans (ih (h.extend chunk))
      | ask =>
          have step := keeps_next h
          cases hn : b.next with
          | mk answer b₁ =>
              rw [hn] at step
              rcases step with ⟨frame, rfl, step⟩ | ⟨silent, step⟩
              · have handed : b.run (.ask :: rest) =
                    (frame :: (b₁.run rest).1, (b₁.run rest).2) := by
                  simp only [run, hn]
                rw [handed]
                exact step.trans (ih step.consistent)
              · have passed : b.run (.ask :: rest) = b₁.run rest := by
                  cases answer with
                  | error e => simp only [run, hn]
                  | ok handed =>
                      cases handed with
                      | none => simp only [run, hn]
                      | some frame => exact absurd rfl (silent frame)
                rw [passed]
                exact step.trans (ih step.consistent)

end FrameBuffer

/-! ### Asking until there is no more -/

theorem accepted_of_ok {limit : ℕ} {stream : Bytes} {m : Message} {taken : ℕ}
    (hd : decode stream = .ok (m, taken)) (h : taken ≤ limit) :
    accepted limit stream = (m, stream.take taken) :: accepted limit (stream.drop taken) := by
  rw [accepted, messages_of_ok hd, List.takeWhile_cons_of_pos]
  · rfl
  · simpa using Or.inl h

theorem accepted_of_verdict {limit : ℕ} {stream : Bytes}
    (h : (∃ size, overrun limit stream = some size) ∨ ∃ e, decode stream = .error e) :
    accepted limit stream = [] := by
  cases hd : decode stream with
  | error e => rw [accepted, messages_of_error hd, List.takeWhile_nil]
  | ok r =>
      obtain ⟨m, taken⟩ := r
      rcases h with ⟨size, ho⟩ | ⟨e, he⟩
      · have long : ¬taken ≤ limit := by
          rw [← overrun_eq_none_iff hd, ho]
          exact Option.some_ne_none size
        have inside := (decode_bounds hd).2
        rw [accepted, messages_of_ok hd, List.takeWhile_cons_of_neg]
        simp only [List.length_take, decide_eq_true_eq]
        omega
      · rw [hd] at he
        cases he

theorem leftover_of_accepted {limit : ℕ} {stream : Bytes} (h : accepted limit stream = []) :
    leftover limit stream = stream := by
  rw [leftover, h]
  rfl

theorem leftover_of_append {limit : ℕ} {stream rest : Bytes} {taken : List (Message × Bytes)}
    (bytes : taken.flatMap Prod.snd ++ rest = stream)
    (h : accepted limit stream = taken ++ accepted limit rest) :
    leftover limit stream = leftover limit rest := by
  rw [leftover, leftover, h, List.flatMap_append, List.length_append, ← bytes,
    List.drop_append, List.drop_of_length_le (Nat.le_add_right _ _), List.nil_append,
    Nat.add_sub_cancel_left]

theorem leftover_of_ok {limit : ℕ} {stream : Bytes} {m : Message} {taken : ℕ}
    (h : decode stream = .ok (m, taken)) (short : taken ≤ limit) :
    leftover limit stream = leftover limit (stream.drop taken) :=
  leftover_of_append (by simp) ((accepted_of_ok h short).trans (List.singleton_append).symm)

namespace FrameBuffer

/-- What a new buffer has handed out are accepted messages, and the others are still to come. -/
theorem Keeps.accepted_eq {limit : ℕ} {stream : Bytes} {taken : List (Message × Bytes)}
    {b : FrameBuffer} (h : (new limit).Keeps stream taken b) :
    accepted limit stream = taken ++ accepted limit b.buffer := by
  have split : messages (stream ++ []) = taken ++ messages (b.buffer ++ []) := h.split []
  rw [List.append_nil, List.append_nil] at split
  rw [accepted, split, List.takeWhile_append_of_pos]
  · rfl
  · intro frame hf
    exact decide_eq_true (h.within frame hf)

/-- Asking a buffer again and again comes to an end: it hands out the accepted messages, and the
answer that ends it is the verdict about the rest, which stays in the buffer. -/
theorem exists_drained {b : FrameBuffer} (h : b.Consistent) :
    ∃ b', Drained b (accepted b.maxFrameBytes b.buffer)
      (verdict b.maxFrameBytes (leftover b.maxFrameBytes b.buffer)) b' ∧
      b'.buffer = leftover b.maxFrameBytes b.buffer := by
  induction hl : b.buffer.length using Nat.strong_induction_on generalizing b with
  | _ length ih =>
      cases ho : overrun b.maxFrameBytes b.buffer with
      | some size =>
          have empty := accepted_of_verdict (Or.inl ⟨size, ho⟩)
          rw [empty, leftover_of_accepted empty, verdict, ho]
          exact ⟨b, .stop (next_of_overrun h ho) (by simp), rfl⟩
      | none =>
          cases hd : decode b.buffer with
          | error e =>
              obtain ⟨scan, hn, -⟩ := next_of_error h ho hd
              have empty : accepted b.maxFrameBytes b.buffer = [] :=
                accepted_of_verdict (Or.inr ⟨e, hd⟩)
              rw [empty, leftover_of_accepted empty, verdict, ho]
              exact ⟨_, .stop hn (by simp), rfl⟩
          | ok r =>
              obtain ⟨m, taken⟩ := r
              obtain ⟨least, most⟩ := decode_bounds hd
              have short := (overrun_eq_none_iff hd _).mp ho
              have shorter : (b.buffer.drop taken).length < length := by
                simp only [preambleLength] at least
                rw [List.length_drop, hl]
                omega
              have next := next_of_ok h ho hd
              obtain ⟨b', drained, left⟩ := ih _ shorter
                (b := { b with buffer := b.buffer.drop taken, scan := none }) (by simp [Consistent])
                rfl
              rw [accepted_of_ok hd short, leftover_of_ok hd short]
              exact ⟨b', .more next drained, left⟩

end FrameBuffer

/-- **Chunks do not matter**: whatever the limit, the chunks and the points at which messages are
asked for, the messages handed out are the first ones of the whole stream, also of every stream
that goes on from there; with the buffered bytes they make up the bytes that have arrived; and
asking until there is no more message ends with messages, remaining bytes and an answer that are
given by the limit and the stream alone. -/
theorem run_eq_of_stream (limit : ℕ) (events : List FrameBuffer.Event) (later : Bytes) :
    let stream := FrameBuffer.received events
    let taken := ((FrameBuffer.new limit).run events).1
    let b := ((FrameBuffer.new limit).run events).2
    taken <+: messages (stream ++ later) ∧
    taken.flatMap Prod.snd ++ b.buffer = stream ∧
    (∃ more answer b', b.Drained more answer b') ∧
    ∀ more answer b', b.Drained more answer b' →
      taken ++ more = accepted limit stream ∧ answer = verdict limit (leftover limit stream) ∧
        b'.buffer = leftover limit stream := by
  intro stream taken b
  have kept : (FrameBuffer.new limit).Keeps stream taken b :=
    FrameBuffer.keeps_run (FrameBuffer.consistent_new limit) events
  have limited : b.maxFrameBytes = limit := kept.limit
  have bytes : taken.flatMap Prod.snd ++ b.buffer = stream := kept.bytes
  have split : ∀ later, messages (stream ++ later) = taken ++ messages (b.buffer ++ later) :=
    kept.split
  have whole : accepted limit stream = taken ++ accepted limit b.buffer := kept.accepted_eq
  obtain ⟨b', drained, left⟩ := FrameBuffer.exists_drained kept.consistent
  rw [limited] at drained left
  refine ⟨⟨_, (split later).symm⟩, bytes, ⟨_, _, b', drained⟩, ?_⟩
  intro more answer b'' other
  obtain ⟨rfl, rfl, rfl⟩ := drained.unique other
  rw [leftover_of_append bytes whole]
  exact ⟨whole.symm, rfl, left⟩

end TreeCluster.Wire
