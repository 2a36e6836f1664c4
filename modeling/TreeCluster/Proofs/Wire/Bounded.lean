import TreeCluster.Proofs.Wire.RoundTrip

/-! # The limit of a buffer

The numbers of bytes that the front of a stream is known to take only become more as bytes arrive
(`bounds_append`), so a refusal is final (`overrun_append`, `run_of_overrun`).  While a message is
not complete it is known to take more bytes than have arrived (`exists_bound_gt`): if it is not
refused, fewer bytes than the limit wait (`length_lt_of_error`).  When a message is complete, no
number exceeds its length (`le_of_mem_bounds`).

So a buffer hands out no message above its limit and never waits with as many bytes as the limit;
it gives up at the first message that is too long, for good, and loses no byte by it
(`run_within_limit`). -/

namespace TreeCluster.Wire

/-! ### What is known of the front -/

theorem frameBounds_append (input more : Bytes) (offset count : ℕ) :
    frameBounds input offset count <+: frameBounds (input ++ more) offset count := by
  induction count generalizing offset with
  | zero => exact List.prefix_rfl
  | succ count ih =>
      have length : (input ++ more).length = input.length + more.length := List.length_append
      rw [frameBounds, frameBounds, List.prefix_cons_inj]
      by_cases body : input.length < offset + lengthWidth
      · rw [if_pos body]
        exact List.nil_prefix
      · have body' : ¬(input ++ more).length < offset + lengthWidth := by omega
        rw [if_neg body, if_neg body', frameStop_append (Nat.not_lt.mp body), List.prefix_cons_inj]
        by_cases stop : input.length < frameStop input offset
        · rw [if_pos stop]
          exact List.nil_prefix
        · rw [if_neg stop, if_neg (by omega)]
          exact ih _

theorem bounds_append (input more : Bytes) : bounds input <+: bounds (input ++ more) := by
  have length : (input ++ more).length = input.length + more.length := List.length_append
  rw [bounds, bounds, List.prefix_cons_inj]
  by_cases short : input.length < preambleLength
  · rw [if_pos short]
    exact List.nil_prefix
  · rw [if_neg short, if_neg (by omega), readPreamble_append (Nat.not_lt.mp short)]
    exact frameBounds_append input more _ _

theorem overrun_append {limit size : ℕ} {input : Bytes} (h : overrun limit input = some size)
    (more : Bytes) : overrun limit (input ++ more) = some size :=
  (bounds_append input more).find?_eq_some h

/-- Where frames have not all arrived, the decoder asks for the first number of bytes that they are
known to reach and that have not arrived. -/
theorem find?_frameBounds_of_error {input : Bytes} {offset count : ℕ} {e : CodecError}
    (h : frameExtents input offset count = .error e) :
    ∃ needed, (frameBounds input offset count).find? (input.length < ·) = some needed ∧
      e = .incomplete needed input.length := by
  induction count generalizing offset e with
  | zero => cases h
  | succ count ih =>
      rw [frameExtents_succ] at h
      rw [frameBounds]
      by_cases body : input.length < offset + lengthWidth
      · rw [if_pos body] at h
        cases h
        exact ⟨_, List.find?_cons_of_pos (by simpa using body), rfl⟩
      · rw [if_neg body] at h ⊢
        rw [List.find?_cons_of_neg (by simpa using body)]
        by_cases stop : input.length < frameStop input offset
        · rw [if_pos stop] at h
          cases h
          exact ⟨_, List.find?_cons_of_pos (by simpa using stop), rfl⟩
        · rw [if_neg stop] at h ⊢
          rw [List.find?_cons_of_neg (by simpa using stop)]
          cases hr : frameExtents input (frameStop input offset) count with
          | ok r => rw [hr] at h; cases h
          | error e' =>
              rw [hr] at h
              cases h
              exact ih hr

/-- The decoder fails in one way: the bytes end before the first number of bytes that the message
is known to take and that have not arrived.  It is the size for which a buffer would refuse the
message that is limited to what has arrived. -/
theorem overrun_of_decode_error {input : Bytes} {e : CodecError} (h : decode input = .error e) :
    ∃ needed, overrun input.length input = some needed ∧ e = .incomplete needed input.length := by
  by_cases short : input.length < preambleLength
  · rw [decode, if_pos short] at h
    cases h
    exact ⟨_, overrun_of_lt short input, rfl⟩
  · have arrived := Nat.not_lt.mp short
    obtain ⟨message, hd⟩ := decode_eq_frameExtents arrived
    rw [hd] at h
    rw [overrun_of_arrived arrived arrived]
    cases he : frameExtents input preambleLength (readPreamble input).2 with
    | ok r => rw [he] at h; cases h
    | error e' =>
        rw [he] at h
        cases h
        exact find?_frameBounds_of_error he

theorem exists_bound_gt {input : Bytes} {e : CodecError} (h : decode input = .error e) :
    ∃ size ∈ bounds input, input.length < size := by
  obtain ⟨needed, first, -⟩ := overrun_of_decode_error h
  exact ⟨needed, List.mem_of_find?_eq_some first, by simpa using List.find?_some first⟩

theorem length_lt_of_error {limit : ℕ} {input : Bytes} {e : CodecError}
    (clear : overrun limit input = none) (h : decode input = .error e) : input.length < limit := by
  obtain ⟨size, hs, more⟩ := exists_bound_gt h
  exact more.trans_le (overrun_eq_none.mp clear size hs)

theorem le_of_mem_bounds {input : Bytes} {m : Message} {taken size : ℕ}
    (h : decode input = .ok (m, taken)) (hs : size ∈ bounds input) : size ≤ taken :=
  overrun_eq_none.mp ((overrun_eq_none_iff h taken).mpr le_rfl) size hs

theorem lt_of_overrun {limit size : ℕ} {input : Bytes} (h : overrun limit input = some size) :
    limit < size := by
  simpa using List.find?_some h

theorem exists_overrun {limit : ℕ} {input : Bytes} {m : Message} {taken : ℕ}
    (h : decode input = .ok (m, taken)) (long : limit < taken) :
    ∃ size, overrun limit input = some size ∧ limit < size ∧ size ≤ taken := by
  obtain ⟨size, refused⟩ := Option.ne_none_iff_exists'.mp
    (mt (overrun_eq_none_iff h limit).mp (Nat.not_le.mpr long))
  exact ⟨size, refused, lt_of_overrun refused, le_of_mem_bounds h (List.mem_of_find?_eq_some refused)⟩

/-! ### Lengths of messages -/

theorem encodedLength_of_decode {input : Bytes} {m : Message} {taken : ℕ}
    (h : decode input = .ok (m, taken)) : encodedLength m = taken := by
  obtain ⟨-, -, -, -, rfl⟩ := (decode_eq_ok_iff _ _ _).mp h
  exact encodedLength_eq m

theorem length_of_mem_messages {stream : Bytes} {frame : Message × Bytes}
    (h : frame ∈ messages stream) : frame.2.length = (encode frame.1).length := by
  induction stream using messages.induct with
  | case1 stream e hd =>
      rw [messages_of_error hd] at h
      cases h
  | case2 stream m taken hd ih =>
      rw [messages_of_ok hd] at h
      rcases List.mem_cons.mp h with rfl | h
      · rw [List.length_take_of_le (decode_bounds hd).2, length_encode, encodedLength_of_decode hd]
      · exact ih h

theorem exists_decode_leftover {limit : ℕ} {stream : Bytes} {first : Message × Bytes}
    (h : (messages stream).find? (limit < ·.2.length) = some first) :
    decode (leftover limit stream) = .ok (first.1, first.2.length) := by
  induction stream using messages.induct with
  | case1 stream e hd =>
      rw [messages_of_error hd] at h
      cases h
  | case2 stream m taken hd ih =>
      have whole : (stream.take taken).length = taken :=
        List.length_take_of_le (decode_bounds hd).2
      rw [messages_of_ok hd] at h
      by_cases long : limit < taken
      · rw [List.find?_cons_of_pos (by simpa [whole] using long)] at h
        obtain rfl := Option.some.inj h
        obtain ⟨size, refused, -⟩ := exists_overrun hd long
        rw [leftover_of_accepted (accepted_of_verdict (.inl ⟨size, refused⟩)), whole, hd]
      · rw [List.find?_cons_of_neg (by simpa [whole] using long)] at h
        rw [leftover_of_ok hd (Nat.not_lt.mp long)]
        exact ih h

namespace FrameBuffer

variable {b : FrameBuffer}

/-! ### Answers -/

theorem next_cases (h : b.Consistent) :
    (∃ size, overrun b.maxFrameBytes b.buffer = some size ∧
      b.next = (.error (.frameTooLarge size b.maxFrameBytes), b)) ∨
    (overrun b.maxFrameBytes b.buffer = none ∧ (∃ e, decode b.buffer = .error e) ∧
      ∃ scan, b.next = (.ok none, { b with scan := scan })) ∨
    ∃ frame b', b.next = (.ok (some frame), b') := by
  cases ho : overrun b.maxFrameBytes b.buffer with
  | some size => exact .inl ⟨size, rfl, next_of_overrun h ho⟩
  | none =>
      cases hd : decode b.buffer with
      | error e =>
          obtain ⟨scan, hn, -⟩ := next_of_error h ho hd
          exact .inr (.inl ⟨rfl, ⟨e, rfl⟩, scan, hn⟩)
      | ok r => exact .inr (.inr ⟨_, _, next_of_ok h ho hd⟩)

theorem pending_lt (h : b.Consistent) (none : b.next.1 = .ok none) :
    b.next.2.pending < b.maxFrameBytes := by
  rcases next_cases h with ⟨size, -, hn⟩ | ⟨clear, ⟨e, hd⟩, scan, hn⟩ | ⟨frame, b', hn⟩
  · rw [hn] at none
    cases none
  · rw [hn]
    exact length_lt_of_error clear hd
  · rw [hn] at none
    cases none

/-- An error is a refusal, and the buffer stays as it is. -/
theorem overrun_of_next_error (h : b.Consistent) {e : CodecError} (he : b.next.1 = .error e) :
    ∃ size, overrun b.maxFrameBytes b.buffer = some size ∧
      e = .frameTooLarge size b.maxFrameBytes ∧ b.next.2 = b := by
  rcases next_cases h with ⟨size, ho, hn⟩ | ⟨-, -, scan, hn⟩ | ⟨frame, b', hn⟩
  · rw [hn] at he ⊢
    exact ⟨size, ho, (Except.error.inj he).symm, rfl⟩
  · rw [hn] at he
    cases he
  · rw [hn] at he
    cases he

/-- A buffer that has refused its front hands out nothing more and gives the same answer for
ever. -/
theorem run_of_overrun (h : b.Consistent) {size : ℕ}
    (refused : overrun b.maxFrameBytes b.buffer = some size) (events : List Event) :
    (b.run events).1 = [] ∧
      (b.run events).2.next.1 = .error (.frameTooLarge size b.maxFrameBytes) := by
  induction events generalizing b with
  | nil =>
      refine ⟨rfl, ?_⟩
      rw [run, next_of_overrun h refused]
  | cons event rest ih =>
      cases event with
      | arrive chunk => exact ih (h.extend chunk) (overrun_append refused chunk)
      | ask =>
          have stays : b.run (.ask :: rest) = b.run rest := by
            simp only [run, next_of_overrun h refused]
          rw [stays]
          exact ih h refused

end FrameBuffer

/-- **The limit holds, and a refusal is final.**  Whatever bytes arrive and whenever messages are
asked for:

* a message that is handed out is not longer than the limit, so one with a longer encoding never
  is;
* once all bytes of a message above the limit have arrived, asking until there is no more ends
  with a refusal, for a size above the limit that the first such message reaches;
* after the answer that there is no message yet, fewer bytes than the limit wait;
* the only error is such a refusal.  It removes no byte, and from then on nothing is handed out
  and every answer is the same, whatever arrives. -/
theorem run_within_limit (limit : ℕ) (events : List FrameBuffer.Event) :
    let stream := FrameBuffer.received events
    let taken := ((FrameBuffer.new limit).run events).1
    let b := ((FrameBuffer.new limit).run events).2
    (∀ frame ∈ taken, frame.2.length = (encode frame.1).length ∧ frame.2.length ≤ limit) ∧
    (∀ long ∈ messages stream, limit < (encode long.1).length →
      ∃ first size, (messages stream).find? (limit < ·.2.length) = some first ∧
        limit < size ∧ size ≤ (encode first.1).length ∧
        (∃ more b', b.Drained more (.error (.frameTooLarge size limit)) b') ∧
        ∀ more answer b', b.Drained more answer b' →
          answer = .error (.frameTooLarge size limit) ∧ long ∉ taken ++ more) ∧
    (b.next.1 = .ok none → b.next.2.pending < limit) ∧
    ∀ e, b.next.1 = .error e →
      (∃ size, e = .frameTooLarge size limit ∧ limit < size) ∧ b.next.2.buffer = b.buffer ∧
        ∀ later, (b.next.2.run later).1 = [] ∧ (b.next.2.run later).2.next.1 = .error e := by
  intro stream taken b
  have kept : (FrameBuffer.new limit).Keeps stream taken b :=
    FrameBuffer.keeps_run (FrameBuffer.consistent_new limit) events
  have limited : b.maxFrameBytes = limit := kept.limit
  have consistent : b.Consistent := kept.consistent
  have bytes : taken.flatMap Prod.snd ++ b.buffer = stream := kept.bytes
  have whole : accepted limit stream = taken ++ accepted limit b.buffer := kept.accepted_eq
  have short : ∀ frame ∈ accepted limit stream, frame.2.length ≤ limit := by
    intro frame hf
    simpa using List.mem_takeWhile_imp hf
  have listed : ∀ frame ∈ taken, frame ∈ messages stream := by
    intro frame hf
    have front := List.mem_append_left (accepted limit b.buffer) hf
    exact (List.takeWhile_prefix _).subset (whole ▸ front)
  refine ⟨?_, ?_, ?_, ?_⟩
  · intro frame hf
    exact ⟨length_of_mem_messages (listed frame hf), kept.within frame hf⟩
  · intro long hl excess
    rw [← length_of_mem_messages hl] at excess
    obtain ⟨first, hf⟩ : ∃ first, (messages stream).find? (limit < ·.2.length) = some first :=
      Option.isSome_iff_exists.mp (List.find?_isSome.mpr ⟨long, hl, decide_eq_true excess⟩)
    have above : limit < first.2.length := by simpa using List.find?_some hf
    obtain ⟨size, refused, more, reached⟩ := exists_overrun (exists_decode_leftover hf) above
    obtain ⟨b', drained, -⟩ := FrameBuffer.exists_drained consistent
    rw [limited, ← leftover_of_append bytes whole, verdict, refused] at drained
    refine ⟨first, size, hf, more, ?_, ⟨_, b', drained⟩, ?_⟩
    · rwa [← length_of_mem_messages (List.mem_of_find?_eq_some hf)]
    · intro more answer b'' other
      obtain ⟨rfl, rfl, -⟩ := drained.unique other
      refine ⟨rfl, fun handed => ?_⟩
      have := short long (whole ▸ handed)
      omega
  · intro none
    rw [← limited]
    exact FrameBuffer.pending_lt consistent none
  · intro e he
    obtain ⟨size, refused, rfl, stays⟩ := FrameBuffer.overrun_of_next_error consistent he
    rw [stays]
    refine ⟨⟨size, by rw [limited], lt_of_overrun (limited ▸ refused)⟩, rfl, ?_⟩
    exact FrameBuffer.run_of_overrun consistent refused

end TreeCluster.Wire
