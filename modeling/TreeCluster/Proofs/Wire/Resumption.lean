import TreeCluster.Proofs.Wire.Demands
import TreeCluster.Proofs.Wire.Reassembly

/-! # Walks that are taken up again

What a walk over the frames has passed are the first frames of the message, as the decoder finds
them, and it has stopped at their end (`exists_frameExtents_reached`).  More bytes at the back leave
these frames where they are (`Scan.Passed.append`), so a walk that was saved over the front of a
buffer is one over all of it (`FrameBuffer.Consistent.passed`), as long as only `next` takes bytes
off the front, which then saves no walk (`FrameBuffer.next_scan_cases`).

`run_resumable` puts this together with what a scan demands: a saved walk is the beginning of the
walk from the front, and no scan reads outside the buffer or forms a sum that a word of 64 bits
does not hold. -/

namespace TreeCluster.Wire

/-- A walk over the message at the front of `buffer` that has passed its first frames, perhaps none
yet, but not all. -/
structure Scan.Passed (scan : Scan) (limit : ℕ) (buffer : Bytes) : Prop where
  started : preambleLength ≤ scan.offset
  arrived : scan.offset ≤ buffer.length
  within : scan.offset ≤ limit
  unfinished : 0 < scan.framesLeft
  declared : scan.framesLeft ≤ (readPreamble buffer).2
  /-- The frames passed lie one behind the other, up to the offset. -/
  walked : ∃ extents,
    frameExtents buffer preambleLength ((readPreamble buffer).2 - scan.framesLeft) =
      .ok (extents, scan.offset)

/-! ### Frames that were passed -/

theorem frameExtents_append {input : Bytes} {offset count : ℕ} {r : List (ℕ × ℕ) × ℕ}
    (h : frameExtents input offset count = .ok r) (more : Bytes) :
    frameExtents (input ++ more) offset count = .ok r := by
  induction count generalizing offset r with
  | zero => exact h
  | succ count ih =>
      have length : (input ++ more).length = input.length + more.length := List.length_append
      rw [frameExtents_succ] at h
      split_ifs at h with body stop
      rw [frameExtents_succ, frameStop_append (Nat.not_lt.mp body), if_neg (by omega),
        if_neg (by omega)]
      cases hr : frameExtents input (frameStop input offset) count with
      | error e => rw [hr] at h; cases h
      | ok others => rw [ih hr, ← h, hr]

theorem Scan.Passed.append {scan : Scan} {limit : ℕ} {buffer : Bytes}
    (h : scan.Passed limit buffer) (more : Bytes) : scan.Passed limit (buffer ++ more) := by
  have preamble := readPreamble_append (h.started.trans h.arrived) more
  obtain ⟨extents, walked⟩ := h.walked
  refine ⟨h.started, h.arrived.trans (List.prefix_append _ _).length_le, h.within, h.unfinished,
    ?_, extents, ?_⟩
  · rw [preamble]
    exact h.declared
  · rw [preamble]
    exact frameExtents_append walked more

theorem exists_frameExtents_reached {input : Bytes} {offset : ℕ} (h : offset ≤ input.length)
    (count : ℕ) :
    (reached input offset count).framesLeft ≤ count ∧
      offset ≤ (reached input offset count).offset ∧
      (reached input offset count).offset ≤ input.length ∧
      ∃ extents, frameExtents input offset (count - (reached input offset count).framesLeft) =
        .ok (extents, (reached input offset count).offset) := by
  induction count generalizing offset with
  | zero => exact ⟨le_rfl, le_rfl, h, [], rfl⟩
  | succ count ih =>
      by_cases stops : input.length < offset + lengthWidth ∨ input.length < frameStop input offset
      · rw [reached, if_pos stops]
        refine ⟨le_rfl, le_rfl, h, [], ?_⟩
        rw [Nat.sub_self]
        rfl
      · have body : offset + lengthWidth ≤ frameStop input offset := Nat.le_add_right _ _
        have passed : frameStop input offset ≤ input.length := by omega
        rw [reached, if_neg stops]
        obtain ⟨left, mono, inside, extents, others⟩ := ih passed
        refine ⟨by omega, by omega, inside,
          (offset + lengthWidth, frameStop input offset) :: extents, ?_⟩
        rw [Nat.succ_sub left, frameExtents_succ, if_neg (by omega), if_neg (by omega), others]
        rfl

theorem reached_offset_le {limit : ℕ} {input : Bytes} {offset count : ℕ} (h : offset ≤ limit)
    (clear : ∀ size ∈ frameBounds input offset count, size ≤ limit) :
    (reached input offset count).offset ≤ limit := by
  induction count generalizing offset with
  | zero => exact h
  | succ count ih =>
      by_cases stops : input.length < offset + lengthWidth ∨ input.length < frameStop input offset
      · rw [reached, if_pos stops]
        exact h
      · rw [frameBounds, if_neg (by omega), if_neg (by omega), List.forall_mem_cons,
          List.forall_mem_cons] at clear
        rw [reached, if_neg stops]
        exact ih clear.2.1 clear.2.2

theorem passed_reachedFront {limit : ℕ} {input : Bytes} (arrived : preambleLength ≤ input.length)
    (clear : overrun limit input = none) (unfinished : 0 < (reachedFront input).framesLeft) :
    (reachedFront input).Passed limit input := by
  obtain ⟨declared, started, inside, walked⟩ :=
    exists_frameExtents_reached arrived (readPreamble input).2
  rw [overrun_eq_none, bounds, if_neg (Nat.not_lt.mpr arrived), List.forall_mem_cons] at clear
  exact ⟨started, inside, reached_offset_le clear.1 clear.2, unfinished, declared, walked⟩

namespace FrameBuffer

variable {b : FrameBuffer}

/-! ### The saved walk -/

/-- What becomes of the saved walk: it stays with the whole buffer, it goes with the message at the
front, or another one is saved that has not come to the end. -/
theorem next_scan_cases (b : FrameBuffer) :
    (b.next.2 = b ∧ ∀ frame, b.next.1 ≠ .ok (some frame)) ∨ b.next.2.scan = none ∨
      ∃ scan, b.next = (.ok none, { b with scan := some scan }) ∧ 0 < scan.framesLeft := by
  rw [next]
  cases b.scanFront with
  | error e => exact .inl ⟨rfl, fun frame => by simp⟩
  | ok found =>
      cases found with
      | none => exact .inl ⟨rfl, fun frame => by simp⟩
      | some scan =>
          obtain ⟨framesLeft, total⟩ := scan
          cases framesLeft with
          | succ framesLeft => exact .inr (.inr ⟨_, rfl, Nat.succ_pos framesLeft⟩)
          | zero =>
              -- the bytes are gone with the walk, whatever they are decoded to
              right; left
              cases hd : decodeShared (b.buffer.take total) with
              | error e => simp [hd]
              | ok r => simp [hd]

theorem scan_of_next {frame : Message × Bytes} (h : b.next.1 = .ok (some frame)) :
    b.next.2.scan = none := by
  rcases b.next_scan_cases with ⟨-, silent⟩ | gone | ⟨scan, saved, -⟩
  · exact absurd h (silent frame)
  · exact gone
  · rw [saved] at h
    cases h

theorem run_induction {P : FrameBuffer → Prop} (extend : ∀ b chunk, P b → P (b.extend chunk))
    (next : ∀ b, P b → P b.next.2) (h : P b) (events : List Event) : P (b.run events).2 := by
  induction events generalizing b with
  | nil => exact h
  | cons event rest ih =>
      cases event with
      | arrive chunk => exact ih (extend b chunk h)
      | ask =>
          have asked : (b.run (.ask :: rest)).2 = (b.next.2.run rest).2 := by
            rw [run]
            split
            · next hn => rw [hn]
            · next hn => rw [hn]
          rw [asked]
          exact ih (next b h)

theorem unfinished_run (h : ∀ scan, b.scan = some scan → 0 < scan.framesLeft)
    (events : List Event) :
    ∀ scan, (b.run events).2.scan = some scan → 0 < scan.framesLeft := by
  refine run_induction (P := fun b => ∀ scan, b.scan = some scan → 0 < scan.framesLeft)
    (fun _ _ h => h) (fun b h scan hs => ?_) h events
  rcases b.next_scan_cases with ⟨stays, -⟩ | gone | ⟨scan', saved, left⟩
  · exact h scan (stays ▸ hs)
  · rw [gone] at hs
    cases hs
  · rw [saved] at hs
    obtain rfl := Option.some.inj hs
    exact left

theorem Consistent.passed (h : b.Consistent) {scan : Scan} (saved : b.scan = some scan)
    (unfinished : 0 < scan.framesLeft) : scan.Passed b.maxFrameBytes b.buffer := by
  -- the walk was saved when only `seen` had arrived
  obtain ⟨seen, ⟨more, hb⟩, arrived, clear, rfl⟩ := h scan saved
  rw [← hb]
  exact (passed_reachedFront arrived clear unfinished).append more

/-- A walk that is taken up comes to what one from the front comes to. -/
theorem Consistent.scanFront_fresh (h : b.Consistent) :
    b.scanFront = { b with scan := none }.scanFront := by
  have fresh : { b with scan := none }.Consistent := by
    intro scan hs
    cases hs
  rw [scanFront_eq h, scanFront_eq fresh]
  rfl

end FrameBuffer

/-- **A saved walk is the beginning of a fresh one.**  Whatever bytes arrive and whenever messages
are asked for:

* a saved walk has passed the first frames of the message at the front, but not all that the
  preamble declares; they lie where the decoder finds them, and it has stopped at their end, inside
  the buffer and within the limit;
* the scan that goes on from it comes to what a scan from the front comes to;
* after a message has been handed out, no walk is saved;
* a scan reads nothing but words inside the buffer, and no sum that it forms passes `2 ^ 64 - 1`
  as long as at most `2 ^ 63 - 1` bytes are buffered. -/
theorem run_resumable (limit : ℕ) (events : List FrameBuffer.Event) :
    let b := ((FrameBuffer.new limit).run events).2
    (∀ scan, b.scan = some scan → scan.Passed limit b.buffer) ∧
    b.scanFront = { b with scan := none }.scanFront ∧
    (∀ frame, b.next.1 = .ok (some frame) → b.next.2.scan = none) ∧
    b.tracedScan.result = b.scanFront ∧
    (∀ start stop, .slice start stop ∈ b.tracedScan.demands →
      stop = start + lengthWidth ∧ stop ≤ b.pending) ∧
    (b.pending ≤ 2 ^ 63 - 1 → ∀ value, .sum value ∈ b.tracedScan.demands → value ≤ 2 ^ 64 - 1) := by
  intro b
  have kept : (FrameBuffer.new limit).Keeps (FrameBuffer.received events) _ b :=
    FrameBuffer.keeps_run (FrameBuffer.consistent_new limit) events
  have passed : ∀ scan, b.scan = some scan → scan.Passed limit b.buffer := by
    intro scan saved
    have unfinished : 0 < scan.framesLeft :=
      FrameBuffer.unfinished_run (by rintro _ ⟨⟩) events scan saved
    have limited : b.maxFrameBytes = limit := kept.limit
    exact limited ▸ kept.consistent.passed saved unfinished
  have demands : b.tracedScan.Within b.pending :=
    FrameBuffer.within_tracedScan fun scan saved => (passed scan saved).arrived
  refine ⟨passed, kept.consistent.scanFront_fresh, fun _ => FrameBuffer.scan_of_next,
    b.result_tracedScan, fun start stop read => demands _ read, fun small value formed => ?_⟩
  have bound : value < b.pending + lengthWidth + 2 ^ 32 := demands _ formed
  simp only [lengthWidth] at bound
  omega

/-- Of a message with two frames the first has arrived when a message is asked for; with four more
bytes the second one, which is empty, is complete. -/
theorem run_resumable_of_second_frame :
    let b := ((FrameBuffer.new 23).run
      [.arrive [8, 2, 0, 0, 0, 0, 0, 0, 0, 5, 0, 0, 0, 2, 0, 0, 0, 1, 7], .ask,
        .arrive [0, 0, 0, 0]]).2
    (b.scan = some ⟨1, 19⟩ ∧ Scan.Passed ⟨1, 19⟩ 23 b.buffer) ∧
    (∃ frame, b.next.1 = .ok (some frame) ∧ b.next.2.scan = none) ∧
    (.slice 19 23 ∈ b.tracedScan.demands ∧ 23 = 19 + lengthWidth ∧ 23 ≤ b.pending) ∧
    b.pending ≤ 2 ^ 63 - 1 ∧ .sum 23 ∈ b.tracedScan.demands ∧ 23 ≤ 2 ^ 64 - 1 := by
  intro b
  obtain ⟨passed, -, handed, -, reads, sums⟩ := run_resumable 23
    [.arrive [8, 2, 0, 0, 0, 0, 0, 0, 0, 5, 0, 0, 0, 2, 0, 0, 0, 1, 7], .ask, .arrive [0, 0, 0, 0]]
  have saved : b.scan = some ⟨1, 19⟩ := by decide
  have whole : b.next.1 = .ok (some
      (⟨.heartbeat, .ask, 5, [[7], []], 0⟩,
        [8, 2, 0, 0, 0, 0, 0, 0, 0, 5, 0, 0, 0, 2, 0, 0, 0, 1, 7, 0, 0, 0, 0])) := by decide
  have read : .slice 19 23 ∈ b.tracedScan.demands := by decide
  have formed : .sum 23 ∈ b.tracedScan.demands := by decide
  have small : b.pending ≤ 2 ^ 63 - 1 := by decide
  exact ⟨⟨saved, passed _ saved⟩, ⟨_, whole, handed _ whole⟩, ⟨read, reads _ _ read⟩, small, formed,
    sums small _ formed⟩

end TreeCluster.Wire
