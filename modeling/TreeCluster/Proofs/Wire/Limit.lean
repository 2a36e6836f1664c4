import TreeCluster.Proofs.Wire.Decoding
import TreeCluster.Wire.FrameBuffer

/-! # When a message is refused

While a message arrives, its preamble and the length of each frame raise the number of bytes
that it is known to take (`bounds`).  The first of these numbers above the limit is what the
message is refused for (`overrun`).  A complete message is refused exactly if it is longer than
the limit (`overrun_eq_none_iff`).

The walk over the frames stops at the first such number, and otherwise gets as far as the frames
have arrived (`walk_eq`).  A walk that is taken up where another one stopped, when more bytes
have arrived, ends as if it had started at the front (`reached_resume`,
`frameBounds_resume`). -/

namespace TreeCluster.Wire

/-- The end of the frame at `offset`, by its length. -/
def frameStop (input : Bytes) (offset : ℕ) : ℕ :=
  offset + lengthWidth + Word.ofBig ((input.drop offset).take lengthWidth)

/-- The numbers of bytes that the next `count` frames, from `offset` on, are known to reach. -/
def frameBounds (input : Bytes) (offset : ℕ) : ℕ → List ℕ
  | 0 => []
  | count + 1 =>
    (offset + lengthWidth) ::
      if input.length < offset + lengthWidth then []
      else
        frameStop input offset ::
          if input.length < frameStop input offset then []
          else frameBounds input (frameStop input offset) count

/-- The numbers of bytes that the message at the front is known to take, one after the other. -/
def bounds (input : Bytes) : List ℕ :=
  preambleLength ::
    if input.length < preambleLength then []
    else frameBounds input preambleLength (readPreamble input).2

/-- The size for which the message at the front is refused. -/
def overrun (limit : ℕ) (input : Bytes) : Option ℕ :=
  (bounds input).find? (limit < ·)

/-- How far the frames from `offset` on have arrived. -/
def reached (input : Bytes) (offset : ℕ) : ℕ → Scan
  | 0 => ⟨0, offset⟩
  | count + 1 =>
    if input.length < offset + lengthWidth ∨ input.length < frameStop input offset then
      ⟨count + 1, offset⟩
    else reached input (frameStop input offset) count

/-! ### The walk -/

theorem checkLimit_of_le {limit size : ℕ} (h : size ≤ limit) :
    FrameBuffer.checkLimit limit size = .ok () :=
  if_neg (Nat.not_lt.mpr h)

theorem checkLimit_of_lt {limit size : ℕ} (h : limit < size) :
    FrameBuffer.checkLimit limit size = .error (.frameTooLarge size limit) :=
  if_pos h

/-- The walk stops at the first bound above the limit, or else where the frames end that have
arrived. -/
theorem walk_eq (limit : ℕ) (input : Bytes) (count offset : ℕ) :
    FrameBuffer.walk limit input.length offset (input.drop offset) count =
      match (frameBounds input offset count).find? (limit < ·) with
      | some size => .error (.frameTooLarge size limit)
      | none => .ok (reached input offset count) := by
  induction count generalizing offset with
  | zero => rfl
  | succ count ih =>
      have stop : offset + lengthWidth + Word.ofBig ((input.drop offset).take lengthWidth) =
        frameStop input offset := rfl
      have rest : (input.drop offset).drop
          (lengthWidth + Word.ofBig ((input.drop offset).take lengthWidth)) =
        input.drop (frameStop input offset) := by
        rw [List.drop_drop, ← stop, Nat.add_assoc]
      simp only [FrameBuffer.walk, stop, rest, frameBounds, reached]
      by_cases h₁ : limit < offset + lengthWidth
      · simp [checkLimit_of_lt h₁, h₁, bind, Except.bind]
      · rw [checkLimit_of_le (Nat.not_lt.mp h₁)]
        by_cases h₂ : input.length < offset + lengthWidth
        · simp [h₁, h₂, bind, Except.bind, pure, Except.pure]
        · by_cases h₃ : limit < frameStop input offset
          · simp [checkLimit_of_lt h₃, h₁, h₂, h₃, bind, Except.bind]
          · rw [checkLimit_of_le (Nat.not_lt.mp h₃)]
            by_cases h₄ : input.length < frameStop input offset
            · simp [h₁, h₂, h₃, h₄, bind, Except.bind, pure, Except.pure]
            · simp [h₁, h₂, h₃, h₄, bind, Except.bind, ih]

/-! ### Complete messages -/

/-- How far the frames of the message at the front have arrived. -/
def reachedFront (input : Bytes) : Scan :=
  reached input preambleLength (readPreamble input).2

theorem frameExtents_succ (input : Bytes) (offset count : ℕ) :
    frameExtents input offset (count + 1) =
      if input.length < offset + lengthWidth then
        .error (.incomplete (offset + lengthWidth) input.length)
      else if input.length < frameStop input offset then
        .error (.incomplete (frameStop input offset) input.length)
      else
        (frameExtents input (frameStop input offset) count).map fun (extents, last) =>
          ((offset + lengthWidth, frameStop input offset) :: extents, last) := rfl

/-- When all frames have arrived, the walk passes all of them, and no bound is above the limit
exactly if they do not end above it. -/
theorem reached_of_frameExtents (limit : ℕ) {input : Bytes} {count offset : ℕ}
    {extents : List (ℕ × ℕ)} {stop : ℕ}
    (h : frameExtents input offset count = .ok (extents, stop)) :
    reached input offset count = ⟨0, stop⟩ ∧ offset ≤ stop ∧
      (offset ≤ limit →
        ((∀ size ∈ frameBounds input offset count, size ≤ limit) ↔ stop ≤ limit)) := by
  induction count generalizing offset extents stop with
  | zero =>
      obtain ⟨-, rfl⟩ := Prod.mk.inj (Except.ok.inj h)
      exact ⟨rfl, le_rfl, fun hl => by simpa [frameBounds] using hl⟩
  | succ count ih =>
      rw [frameExtents_succ] at h
      split_ifs at h with h₁ h₂
      obtain ⟨rest, -, hr⟩ := map_cons_eq_ok_iff.mp h
      obtain ⟨passed, mono, bound⟩ := ih hr
      have body : offset + lengthWidth ≤ frameStop input offset := Nat.le_add_right _ _
      refine ⟨?_, by omega, fun _ => ?_⟩
      · rw [reached, if_neg (by omega), passed]
      · rw [frameBounds, if_neg h₁, if_neg h₂, List.forall_mem_cons, List.forall_mem_cons]
        constructor
        · rintro ⟨-, hs, others⟩
          exact (bound hs).mp others
        · intro hs
          exact ⟨by omega, by omega, (bound (by omega)).mpr hs⟩

theorem framesLeft_of_frameExtents {input : Bytes} {count offset : ℕ} {e : CodecError}
    (h : frameExtents input offset count = .error e) :
    (reached input offset count).framesLeft ≠ 0 := by
  induction count generalizing offset with
  | zero => cases h
  | succ count ih =>
      rw [frameExtents_succ] at h
      split_ifs at h with h₁ h₂
      · rw [reached, if_pos (Or.inl h₁)]
        exact Nat.succ_ne_zero count
      · rw [reached, if_pos (Or.inr h₂)]
        exact Nat.succ_ne_zero count
      · rw [reached, if_neg (by omega)]
        apply ih
        cases hr : frameExtents input (frameStop input offset) count with
        | error e' => rw [hr] at h; exact h
        | ok r => rw [hr] at h; cases h

theorem decode_eq_frameExtents {input : Bytes} (h : preambleLength ≤ input.length) :
    ∃ message : List (ℕ × ℕ) → Message,
      decode input = (frameExtents input preambleLength (readPreamble input).2).map
        fun r => (message r.1, r.2) := by
  refine ⟨fun extents => { (readPreamble input).1 with
    contents := extents.map fun e => (input.drop e.1).take (e.2 - e.1) }, ?_⟩
  rw [← decodeShared_eq, decodeShared, if_neg (Nat.not_lt.mpr h)]

theorem exists_frameExtents {input : Bytes} {m : Message} {taken : ℕ}
    (h : decode input = .ok (m, taken)) :
    preambleLength ≤ input.length ∧
      ∃ extents,
        frameExtents input preambleLength (readPreamble input).2 = .ok (extents, taken) := by
  have arrived := ((decode_eq_ok_iff _ _ _).mp h).1
  refine ⟨arrived, ?_⟩
  obtain ⟨message, hd⟩ := decode_eq_frameExtents arrived
  rw [hd] at h
  cases he : frameExtents input preambleLength (readPreamble input).2 with
  | error e => rw [he] at h; cases h
  | ok r =>
      rw [he] at h
      obtain ⟨-, rfl⟩ := Prod.mk.inj (Except.ok.inj h)
      exact ⟨r.1, rfl⟩

theorem reachedFront_of_ok {input : Bytes} {m : Message} {taken : ℕ}
    (h : decode input = .ok (m, taken)) : reachedFront input = ⟨0, taken⟩ := by
  obtain ⟨-, extents, he⟩ := exists_frameExtents h
  exact (reached_of_frameExtents 0 he).1

theorem framesLeft_of_error {input : Bytes} {e : CodecError}
    (arrived : preambleLength ≤ input.length) (h : decode input = .error e) :
    (reachedFront input).framesLeft ≠ 0 := by
  obtain ⟨message, hd⟩ := decode_eq_frameExtents arrived
  rw [hd] at h
  cases he : frameExtents input preambleLength (readPreamble input).2 with
  | error e' => exact framesLeft_of_frameExtents he
  | ok r => rw [he] at h; cases h

theorem overrun_eq_none {limit : ℕ} {input : Bytes} :
    overrun limit input = none ↔ ∀ size ∈ bounds input, size ≤ limit := by
  simp [overrun, List.find?_eq_none]

theorem overrun_of_lt {limit : ℕ} (h : limit < preambleLength) (input : Bytes) :
    overrun limit input = some preambleLength :=
  List.find?_cons_of_pos (by simpa using h)

theorem overrun_of_not_arrived {limit : ℕ} {input : Bytes} (h : preambleLength ≤ limit)
    (short : input.length < preambleLength) : overrun limit input = none := by
  rw [overrun_eq_none, bounds, if_pos short]
  simpa using h

theorem overrun_of_arrived {limit : ℕ} {input : Bytes} (h : preambleLength ≤ limit)
    (arrived : preambleLength ≤ input.length) :
    overrun limit input =
      (frameBounds input preambleLength (readPreamble input).2).find? (limit < ·) := by
  rw [overrun, bounds, if_neg (Nat.not_lt.mpr arrived), List.find?_cons_of_neg (by simpa using h)]

/-- A complete message is refused exactly if it is longer than the limit. -/
theorem overrun_eq_none_iff {input : Bytes} {m : Message} {taken : ℕ}
    (h : decode input = .ok (m, taken)) (limit : ℕ) :
    overrun limit input = none ↔ taken ≤ limit := by
  obtain ⟨arrived, extents, he⟩ := exists_frameExtents h
  obtain ⟨-, mono, bound⟩ := reached_of_frameExtents limit he
  rw [overrun_eq_none, bounds, if_neg (Nat.not_lt.mpr arrived), List.forall_mem_cons]
  constructor
  · rintro ⟨hp, others⟩
    exact (bound hp).mp others
  · intro ht
    exact ⟨by omega, (bound (by omega)).mpr ht⟩

/-! ### Walks taken up again -/

theorem frameStop_append {input : Bytes} {offset : ℕ} (h : offset + lengthWidth ≤ input.length)
    (more : Bytes) : frameStop (input ++ more) offset = frameStop input offset := by
  rw [frameStop, frameStop, List.drop_append_of_le_length (by omega),
    List.take_append_of_le_length (by rw [List.length_drop]; omega)]

/-- Where more bytes let a walk get, it gets from where it had stopped. -/
theorem reached_resume (input more : Bytes) (offset count : ℕ) :
    reached (input ++ more) (reached input offset count).offset
        (reached input offset count).framesLeft =
      reached (input ++ more) offset count := by
  induction count generalizing offset with
  | zero => rfl
  | succ count ih =>
      by_cases h : input.length < offset + lengthWidth ∨ input.length < frameStop input offset
      · rw [reached, if_pos h]
      · have stop : frameStop (input ++ more) offset = frameStop input offset :=
          frameStop_append (by omega) more
        have length : (input ++ more).length = input.length + more.length := List.length_append
        have h' : ¬((input ++ more).length < offset + lengthWidth ∨
            (input ++ more).length < frameStop (input ++ more) offset) := by omega
        rw [reached, if_neg h, ih]
        conv_rhs => rw [reached, if_neg h', stop]

/-- The bounds behind the point where a walk had stopped are the ones that are new. -/
theorem frameBounds_resume {limit : ℕ} {input : Bytes} {offset count : ℕ}
    (h : ∀ size ∈ frameBounds input offset count, size ≤ limit) (more : Bytes) :
    (frameBounds (input ++ more) (reached input offset count).offset
        (reached input offset count).framesLeft).find? (limit < ·) =
      (frameBounds (input ++ more) offset count).find? (limit < ·) := by
  induction count generalizing offset with
  | zero => rfl
  | succ count ih =>
      by_cases arrived : input.length < offset + lengthWidth ∨ input.length < frameStop input offset
      · rw [reached, if_pos arrived]
      · have stop : frameStop (input ++ more) offset = frameStop input offset :=
          frameStop_append (by omega) more
        have length : (input ++ more).length = input.length + more.length := List.length_append
        rw [frameBounds, if_neg (by omega), if_neg (by omega), List.forall_mem_cons,
          List.forall_mem_cons] at h
        obtain ⟨hb, hs, others⟩ := h
        rw [reached, if_neg arrived, ih others]
        conv_rhs => rw [frameBounds, if_neg (by omega), stop, if_neg (by omega)]
        rw [List.find?_cons_of_neg (by simpa using hb), List.find?_cons_of_neg (by simpa using hs)]

end TreeCluster.Wire
