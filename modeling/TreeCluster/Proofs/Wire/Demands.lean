import TreeCluster.Proofs.Wire.Limit

/-! # What a scan demands of its machine

A scan of a buffer is done again as a computation that records which bytes it reads and which
sums it forms (`Traced`).  It has no other way to read and to add, and it comes to the same as the
scan (`result_tracedScan`).

Every check of the scan stands before the read that needs it, so a read takes one word of the
buffer, and a sum passes the end of the buffer by no more than a length word and the frame that it
announces.  All this needs of the buffer is that a saved walk has stopped inside it
(`within_tracedScan`). -/

namespace TreeCluster.Wire

/-- What is demanded of a machine: the bytes between two offsets, or room for a sum. -/
inductive Demand where
  | slice (start stop : ℕ)
  | sum (value : ℕ)
  deriving DecidableEq

/-- A read takes one word out of `length` bytes, and a sum could be the end of a frame whose length
word stands at the end of these bytes. -/
def Demand.Within (length : ℕ) : Demand → Prop
  | slice start stop => stop = start + lengthWidth ∧ stop ≤ length
  | sum value => value < length + lengthWidth + 2 ^ 32

/-- A computation with what it demanded, in order. -/
structure Traced (α : Type) where
  result : Except CodecError α
  demands : List Demand

namespace Traced

variable {α β : Type}

instance : Monad Traced where
  pure a := ⟨.ok a, []⟩
  bind x f :=
    match x.result with
    | .error e => ⟨.error e, x.demands⟩
    | .ok a => ⟨(f a).result, x.demands ++ (f a).demands⟩

/-- A check demands nothing. -/
instance : MonadLift (Except CodecError) Traced where
  monadLift result := ⟨result, []⟩

/-- A sum, for which there must be room. -/
def add (a b : ℕ) : Traced ℕ :=
  ⟨.ok (a + b), [.sum (a + b)]⟩

/-- The bytes between two offsets, which must lie in `input`. -/
def slice (input : Bytes) (start stop : ℕ) : Traced Bytes :=
  ⟨.ok ((input.drop start).take (stop - start)), [.slice start stop]⟩

/-- The number in the word at `offset`. -/
def readWord (input : Bytes) (offset : ℕ) : Traced ℕ := do
  let stop ← add offset lengthWidth
  let word ← slice input offset stop
  return Word.ofBig word

/-! ### Results -/

@[simp] theorem result_pure (a : α) : (pure a : Traced α).result = pure a := rfl

@[simp] theorem result_lift (result : Except CodecError α) :
    (liftM result : Traced α).result = result := rfl

@[simp] theorem result_add (a b : ℕ) : (add a b).result = pure (a + b) := rfl

@[simp] theorem result_slice (input : Bytes) (start stop : ℕ) :
    (slice input start stop).result = pure ((input.drop start).take (stop - start)) := rfl

@[simp] theorem result_bind (x : Traced α) (f : α → Traced β) :
    (x >>= f).result = x.result >>= fun a => (f a).result := by
  simp only [bind, Except.bind]
  cases x.result with
  | error e => rfl
  | ok a => rfl

@[simp] theorem result_readWord (input : Bytes) (offset : ℕ) :
    (readWord input offset).result = pure (Word.ofBig ((input.drop offset).take lengthWidth)) := by
  simp [readWord]

/-! ### Demands -/

/-- All demands can be met with `length` bytes. -/
def Within (length : ℕ) (x : Traced α) : Prop :=
  ∀ demand ∈ x.demands, demand.Within length

variable {length : ℕ}

theorem within_pure (a : α) : (pure a : Traced α).Within length :=
  List.forall_mem_nil _

theorem within_lift (result : Except CodecError α) :
    (liftM result : Traced α).Within length :=
  List.forall_mem_nil _

theorem within_add {a b : ℕ} (h : a + b < length + lengthWidth + 2 ^ 32) :
    (add a b).Within length :=
  List.forall_mem_singleton.mpr h

/-- What comes second only matters where the first gives it a value. -/
theorem within_bind {x : Traced α} {f : α → Traced β} (first : x.Within length)
    (second : ∀ a, x.result = .ok a → (f a).Within length) : (x >>= f).Within length := by
  cases hx : x.result with
  | error e =>
      have stops : (x >>= f).demands = x.demands := by simp only [bind, hx]
      rw [Within, stops]
      exact first
  | ok a =>
      have goes : (x >>= f).demands = x.demands ++ (f a).demands := by simp only [bind, hx]
      rw [Within, goes]
      exact List.forall_mem_append.mpr ⟨first, second a hx⟩

theorem within_readWord {input : Bytes} {offset : ℕ} (h : offset + lengthWidth ≤ input.length) :
    (readWord input offset).Within input.length := by
  refine within_bind (within_add (by omega)) ?_
  rintro stop ⟨⟩
  exact within_bind (List.forall_mem_singleton.mpr ⟨rfl, h⟩) fun word _ => within_pure _

end Traced

namespace FrameBuffer

open Traced

/-- The walk over the frames from `offset` on. -/
def tracedWalk (limit : ℕ) (input : Bytes) (offset : ℕ) : ℕ → Traced Scan
  | 0 => return ⟨0, offset⟩
  | framesLeft + 1 => do
    let body ← add offset lengthWidth
    checkLimit limit body
    if input.length < body then return ⟨framesLeft + 1, offset⟩
    else
      let stop ← add body (← readWord input offset)
      checkLimit limit stop
      if input.length < stop then return ⟨framesLeft + 1, offset⟩
      else tracedWalk limit input stop framesLeft

/-- Where the walk starts. -/
def tracedStart (b : FrameBuffer) : Traced (Option Scan) :=
  match b.scan with
  | some scan => return some scan
  | none => do
    let preamble ← add headerLength lengthWidth
    checkLimit b.maxFrameBytes preamble
    if b.pending < preamble then return none
    else
      let count ← readWord b.buffer headerLength
      return some ⟨count, preamble⟩

/-- The scan with all that it demands. -/
def tracedScan (b : FrameBuffer) : Traced (Option Scan) := do
  match ← b.tracedStart with
  | none => return none
  | some start =>
    let reached ← tracedWalk b.maxFrameBytes b.buffer start.offset start.framesLeft
    return some reached

/-! ### It is the scan -/

theorem result_tracedWalk (limit : ℕ) (input : Bytes) (count offset : ℕ) :
    (tracedWalk limit input offset count).result =
      walk limit input.length offset (input.drop offset) count := by
  induction count generalizing offset with
  | zero => rfl
  | succ count ih =>
      simp only [tracedWalk, walk, result_bind, result_add, result_lift, result_readWord, pure_bind,
        apply_ite Traced.result, result_pure, ih, List.drop_drop, Nat.add_assoc]

theorem result_tracedStart (b : FrameBuffer) : b.tracedStart.result = b.startScan := by
  rw [tracedStart, startScan]
  cases b.scan with
  | some scan => rfl
  | none =>
      simp only [result_bind, result_add, result_lift, result_readWord, pure_bind,
        apply_ite Traced.result, result_pure]
      rfl

theorem result_tracedScan (b : FrameBuffer) : b.tracedScan.result = b.scanFront := by
  rw [tracedScan, scanFront, result_bind, result_tracedStart]
  refine bind_congr fun start => ?_
  cases start with
  | none => rfl
  | some start => simp [result_tracedWalk, pending]

/-! ### Demands that can be met -/

theorem within_tracedWalk (limit : ℕ) {input : Bytes} (count : ℕ) {offset : ℕ}
    (h : offset ≤ input.length) : (tracedWalk limit input offset count).Within input.length := by
  -- the walk goes on only where the frame has arrived, so the offset stays inside the buffer
  induction count generalizing offset with
  | zero => exact within_pure _
  | succ count ih =>
      rw [tracedWalk]
      refine within_bind (within_add (by omega)) ?_
      rintro body ⟨⟩
      refine within_bind (within_lift _) fun _ _ => ?_
      by_cases arrived : input.length < offset + lengthWidth
      · rw [if_pos arrived]
        exact within_pure _
      · rw [if_neg arrived]
        refine within_bind (within_readWord (Nat.not_lt.mp arrived)) ?_
        intro length read
        have short : length < 2 ^ 32 := by
          rw [result_readWord] at read
          obtain rfl := Except.ok.inj read
          exact ofBig_take_lt _
        refine within_bind (within_add (by omega)) ?_
        rintro stop ⟨⟩
        refine within_bind (within_lift _) fun _ _ => ?_
        by_cases complete : input.length < offset + lengthWidth + length
        · rw [if_pos complete]
          exact within_pure _
        · rw [if_neg complete]
          exact ih (Nat.not_lt.mp complete)

theorem within_tracedStart (b : FrameBuffer) : b.tracedStart.Within b.pending := by
  rw [tracedStart]
  cases b.scan with
  | some scan => exact within_pure _
  | none =>
      have small : headerLength < 2 ^ 32 := by decide
      refine within_bind (within_add (by omega)) ?_
      rintro preamble ⟨⟩
      refine within_bind (within_lift _) fun _ _ => ?_
      by_cases arrived : b.pending < headerLength + lengthWidth
      · rw [if_pos arrived]
        exact within_pure _
      · rw [if_neg arrived]
        exact within_bind (within_readWord (Nat.not_lt.mp arrived)) fun count _ => within_pure _

theorem offset_le_of_startScan {b : FrameBuffer} {start : Scan}
    (saved : ∀ scan, b.scan = some scan → scan.offset ≤ b.pending)
    (h : b.startScan = .ok (some start)) : start.offset ≤ b.pending := by
  rw [startScan] at h
  cases hs : b.scan with
  | some scan =>
      rw [hs] at h
      obtain rfl := Option.some.inj (Except.ok.inj h)
      exact saved _ hs
  | none =>
      rw [hs] at h
      by_cases small : b.maxFrameBytes < preambleLength
      · rw [checkLimit_of_lt small] at h
        cases h
      · rw [checkLimit_of_le (Nat.not_lt.mp small)] at h
        by_cases arrived : b.pending < preambleLength
        · simp [arrived, bind, Except.bind, pure, Except.pure] at h
        · simp only [arrived, if_false, bind, Except.bind, pure, Except.pure] at h
          obtain rfl := Option.some.inj (Except.ok.inj h)
          exact Nat.not_lt.mp arrived

/-- A scan that goes on inside the buffer reads words of the buffer, and its sums are at most the
end of a frame whose length word ends the buffer. -/
theorem within_tracedScan {b : FrameBuffer}
    (saved : ∀ scan, b.scan = some scan → scan.offset ≤ b.pending) :
    b.tracedScan.Within b.pending := by
  refine within_bind b.within_tracedStart fun start hs => ?_
  rw [result_tracedStart] at hs
  cases start with
  | none => exact within_pure _
  | some start =>
      have inside := offset_le_of_startScan saved hs
      exact within_bind (within_tracedWalk _ _ inside) fun reached _ => within_pure _

end FrameBuffer
end TreeCluster.Wire
