import TreeCluster.Proofs.Wire.Bounded

/-! # When the decoder asks for more bytes

The decoder fails in one way only: the bytes end before the message at the front does.  It then
asks for the first number of bytes that the message is known to take and that has not arrived
(`overrun_of_decode_error`).

With fewer bytes than it asks for it asks for the same number again (`decode_append_of_lt`), since
what is known of a message stays known.  It never asks in vain: whatever lengths the bytes
announce, the frames can be filled up, so every byte string is the front of one that is decoded
(`exists_decode_append`).  `decode_or_incomplete` puts this together. -/

namespace TreeCluster.Wire

theorem decode_cases (input : Bytes) :
    (∃ m taken, decode input = .ok (m, taken) ∧ taken ≤ input.length) ∨
      ∃ needed, decode input = .error (.incomplete needed input.length) ∧
        input.length < needed := by
  cases hd : decode input with
  | ok r => exact Or.inl ⟨r.1, r.2, rfl, (decode_bounds hd).2⟩
  | error e =>
      obtain ⟨needed, first, rfl⟩ := overrun_of_decode_error hd
      exact Or.inr ⟨needed, rfl, lt_of_overrun first⟩

/-! ### Fewer bytes than it takes -/

theorem decode_of_prefix {input front : Bytes} {m : Message} {taken : ℕ}
    (h : decode input = .ok (m, taken)) (cut : front <+: input) (short : front.length < taken) :
    ∃ needed, decode front = .error (.incomplete needed front.length) ∧
      front.length < needed := by
  rcases decode_cases front with ⟨m', taken', hd, inside⟩ | asks
  · obtain ⟨more, rfl⟩ := cut
    obtain ⟨-, rfl⟩ := Prod.mk.inj (Except.ok.inj ((decode_append hd more).symm.trans h))
    omega
  · exact asks

/-- The size for which a message is refused is the same under every limit from the one under which
it was refused up to that size. -/
theorem overrun_of_le {limit limit' size : ℕ} {input : Bytes}
    (h : overrun limit input = some size) (le : limit ≤ limit') (lt : limit' < size) :
    overrun limit' input = some size := by
  obtain ⟨-, before, after, split, passed⟩ := List.find?_eq_some_iff_append.mp h
  refine List.find?_eq_some_iff_append.mpr ⟨by simpa using lt, before, after, split, ?_⟩
  intro bound hb
  have small : bound ≤ limit := by simpa using passed bound hb
  simpa using small.trans le

theorem decode_append_of_lt {input more : Bytes} {needed available : ℕ}
    (h : decode input = .error (.incomplete needed available))
    (few : (input ++ more).length < needed) :
    decode (input ++ more) = .error (.incomplete needed (input ++ more).length) := by
  obtain ⟨_, first, same⟩ := overrun_of_decode_error h
  obtain ⟨rfl, -⟩ := CodecError.incomplete.inj same
  have again : overrun (input ++ more).length (input ++ more) = some needed :=
    overrun_append (overrun_of_le first (List.prefix_append _ _).length_le few) more
  cases hd : decode (input ++ more) with
  | ok r =>
      have fits := (overrun_eq_none_iff hd (input ++ more).length).mpr (decode_bounds hd).2
      rw [again] at fits
      cases fits
  | error e =>
      obtain ⟨needed', first', rfl⟩ := overrun_of_decode_error hd
      rw [Option.some.inj (first'.symm.trans again)]

/-! ### Messages that can be completed -/

theorem exists_frameStop_le {input : Bytes} {offset : ℕ} (h : offset ≤ input.length) :
    ∃ more, offset + lengthWidth ≤ (input ++ more).length ∧
      frameStop (input ++ more) offset ≤ (input ++ more).length := by
  set begun := input ++ List.replicate lengthWidth 0 with hb
  have body : offset + lengthWidth ≤ begun.length := by
    rw [hb, List.length_append, List.length_replicate]
    omega
  refine ⟨List.replicate lengthWidth 0 ++ List.replicate (frameStop begun offset) 0, ?_⟩
  rw [← List.append_assoc, ← hb, frameStop_append body, List.length_append, List.length_replicate]
  omega

/-- Frames can be filled up, whatever lengths they announce. -/
theorem exists_frameExtents_append {input : Bytes} {offset : ℕ} (h : offset ≤ input.length)
    (count : ℕ) : ∃ more r, frameExtents (input ++ more) offset count = .ok r := by
  induction count generalizing input offset with
  | zero => exact ⟨[], ([], offset), rfl⟩
  | succ count ih =>
      obtain ⟨first, body, stop⟩ := exists_frameStop_le h
      obtain ⟨more, ⟨extents, last⟩, others⟩ := ih stop
      have length : (input ++ first ++ more).length = (input ++ first).length + more.length :=
        List.length_append
      rw [← frameStop_append body more] at stop others
      refine ⟨first ++ more,
        ((offset + lengthWidth, frameStop (input ++ (first ++ more)) offset) :: extents, last), ?_⟩
      rw [← List.append_assoc, frameExtents_succ, if_neg (by omega), if_neg (by omega), others]
      rfl

theorem exists_decode_append (input : Bytes) :
    ∃ more m taken, decode (input ++ more) = .ok (m, taken) := by
  set begun := input ++ List.replicate preambleLength 0 with hb
  have arrived : preambleLength ≤ begun.length := by
    rw [hb, List.length_append, List.length_replicate]
    omega
  obtain ⟨more, r, frames⟩ := exists_frameExtents_append arrived (readPreamble begun).2
  have whole : preambleLength ≤ (begun ++ more).length :=
    arrived.trans (List.prefix_append _ _).length_le
  obtain ⟨message, hd⟩ := decode_eq_frameExtents whole
  refine ⟨List.replicate preambleLength 0 ++ more, message r.1, r.2, ?_⟩
  rw [← List.append_assoc, ← hb, hd, readPreamble_append arrived, frames]
  rfl

/-- **To be incomplete is to need more bytes**: on every byte string the decoder gives a message
that lies in it, or it asks for more bytes than there are; it has no other error.

* A message is decoded from its own bytes, whatever follows them, and every proper front of these
  bytes is incomplete.
* Where the decoder asks for more bytes, it asks for the same number again as long as they are
  fewer than that, and there are bytes that complete the message. -/
theorem decode_or_incomplete (input : Bytes) :
    ((∃ m taken, decode input = .ok (m, taken) ∧ taken ≤ input.length) ∨
      ∃ needed, decode input = .error (.incomplete needed input.length) ∧
        input.length < needed) ∧
    (∀ m taken, decode input = .ok (m, taken) →
      (∀ rest, decode (input.take taken ++ rest) = .ok (m, taken)) ∧
      ∀ front, front <+: input.take taken → front ≠ input.take taken →
        ∃ needed, decode front = .error (.incomplete needed front.length) ∧
          front.length < needed) ∧
    ∀ needed available, decode input = .error (.incomplete needed available) →
      (∀ more, (input ++ more).length < needed →
        decode (input ++ more) = .error (.incomplete needed (input ++ more).length)) ∧
      ∃ more m taken, decode (input ++ more) = .ok (m, taken) := by
  refine ⟨decode_cases input, fun m taken hd => ⟨decode_take_append hd, ?_⟩, fun needed _ hd => ?_⟩
  · intro front cut proper
    have short : front.length < (input.take taken).length :=
      lt_of_le_of_ne cut.length_le fun same => proper (cut.eq_of_length same)
    rw [List.length_take_of_le (decode_bounds hd).2] at short
    exact decode_of_prefix hd (cut.trans (List.take_prefix _ _)) short
  · exact ⟨fun _ => decode_append_of_lt hd, exists_decode_append input⟩

end TreeCluster.Wire
