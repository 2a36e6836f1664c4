import Mathlib
import TreeCluster.Command.Registry

/-! # Frames of commands

A frame is a header of eight bytes, the dispatch id and the length of the body, with the body behind
it (`encode_eq`).  Every eight bytes are a header (`exists_header`), and the decoder takes what the
header announces as soon as it is there (`decode_header`).

So the decoder accepts exactly what starts with the frame of a body of less than `2 ^ 32` bytes
(`decode_eq_ok_iff`): the length of a longer body does not fit into the header.  Where it accepts
nothing it asks for a number of bytes.  After the header this is the length of the frame, and before
that it is the length of the header, which is all that is known to be missing.  `framing_exact` puts
this together. -/

namespace TreeCluster.Command

/-- The eight bytes before a body: the id and the length, modulo `2 ^ 32`. -/
def header (id : UInt32) (length : ℕ) : Bytes :=
  Word.big 4 id.toNat ++ Word.big 4 length

@[simp] theorem length_header (id : UInt32) (length : ℕ) :
    (header id length).length = headerLength := by
  simp only [header, List.length_append, Word.length_big]
  rfl

theorem encode_eq (id : UInt32) (body : Bytes) : encode id body = header id body.length ++ body :=
  rfl

theorem length_encode (id : UInt32) (body : Bytes) :
    (encode id body).length = headerLength + body.length := by
  rw [encode_eq, List.length_append, length_header]

/-- Commands with the same frame are the same, however long their bodies are. -/
theorem encode_inj {id id' : UInt32} {body body' : Bytes} :
    encode id body = encode id' body' ↔ id = id' ∧ body = body' := by
  constructor
  · intro same
    obtain ⟨front, rfl⟩ := List.append_inj same (by simp only [List.length_append, Word.length_big])
    have written := (List.append_inj front (by simp only [Word.length_big])).1
    have value (id : UInt32) : Word.ofBig (Word.big 4 id.toNat) = id.toNat :=
      (Word.ofBig_big _ _).trans (Nat.mod_eq_of_lt id.toNat_lt)
    have number : id.toNat = id'.toNat := by rw [← value id, written, value id']
    exact ⟨UInt32.toNat_inj.mp number, rfl⟩
  · rintro ⟨rfl, rfl⟩
    rfl

/-! ### What the header says -/

theorem exists_header {input : Bytes} (arrived : headerLength ≤ input.length) :
    ∃ id length rest, length < 2 ^ 32 ∧ input = header id length ++ rest := by
  have eight : 8 ≤ input.length := arrived
  have small (bytes : Bytes) : Word.ofBig (bytes.take 4) < 2 ^ 32 :=
    (Word.ofBig_lt _).trans_le (Nat.pow_le_pow_right (by decide) (List.length_take_le _ _))
  have number : (UInt32.ofNat (Word.ofBig (input.take 4))).toNat = Word.ofBig (input.take 4) :=
    UInt32.toNat_ofNat_of_lt' (small input)
  refine ⟨.ofNat (Word.ofBig (input.take 4)), Word.ofBig ((input.drop 4).take 4),
    (input.drop 4).drop 4, small _, ?_⟩
  rw [header, number, Word.big_ofBig_take (by omega),
    Word.big_ofBig_take (by rw [List.length_drop]; omega), List.append_assoc,
    List.take_append_drop, List.take_append_drop]

/-- A frame is read as its header says, as soon as the announced body is there. -/
theorem decode_header (id : UInt32) {length : ℕ} (short : length < 2 ^ 32) (rest : Bytes) :
    decode (header id length ++ rest) =
      if rest.length < length then
        .error (.incomplete (headerLength + length) (headerLength + rest.length))
      else .ok (id, rest.take length, headerLength + length) := by
  have width (n : ℕ) : (Word.big 4 n).length = 4 := Word.length_big 4 n
  have total : (header id length ++ rest).length = headerLength + rest.length := by
    rw [List.length_append, length_header]
  have front : (header id length ++ rest).take 4 = Word.big 4 id.toNat := by
    rw [header, List.append_assoc, List.take_left' (width _)]
  have next : ((header id length ++ rest).drop 4).take 4 = Word.big 4 length := by
    rw [header, List.append_assoc, List.drop_left' (width _), List.take_left' (width _)]
  have after : (header id length ++ rest).drop headerLength = rest :=
    List.drop_left' (length_header _ _)
  have hid : Word.ofBig (Word.big 4 id.toNat) = id.toNat :=
    (Word.ofBig_big _ _).trans (Nat.mod_eq_of_lt id.toNat_lt)
  have hlength : Word.ofBig (Word.big 4 length) = length :=
    (Word.ofBig_big _ _).trans (Nat.mod_eq_of_lt short)
  simp only [decode, total, front, next, after, hid, hlength, UInt32.ofNat_toNat,
    Nat.add_lt_add_iff_left]
  rw [if_neg (by omega)]

theorem decode_of_lt {input : Bytes} (few : input.length < headerLength) :
    decode input = .error (.incomplete headerLength input.length) :=
  if_pos few

/-! ### What is accepted -/

theorem decode_encode_append (id : UInt32) {body : Bytes} (short : body.length < 2 ^ 32)
    (rest : Bytes) :
    decode (encode id body ++ rest) = .ok (id, body, (encode id body).length) := by
  rw [length_encode, encode_eq, List.append_assoc, decode_header id short,
    if_neg (by rw [List.length_append]; omega), List.take_left]

/-- The decoder accepts the frames of short bodies, and nothing else. -/
theorem decode_eq_ok_iff (input : Bytes) (id : UInt32) (body : Bytes) (taken : ℕ) :
    decode input = .ok (id, body, taken) ↔
      body.length < 2 ^ 32 ∧ taken = (encode id body).length ∧ encode id body <+: input := by
  constructor
  · intro accepted
    by_cases few : input.length < headerLength
    · rw [decode_of_lt few] at accepted
      cases accepted
    · obtain ⟨id', length, rest, short, rfl⟩ := exists_header (not_lt.mp few)
      rw [decode_header id' short] at accepted
      split at accepted
      · cases accepted
      · next there =>
        cases accepted
        have exact : (rest.take length).length = length := List.length_take_of_le (not_lt.mp there)
        refine ⟨exact.trans_lt short, by rw [length_encode, exact], ?_⟩
        rw [encode_eq, exact]
        exact (List.prefix_append_right_inj _).mpr (List.take_prefix _ _)
  · rintro ⟨short, rfl, rest, rfl⟩
    exact decode_encode_append id short rest

theorem decode_take_encode (id : UInt32) {body : Bytes} (short : body.length < 2 ^ 32) {n : ℕ}
    (part : n < (encode id body).length) :
    ∃ needed, decode ((encode id body).take n) = .error (.incomplete needed n) := by
  have length : ((encode id body).take n).length = n := List.length_take_of_le part.le
  rw [length_encode] at part
  by_cases few : n < headerLength
  · refine ⟨headerLength, ?_⟩
    rw [decode_of_lt (by rwa [length]), length]
  · refine ⟨headerLength + body.length, ?_⟩
    rw [encode_eq, List.take_append, List.take_of_length_le (by rw [length_header]; omega),
      decode_header id short, length_header]
    rw [if_pos (by rw [List.length_take]; omega), List.length_take_of_le (by omega)]
    rw [Nat.add_sub_cancel' (by omega)]

theorem exists_decode_header_iff (id : UInt32) {length : ℕ} (short : length < 2 ^ 32)
    (rest : Bytes) :
    (∃ command, decode (header id length ++ rest) = .ok command) ↔
      headerLength + length ≤ (header id length ++ rest).length := by
  rw [decode_header id short, List.length_append, length_header]
  split
  · next missing =>
    refine ⟨nofun, fun arrived => ?_⟩
    omega
  · next there => exact ⟨fun _ => by omega, fun _ => ⟨_, rfl⟩⟩

theorem taken_of_decode_header {id id' : UInt32} {length taken : ℕ} (short : length < 2 ^ 32)
    {rest body : Bytes} (accepted : decode (header id length ++ rest) = .ok (id', body, taken)) :
    taken = headerLength + length := by
  rw [decode_header id short] at accepted
  split at accepted
  · cases accepted
  · cases accepted
    rfl

/-- How many bytes are needed where these have arrived and are not a whole frame. -/
structure Needs (input : Bytes) (needed : ℕ) : Prop where
  lt : input.length < needed
  /-- Without the header nothing is known of the frame. -/
  header_of_lt : input.length < headerLength → needed = headerLength
  le_of_accepted : ∀ more command, decode (input ++ more) = .ok command →
    needed ≤ (input ++ more).length
  /-- With the header it is known when the frame is whole. -/
  accepted_iff : headerLength ≤ input.length → ∀ more,
    (∃ command, decode (input ++ more) = .ok command) ↔ needed ≤ (input ++ more).length
  taken_eq : headerLength ≤ input.length → ∀ more id body taken,
    decode (input ++ more) = .ok (id, body, taken) → taken = needed

/-- Only an incomplete frame is refused, with the number of bytes that it needs. -/
theorem needs_of_decode_eq_error {input : Bytes} {e : CodecError} (refused : decode input = .error e) :
    ∃ needed, e = .incomplete needed input.length ∧ Needs input needed := by
  by_cases few : input.length < headerLength
  · rw [decode_of_lt few] at refused
    obtain rfl := Except.error.inj refused
    refine ⟨headerLength, rfl, few, fun _ => rfl, fun more command accepted => ?_,
      fun there => absurd few there.not_gt, fun there => absurd few there.not_gt⟩
    by_contra fewer
    rw [decode_of_lt (not_le.mp fewer)] at accepted
    cases accepted
  · obtain ⟨id, length, rest, short, rfl⟩ := exists_header (not_lt.mp few)
    have total : (header id length ++ rest).length = headerLength + rest.length := by
      rw [List.length_append, length_header]
    rw [decode_header id short, ← total] at refused
    split at refused
    · next missing =>
      obtain rfl := Except.error.inj refused
      have whole (more : Bytes) :
          (∃ command, decode (header id length ++ rest ++ more) = .ok command) ↔
            headerLength + length ≤ (header id length ++ rest ++ more).length := by
        rw [List.append_assoc]
        exact exists_decode_header_iff id short _
      refine ⟨headerLength + length, rfl,
        { lt := by omega
          header_of_lt := fun absent => absurd absent few
          le_of_accepted := fun more command accepted => (whole more).mp ⟨command, accepted⟩
          accepted_iff := fun _ => whole
          taken_eq := fun _ more _ _ _ => ?_ }⟩
      rw [List.append_assoc]
      exact taken_of_decode_header short
    · cases refused

theorem incomplete_of_decode_eq_error {input : Bytes} {e : CodecError}
    (refused : decode input = .error e) : ∃ needed, e = .incomplete needed input.length := by
  obtain ⟨needed, same, -⟩ := needs_of_decode_eq_error refused
  exact ⟨needed, same⟩

/-- **Frames of commands are exact.**

* Different commands have different frames, and a frame is read back, whatever follows it, if and
  only if the body has less than `2 ^ 32` bytes.
* On every byte string the decoder gives a command whose frame stands at the front and is what it
  takes, or asks for the bytes that are needed (`Needs`): for eight as long as it has not got the
  header, and then for the length of the frame. -/
theorem framing_exact :
    (∀ (id id' : UInt32) (body body' : Bytes),
      encode id body = encode id' body' ↔ id = id' ∧ body = body') ∧
    (∀ (id : UInt32) (body rest : Bytes),
      decode (encode id body ++ rest) = .ok (id, body, headerLength + body.length) ↔
        body.length < 2 ^ 32) ∧
    ∀ input : Bytes,
      (∃ id body taken, decode input = .ok (id, body, taken) ∧ taken ≤ input.length ∧
        encode id body = input.take taken) ∨
      ∃ needed, decode input = .error (.incomplete needed input.length) ∧ Needs input needed := by
  refine ⟨fun id id' body body' => encode_inj, fun id body rest => ?_, fun input => ?_⟩
  · rw [decode_eq_ok_iff, length_encode]
    exact ⟨And.left, fun short => ⟨short, rfl, List.prefix_append _ _⟩⟩
  · cases decoded : decode input with
    | ok command =>
        obtain ⟨id, body, taken⟩ := command
        obtain ⟨-, rfl, front⟩ := (decode_eq_ok_iff _ _ _ _).mp decoded
        exact .inl ⟨id, body, _, rfl, front.length_le, List.prefix_iff_eq_take.mp front⟩
    | error e =>
        obtain ⟨needed, rfl, needs⟩ := needs_of_decode_eq_error decoded
        exact .inr ⟨needed, rfl, needs⟩

end TreeCluster.Command
