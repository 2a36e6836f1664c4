import TreeCluster.Proofs.Wire.Reassembly

/-! # What the first two bytes of a message say

A message that was split off a stream is decoded from its own bytes (`decode_of_mem_messages`), so
its action and its state are the readings of the first two of them (`header_of_mem_messages`).
Two bytes may have the same reading, but only if it is that of unknown bytes: every other action
and every other state is read from its own byte alone (`Action.ofByte_eq_iff`,
`State.ofByte_eq_iff`). -/

namespace TreeCluster

theorem eq_of_getD_find? {α β : Type} [DecidableEq β] {l : List α} {key : α → β} {b : β}
    {a fallback : α} (known : a ≠ fallback) (h : (l.find? fun a => key a = b).getD fallback = a) :
    key a = b := by
  cases found : l.find? fun a => key a = b with
  | none =>
      rw [found] at h
      exact absurd h.symm known
  | some a' =>
      rw [found] at h
      obtain rfl : a' = a := h
      simpa using List.find?_some found

theorem Action.ofByte_eq_iff {a : Action} (known : a ≠ undefined) (b : UInt8) :
    ofByte b = a ↔ b = a.byte := by
  constructor
  · exact fun read => (eq_of_getD_find? known read).symm
  · rintro rfl
    exact ofByte_byte a

theorem State.ofByte_eq_iff {s : State} (known : s ≠ probe) (b : UInt8) :
    ofByte b = s ↔ b = s.byte := by
  constructor
  · exact fun read => (eq_of_getD_find? known read).symm
  · rintro rfl
    exact ofByte_byte s

namespace Wire

variable {stream raw : Bytes} {m : Message}

/-- What was split off is decoded again, and nothing of it is left. -/
theorem decode_of_mem_messages (h : (m, raw) ∈ messages stream) :
    decode raw = .ok (m, raw.length) := by
  induction stream using messages.induct with
  | case1 stream e hd =>
      rw [messages_of_error hd] at h
      cases h
  | case2 stream m' taken hd ih =>
      rw [messages_of_ok hd] at h
      rcases List.mem_cons.mp h with first | later
      · obtain ⟨rfl, rfl⟩ := Prod.mk.inj first
        rw [List.length_take_of_le (decode_bounds hd).2]
        simpa using decode_take_append hd []
      · exact ih later

/-- Two bytes stand in front, for action and state. -/
theorem header_of_mem_messages (h : (m, raw) ∈ messages stream) :
    ∃ x y rest, raw = x :: y :: rest ∧ m.action = Action.ofByte x ∧ m.state = State.ofByte y := by
  obtain ⟨arrived, preamble, -, -, -⟩ := (decode_eq_ok_iff _ _ _).mp (decode_of_mem_messages h)
  match raw with
  | [] => cases arrived
  | [x] => simp [preambleLength] at arrived
  | x :: y :: rest =>
      have header := congrArg Prod.fst preamble
      exact ⟨x, y, rest, rfl, (congrArg Message.action header).symm,
        (congrArg Message.state header).symm⟩

end Wire
end TreeCluster
