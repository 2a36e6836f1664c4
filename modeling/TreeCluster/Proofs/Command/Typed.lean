import TreeCluster.Proofs.Command.Consistent
import TreeCluster.Proofs.Command.Framing
import TreeCluster.Proofs.Wire.Faithful

/-! # Typed commands

A name keeps its handler until it is unregistered (`Registry.Runs.run`).  So a value that is encoded
under the name arrives at this handler and at no other, if the layout of its type restores it
(`Restores`): `perform_typed`. -/

namespace TreeCluster.Command

/-! ### Handlers -/

namespace Registry

variable {α β : Type} {hash : String → UInt32} {r : Registry α} {name : String}
  {handler : Bytes → α}

/-- The handler is registered under the name. -/
def Runs (r : Registry α) (name : String) (handler : Bytes → α) : Prop :=
  ∃ id, r.handlers.get? id = some ⟨name, handler⟩

theorem Consistent.runs (h : r.Consistent hash)
    (accepted : ∃ new, r.registerUnder hash name handler = .ok new) :
    (r.apply hash (.register name handler)).Runs name handler := by
  obtain ⟨⟨new, id⟩, accepted⟩ := accepted
  obtain ⟨-, -, handlers⟩ := h.registered accepted
  simp only [Registry.apply, accepted]
  exact ⟨id, by rw [handlers, if_pos rfl]⟩

theorem Runs.apply (runs : r.Runs name handler) (h : r.Consistent hash) {change : Change α}
    (kept : change ≠ .unregister name) : (r.apply hash change).Runs name handler := by
  obtain ⟨id, found⟩ := runs
  cases change with
  | register other g =>
      rcases h.register_cases other g with ⟨-, answer⟩ | ⟨-, _, -, -, answer⟩ | ⟨-, vacant, answer⟩
      · simpa only [Registry.apply, answer] using ⟨id, found⟩
      · simpa only [Registry.apply, answer] using ⟨id, found⟩
      · have apart : id ≠ hash other := by
          rintro rfl
          rw [vacant] at found
          cases found
        simp only [Registry.apply, answer]
        exact ⟨id, by rw [Table.get?_insert, if_neg apart, found]⟩
  | unregister other =>
      rcases h.unregister_cases other with ⟨-, answer⟩ | ⟨known, answer⟩
      · simpa only [Registry.apply, answer] using ⟨id, found⟩
      · have apart : id ≠ hash other := by
          rintro rfl
          have ours := (h.idOf_iff_handler name _).mpr ⟨handler, found⟩
          exact kept (congrArg Change.unregister (h.name_unique ours known))
        simp only [Registry.apply, answer]
        exact ⟨id, by rw [Table.get?_erase, if_neg apart, found]⟩

theorem Runs.run (runs : r.Runs name handler) (h : r.Consistent hash) {changes : List (Change α)}
    (kept : .unregister name ∉ changes) : (r.run hash changes).Runs name handler := by
  induction changes generalizing r with
  | nil => exact runs
  | cons change changes ih =>
      obtain ⟨first, others⟩ := not_or.mp (List.mem_cons.not.mp kept)
      exact ih (runs.apply h (Ne.symm first)) (h.apply change) others

theorem run_append (r : Registry α) (before later : List (Change α)) :
    r.run hash (before ++ later) = (r.run hash before).run hash later := by
  induction before generalizing r with
  | nil => rfl
  | cons change before ih => exact ih (r.apply hash change)

/-- What is encoded under a name goes to its handler, whatever follows. -/
theorem Runs.process (runs : r.Runs name handler) (h : r.Consistent hash) [Layout β] {value : β}
    (short : (Layout.write value).length < 2 ^ 32) :
    ∃ frame, r.encodeTyped name value = .ok frame ∧
      (∀ rest, r.process (frame ++ rest) = .ok (frame.length, handler (Layout.write value))) ∧
      ∀ n < frame.length, ∃ needed,
        r.process (frame.take n) = .error (.codec (.incomplete needed n)) := by
  obtain ⟨id, found⟩ := runs
  have known : r.idOf name = .ok id := (h.idOf_iff_handler name id).mpr ⟨handler, found⟩
  refine ⟨encode id (Layout.write value), ?_, fun rest => ?_, fun n part => ?_⟩
  · rw [encodeTyped, known]
    rfl
  · simp only [Registry.process, decode_encode_append id short, found]
  · obtain ⟨needed, refused⟩ := decode_take_encode id short part
    exact ⟨needed, by simp only [Registry.process, refused]⟩

end Registry

/-! ### Typed handlers -/

/-- A layout whose decoder undoes what it writes into a body. -/
def Restores (β : Type) [Layout β] : Prop :=
  ∀ value : β, (Layout.write value).length < 2 ^ 32 →
    Layout.decode (Layout.write value) = .ok value

theorem restores_of_faithful {β : Type} [Layout β] [Layout.Faithful β] : Restores β :=
  fun value short => Layout.decode_write value (short.trans (by decide))

namespace Registry

/-- **A typed value arrives as it was sent.**

* The types of the library are restored by their layouts.
* Take a type that is, and a name that a handler of its values was registered under, among any other
  changes and under any ids, and that was not unregistered since.  A value is encoded under the
  name, and the registry, given the frame with any bytes behind it, runs this handler once on this
  value, takes the frame and gives the handler's outcome.  No handler runs on a part of the frame.
* Whatever was registered, the registry runs no handler if the bytes are not decoded, which only
  happens where they are incomplete, or if their id is unknown. -/
theorem perform_typed :
    (Restores NodeAddress ∧ Restores NodePath ∧ Restores ReplayEntry ∧ Restores ReplayLog ∧
      Restores Action ∧ Restores State) ∧
    ∀ (m : Type → Type) [Monad m] (ω : Type) (hash : String → UInt32),
      (∀ (β : Type) [Layout β], Restores β →
        ∀ (name : String) (refused : CodecError → m ω) (handler : β → m ω)
          (before later : List (Change (m ω))),
        (∃ new, (empty.run hash before).registerUnder hash name (typed refused handler) = .ok new) →
        .unregister name ∉ later →
        let r := empty.run hash (before ++ Change.registerTyped refused name handler :: later)
        ∀ value : β, (Layout.write value).length < 2 ^ 32 →
          ∃ frame, r.encodeTyped name value = .ok frame ∧
            (∀ rest, r.perform (frame ++ rest) = do
              let outcome ← handler value
              return .ok (frame.length, outcome)) ∧
            ∀ n < frame.length, ∃ needed,
              r.perform (frame.take n) = pure (.error (.codec (.incomplete needed n)))) ∧
      ∀ (changes : List (Change (m ω))) (input : Bytes),
        let r := empty.run hash changes
        (∀ e, decode input = .error e →
          (∃ needed, e = .incomplete needed input.length) ∧
            r.perform input = pure (.error (.codec e))) ∧
        ∀ id body consumed, decode input = .ok (id, body, consumed) → r.nameOf id = none →
          r.perform input = pure (.error (.registry (.unknownCommand id))) := by
  refine ⟨⟨restores_of_faithful, restores_of_faithful, restores_of_faithful, restores_of_faithful,
    restores_of_faithful, restores_of_faithful⟩, fun m _ ω hash => ⟨?_, ?_⟩⟩
  · intro β _ restores name refused handler before later accepted kept r value short
    have start : (empty.run hash before).Consistent hash := consistent_empty.run before
    have placed := start.runs accepted
    have runs : r.Runs name (typed refused handler) := by
      simp only [r, run_append]
      exact placed.run (start.apply _) kept
    have consistent : r.Consistent hash := consistent_empty.run _
    obtain ⟨frame, encoded, whole, part⟩ := runs.process consistent short
    refine ⟨frame, encoded, fun rest => ?_, fun n hn => ?_⟩
    · simp only [perform, whole, typed, restores value short]
    · obtain ⟨needed, refused⟩ := part n hn
      exact ⟨needed, by simp only [perform, refused]⟩
  · intro changes input r
    refine ⟨fun e refused => ⟨incomplete_of_decode_eq_error refused, ?_⟩, ?_⟩
    · simp only [perform, process, refused]
    · intro id body consumed decoded unknown
      have vacant : r.handlers.get? id = none := Option.map_eq_none_iff.mp unknown
      simp only [perform, process, decoded, vacant]

/-- A handler that notes the addresses it is given, under a name whose only id was another's before
and is asked for by a third one later. -/
theorem perform_typed_of_freed_id :
    let Noted := StateM (List NodeAddress)
    let silent : Bytes → Noted Unit := fun _ => pure ()
    let note : NodeAddress → Noted Unit := fun address => modify (address :: ·)
    let r := (empty : Registry (Noted Unit)).run (fun _ => 7)
      [.register "ping" silent, .unregister "ping", .registerTyped (fun _ => pure ()) "join" note,
        .register "leave" silent]
    ∃ frame, r.encodeTyped "join" (⟨"a", "h", 1⟩ : NodeAddress) = .ok frame ∧
      (∀ rest, (r.perform (frame ++ rest)).run [] = (.ok (frame.length, ()), [⟨"a", "h", 1⟩])) ∧
      ∀ n < frame.length, ∃ needed,
        (r.perform (frame.take n)).run [] = (.error (.codec (.incomplete needed n)), []) := by
  intro Noted silent note r
  have accepted : ∃ new, ((empty : Registry (Noted Unit)).run (fun _ => 7)
      [.register "ping" silent, .unregister "ping"]).registerUnder (fun _ => 7) "join"
        (typed (fun _ => pure ()) note) = .ok new := ⟨_, rfl⟩
  have kept : (Change.unregister "join" : Change (Noted Unit)) ∉ [.register "leave" silent] := by
    simp
  obtain ⟨frame, encoded, whole, part⟩ := (perform_typed.2 Noted Unit fun _ => 7).1 NodeAddress
    perform_typed.1.1 "join" (fun _ => pure ()) note _ _ accepted kept ⟨"a", "h", 1⟩ (by decide)
  refine ⟨frame, encoded, fun rest => ?_, fun n hn => ?_⟩
  · exact congrFun (whole rest) []
  · obtain ⟨needed, refused⟩ := part n hn
    exact ⟨needed, congrFun refused []⟩

end Registry
end TreeCluster.Command
