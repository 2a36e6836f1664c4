import TreeCluster.Proofs.Transport.Link

/-! # The writing end of a link

The bytes that were queued on a connection and are not on its wire are those that its writer
holds, as long as it takes messages; later they begin with what it holds (`Writes`).  Every step
of the writing socket keeps this. -/

namespace TreeCluster

open Connection

namespace Socket

variable {s s' : Socket} {c : ℕ} {left : Bytes}

theorem writersOf_mapWriters {f : Writer → Writer}
    (same : ∀ w, (f w).connection = w.connection) :
    (s.mapWriters c f).writersOf c = (s.writersOf c).map f := by
  simp only [writersOf, mapWriters]
  induction s.writers with
  | nil => rfl
  | cons w rest ih =>
      by_cases h : w.connection = c
      · simp [h, same, ih]
      · simp [h, ih]

theorem ends_mapWriters {f : Writer → Writer} (same : ∀ w, (f w).connection = w.connection) :
    (s.mapWriters c f).writersOf c ++ (s.mapWriters c f).drainingOf c =
      (s.writersOf c ++ s.drainingOf c).map f := by
  rw [writersOf_mapWriters same, List.map_append]
  exact congrArg _ (writersOf_mapWriters (s := { s with writers := s.draining }) same)

/-- The connection `c` has at most one writer, and what was queued on it but not written begins
with what the writer holds.  A writer that takes messages holds all of it. -/
structure Writes (s : Socket) (c : ℕ) (left : Bytes) : Prop where
  one : (s.writersOf c ++ s.drainingOf c).length ≤ 1
  begins : ∀ w ∈ s.writersOf c ++ s.drainingOf c, w.stream <+: left
  whole : ∀ w ∈ s.writersOf c, w.stopped = false → w.stream = left

theorem Writes.releases (h : Writes s c left) (r : Releases c s s') : Writes s' c left where
  one := r.all.length_le.trans h.one
  begins w hw := h.begins w (r.all.subset hw)
  whole w hw := h.whole w (r.writers.subset hw)

theorem Writes.attach (none : s.writersOf c ++ s.drainingOf c = []) (key : String) :
    Writes (s.attachWriter key c) c [] := by
  obtain ⟨no, drained⟩ := List.append_eq_nil_iff.mp none
  have listed : (s.attachWriter key c).writersOf c =
      [⟨key, c, max s.options.outboundCapacity 1, [], [], .zero, false⟩] := by
    have : (s.writers.filter fun w => !w.stopped).filter (fun w => w.connection = c) = [] := by
      rw [List.filter_comm, show s.writers.filter (fun w => w.connection = c) = [] from no]
      rfl
    simp [writersOf, attachWriter, List.filter_append, this]
  have dropped : (s.attachWriter key c).drainingOf c = [] := drained
  refine ⟨?_, ?_, ?_⟩
  · rw [listed, dropped]
    exact Nat.le_refl 1
  · rw [listed, dropped]
    simp [Writer.stream]
  · rw [listed]
    simp [Writer.stream]

/-! ### Sending -/

theorem afterOffer_connection {w w' : Writer} {frame : Bytes} (h : w.afterOffer frame = some w') :
    w'.connection = w.connection := by
  rcases Writer.afterOffer_eq_some h with ⟨-, rfl⟩ | ⟨-, rfl⟩ <;> rfl

theorem filter_filterMap_afterOffer (c : ℕ) (frame : Bytes) (writers : List Writer) :
    (writers.filterMap (·.afterOffer frame)).filter (fun w => w.connection = c) =
      (writers.filter fun w => w.connection = c).filterMap (·.afterOffer frame) := by
  rw [List.filter_filterMap, List.filterMap_filter]
  refine List.filterMap_congr fun w _ => ?_
  cases h : w.afterOffer frame with
  | none => simp
  | some w' => simp [Option.filter, afterOffer_connection h]

/-- Sending changes the writers of a connection in no other way than by offering the message. -/
theorem ends_send (s : Socket) (c : ℕ) (m : Message) :
    (s.send m).1.drainingOf c = s.drainingOf c ∧
      ((s.send m).1.writersOf c = s.writersOf c ∧
          (s.takers m).any (·.connection = c) = false ∨
        (s.send m).1.writersOf c = (s.writersOf c).filterMap (·.afterOffer (Wire.encode m)) ∧
          (s.takers m).any (·.connection = c) = (s.writersOf c).any (·.takes)) := by
  obtain ⟨same, no⟩ | ⟨sent, takers⟩ := send_eq s m
  · rw [same, no]
    exact ⟨rfl, Or.inl ⟨rfl, rfl⟩⟩
  · rw [sent, takers]
    refine ⟨rfl, Or.inr ⟨filter_filterMap_afterOffer c _ s.writers, ?_⟩⟩
    rw [writersOf, List.any_filter, List.any_filter]
    simp only [Bool.and_comm]

theorem ends_send_of_none (none : s.writersOf c = []) (m : Message) :
    (s.send m).1.writersOf c = [] ∧ (s.takers m).any (·.connection = c) = false := by
  obtain ⟨-, ⟨listed, queued⟩ | ⟨listed, queued⟩⟩ := ends_send s c m
  · exact ⟨listed.trans none, queued⟩
  · rw [listed, queued, none]
    exact ⟨rfl, rfl⟩

/-- A message that is queued on the connection comes after all that was queued before. -/
theorem Writes.send (h : Writes s c left) (m : Message) :
    Writes (s.send m).1 c
      (left ++ if (s.takers m).any (·.connection = c) then Wire.encode m else []) := by
  obtain ⟨dropped, ⟨listed, queued⟩ | ⟨listed, queued⟩⟩ := ends_send s c m
  · rw [queued]
    refine ⟨?_, ?_, ?_⟩ <;> rw [listed]
    · exact dropped ▸ h.one
    · simpa [dropped] using h.begins
    · simpa using h.whole
  · obtain ⟨one, begins, whole⟩ := h
    rw [← dropped] at one begins
    rw [queued]
    -- at most one writer, which stays as it is, queues the message, or is given up
    match hw : s.writersOf c with
    | [] =>
        rw [hw] at one begins listed
        refine ⟨listed ▸ one, ?_, ?_⟩ <;> rw [listed]
        · simpa using begins
        · simp
    | w :: more =>
        rw [hw] at one begins listed whole
        obtain ⟨rfl, finished⟩ : more = [] ∧ (s.send m).1.drainingOf c = [] := by
          simpa [List.append_eq_nil_iff] using one
        rw [finished] at one begins
        have mine := begins w (by simp)
        cases ho : w.afterOffer (Wire.encode m) with
        | none =>
            have : (s.send m).1.writersOf c = [] := by simp [listed, ho]
            constructor <;> simp [this, finished]
        | some w' =>
            have : (s.send m).1.writersOf c = [w'] := by simp [listed, ho]
            obtain ⟨takes, rfl⟩ | ⟨full, rfl⟩ := Writer.afterOffer_eq_some ho
            · have live : w.stopped = false := by
                simp only [Writer.takes, Bool.and_eq_true, Bool.not_eq_true'] at takes
                exact takes.1
              have longer : { w with queue := w.queue ++ [Wire.encode m] }.stream =
                  left ++ Wire.encode m := by
                rw [Writer.stream_offer (Writer.offer_of_takes takes _), whole w (by simp) live]
              constructor <;> simp [this, finished, takes, longer]
            · constructor <;> simp [this, finished, full, mine]
              exact whole w' (by simp)

/-! ### The writer's task -/

theorem Writes.map {f : Writer → Writer} (same : ∀ w, (f w).connection = w.connection)
    (one : (s.writersOf c ++ s.drainingOf c).length ≤ 1)
    (begins : ∀ w ∈ s.writersOf c ++ s.drainingOf c, (f w).stream <+: left)
    (whole : ∀ w ∈ s.writersOf c, (f w).stopped = false → (f w).stream = left) :
    Writes (s.mapWriters c f) c left := by
  refine ⟨?_, ?_, ?_⟩
  · rwa [ends_mapWriters same, List.length_map]
  · rw [ends_mapWriters same]
    exact List.forall_mem_map.mpr begins
  · rw [writersOf_mapWriters same]
    exact List.forall_mem_map.mpr whole

theorem write_connection (w : Writer) (n : ℕ) : (w.write n).1.connection = w.connection := by
  simp only [Writer.write, Writer.pull]
  split <;> rfl

theorem write_stopped (w : Writer) (n : ℕ) : (w.write n).1.stopped = w.stopped := by
  simp only [Writer.write, Writer.pull]
  split <;> rfl

theorem Writes.write (h : Writes s c left) (n : ℕ) :
    ∃ left', (s.writersOf c ++ s.drainingOf c).flatMap (fun w => (w.write n).2) ++ left' = left ∧
      Writes (s.mapWriters c fun w => (w.write n).1) c left' := by
  obtain ⟨one, begins, whole⟩ := h
  match hw : s.writersOf c ++ s.drainingOf c with
  | [] =>
      obtain ⟨listed, -⟩ := List.append_eq_nil_iff.mp hw
      exact ⟨left, rfl, .map (write_connection · n) one (by simp [hw]) (by simp [listed])⟩
  | w :: more =>
      obtain rfl : more = [] := by simpa [hw] using one
      obtain ⟨rest, split⟩ := begins w (by simp [hw])
      have written := w.written_append_stream n
      refine ⟨(w.write n).1.stream ++ rest, ?_, .map (write_connection · n) one ?_ ?_⟩
      · simpa [← List.append_assoc, written] using split
      · simp [hw]
      · intro w' hw' live
        obtain rfl : w' = w := by simpa [hw] using List.mem_append_left (s.drainingOf c) hw'
        have all := whole w' hw' (write_stopped w' n ▸ live)
        rw [all] at split
        simp [List.append_right_eq_self.mp split]

theorem Writes.stop (h : Writes s c left) : Writes (s.mapWriters c Writer.stop) c left :=
  .map (fun _ => rfl) h.one (fun _ _ => List.nil_prefix) (fun _ _ live => nomatch live)

end Socket
end TreeCluster
