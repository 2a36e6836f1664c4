import TreeCluster.Proofs.Transport.Reading
import TreeCluster.Proofs.Transport.Writing

/-! # What runs in the background of a socket

The task that accepts connections, and those that read and write, run in the background of a
socket (`Socket.Worker`).  A change of a socket, and everything that workers do, starts no other
workers than those that the change brings (`starts_change`, `Change.gives`).  Closing ends them
all, but for the writers of connections that were dropped before, which finish what is queued
(`runs_close`). -/

namespace TreeCluster

open Connection

namespace Socket

/-- What runs in the background for a socket. -/
inductive Worker where
  /-- The listener and the task that accepts connections. -/
  | accept
  | read (connection : ℕ)
  | write (connection : ℕ)

namespace Worker

/-- The worker belongs to a connection. -/
def IsOn (c : ℕ) : Worker → Prop
  | .accept => False
  | .read connection => connection = c
  | .write connection => connection = c

/-- The worker accepts connections, or belongs to one with a number from `low` on and below
`high`. -/
def Within (low high : ℕ) : Worker → Prop
  | .accept => True
  | .read connection => low ≤ connection ∧ connection < high
  | .write connection => low ≤ connection ∧ connection < high

theorem Within.mono {t : Worker} {low high low' high' : ℕ} (h : t.Within low high)
    (less : low' ≤ low) (more : high ≤ high') : t.Within low' high' := by
  cases t with
  | accept => trivial
  | read connection => exact ⟨less.trans h.1, h.2.trans_le more⟩
  | write connection => exact ⟨less.trans h.1, h.2.trans_le more⟩

theorem IsOn.within {t : Worker} {c : ℕ} (h : t.IsOn c) : t.Within c (c + 1) := by
  cases t with
  | accept => trivial
  | read connection => exact ⟨h.ge, Nat.lt_succ_of_le h.le⟩
  | write connection => exact ⟨h.ge, Nat.lt_succ_of_le h.le⟩

end Worker

/-- A dropped connection has something left to be written. -/
def Finishes (s : Socket) (c : ℕ) : Prop :=
  ∃ w ∈ s.drainingOf c, w.stopped = false ∧ w.isDrained = false

/-- A worker is alive. -/
def Runs (s : Socket) : Worker → Prop
  | .accept => s.listening = true
  | .read c => ∃ r ∈ s.readersOf c, r.finished = false
  | .write c => (∃ w ∈ s.writersOf c, w.stopped = false) ∨ s.Finishes c

instance (s : Socket) (c : ℕ) : Decidable (s.Finishes c) :=
  inferInstanceAs (Decidable (∃ w ∈ s.drainingOf c, _))

instance (s : Socket) : DecidablePred s.Runs
  | .accept => inferInstanceAs (Decidable (s.listening = true))
  | .read c => inferInstanceAs (Decidable (∃ r ∈ s.readersOf c, _))
  | .write c => inferInstanceAs (Decidable ((∃ w ∈ s.writersOf c, _) ∨ s.Finishes c))

/-- From `s` to `s'` the socket is not opened again, and only the given workers are started. -/
structure Starts (given : Worker → Prop) (s s' : Socket) : Prop where
  closed : s.closed = true → s'.closed = true
  runs : ∀ t, s'.Runs t → s.Runs t ∨ given t

/-- Nothing is started. -/
abbrev StartsNothing (s s' : Socket) : Prop :=
  Starts (fun _ => False) s s'

variable {s s' s'' : Socket} {given : Worker → Prop}

@[refl] theorem Starts.refl (given : Worker → Prop) (s : Socket) : Starts given s s :=
  ⟨id, fun _ => Or.inl⟩

theorem Starts.trans (h : Starts given s s') (h' : Starts given s' s'') : Starts given s s'' :=
  ⟨h'.closed ∘ h.closed, fun t runs => (h'.runs t runs).elim (h.runs t) Or.inr⟩

theorem Starts.mono {more : Worker → Prop} (h : Starts given s s') (subset : ∀ t, given t → more t) :
    Starts more s s' :=
  ⟨h.closed, fun t runs => (h.runs t runs).imp_right (subset t)⟩

/-! ### Changes -/

/-- The workers that a change starts. -/
def Change.gives : Change → Worker → Prop
  | .listenAt _, t => t = .accept
  | .attachDialled _ connection, t => t.IsOn connection
  | .attachAccepted _ connection, t => t.IsOn connection
  | _, _ => False

theorem flags_dropConnections (peers : List NodeAddress) (s : Socket) :
    let s' := peers.foldl (fun s peer => s.dropConnection peer.endpoint) s
    s'.closed = s.closed ∧ s'.listening = s.listening := by
  induction peers generalizing s with
  | nil => exact ⟨rfl, rfl⟩
  | cons peer peers ih => exact ih _

theorem flags_change (s : Socket) (change : Change) :
    (s.closed = true → (s.change change).closed = true) ∧
      ((s.change change).listening = true → s.listening = true ∨ change.gives .accept) := by
  have stale : ∀ s : Socket, s.dropStale.closed = s.closed ∧ s.dropStale.listening = s.listening :=
    fun s => flags_dropConnections _ _
  cases change with
  | addPeer peer => exact ⟨id, Or.inl⟩
  | removePeer peer => exact ⟨id, Or.inl⟩
  | subscribe filter =>
      rw [Socket.change]
      split_ifs <;> exact ⟨id, Or.inl⟩
  | listenAt address => exact ⟨id, fun _ => Or.inr rfl⟩
  | dropStale => exact ⟨fun h => (stale s).1.trans h, fun h => Or.inl ((stale s).2.symm.trans h)⟩
  | disconnect everything =>
      cases everything with
      | false => exact ⟨fun h => (stale s).1.trans h, fun h => Or.inl ((stale s).2.symm.trans h)⟩
      | true =>
          obtain ⟨closed, listening⟩ := stale { s with peers := s.peers.markAllStale }
          exact ⟨fun h => closed.trans h, fun h => Or.inl (listening.symm.trans h)⟩
  | attachDialled key connection =>
      simp only [Socket.change, attachDialled]
      split <;> exact ⟨id, Or.inl⟩
  | attachAccepted key connection =>
      simp only [Socket.change, attachAccepted]
      split <;> exact ⟨id, Or.inl⟩
  | close =>
      simp only [Socket.change, close]
      split
      · exact ⟨id, Or.inl⟩
      · exact ⟨fun _ => rfl, fun listening => by cases listening⟩

theorem runs_of_releases {c : ℕ} (h : Releases c s s') :
    (s'.Runs (.read c) → s.Runs (.read c)) ∧ (s'.Runs (.write c) → s.Runs (.write c)) := by
  refine ⟨?_, ?_⟩
  · rintro ⟨r, hr, reads⟩
    exact ⟨r, h.readers.subset hr, reads⟩
  · rintro (⟨w, hw, live⟩ | ⟨w, hw, live, left⟩)
    · exact Or.inl ⟨w, h.writers.subset hw, live⟩
    · rcases List.mem_append.mp (h.all.subset (List.mem_append_right _ hw)) with before | before
      · exact Or.inl ⟨w, before, live⟩
      · exact Or.inr ⟨w, before, live, left⟩

theorem starts_change (s : Socket) (change : Change) :
    Starts change.gives s (s.change change) := by
  obtain ⟨closed, listening⟩ := flags_change s change
  have spared : ∀ c t, t = .read c ∨ t = .write c → change.Spares c ∨ change.gives t := by
    rintro c t (rfl | rfl)
    all_goals
      cases change with
      | attachDialled key connection => exact (em (connection = c)).symm.imp_right Eq.symm
      | attachAccepted key connection => exact (em (connection = c)).symm.imp_right Eq.symm
      | _ => exact Or.inl trivial
  refine ⟨closed, fun t runs => ?_⟩
  cases t with
  | accept => exact listening runs
  | read c =>
      refine (spared c _ (Or.inl rfl)).imp_left fun spares => ?_
      exact (runs_of_releases (change_releases s spares)).1 runs
  | write c =>
      refine (spared c _ (Or.inr rfl)).imp_left fun spares => ?_
      exact (runs_of_releases (change_releases s spares)).2 runs

/-- A closed socket runs nothing but what it had to finish. -/
theorem runs_close (opened : s.closed = false) (t : Worker) :
    s.close.Runs t ↔ ∃ c, t = .write c ∧ s.Finishes c := by
  rw [close, if_neg (by simp [opened])]
  cases t with
  | accept => simp [Runs]
  | read c => simp [Runs, readersOf]
  | write c => simp [Runs, writersOf, Finishes, drainingOf]

/-! ### Sending, receiving and traffic -/

/-- What lives on in another socket that accepts no more connections and is closed if this is. -/
theorem startsNothing_of_ends (closed : s.closed = true → s'.closed = true)
    (listening : s'.listening = s.listening)
    (reads : ∀ r' ∈ s'.readers, r'.finished = false →
      ∃ r ∈ s.readers, r.connection = r'.connection ∧ r.finished = false)
    (writes : ∀ w' ∈ s'.writers, w'.stopped = false →
      ∃ w ∈ s.writers, w.connection = w'.connection ∧ w.stopped = false)
    (finishes : ∀ w' ∈ s'.draining, w'.stopped = false → w'.isDrained = false →
      ∃ w ∈ s.draining, w.connection = w'.connection ∧ w.stopped = false ∧ w.isDrained = false) :
    StartsNothing s s' := by
  refine ⟨closed, fun t runs => Or.inl ?_⟩
  cases t with
  | accept => exact listening.symm.trans runs
  | read c =>
      obtain ⟨r', hr', live⟩ := runs
      obtain ⟨inside, rfl⟩ : r' ∈ s'.readers ∧ r'.connection = c := by simpa [readersOf] using hr'
      obtain ⟨r, hr, same, live⟩ := reads r' inside live
      exact ⟨r, by simp [readersOf, hr, same], live⟩
  | write c =>
      obtain ⟨w', hw', live⟩ | ⟨w', hw', live, left⟩ := runs
      · obtain ⟨inside, rfl⟩ : w' ∈ s'.writers ∧ w'.connection = c := by simpa [writersOf] using hw'
        obtain ⟨w, hw, same, live⟩ := writes w' inside live
        exact Or.inl ⟨w, by simp [writersOf, hw, same], live⟩
      · obtain ⟨inside, rfl⟩ : w' ∈ s'.draining ∧ w'.connection = c := by
          simpa [drainingOf] using hw'
        obtain ⟨w, hw, same, live, left⟩ := finishes w' inside live left
        exact Or.inr ⟨w, by simp [drainingOf, hw, same], live, left⟩

theorem startsNothing_send (s : Socket) (m : Message) : StartsNothing s (s.send m).1 := by
  obtain ⟨same, -⟩ | ⟨sent, -⟩ := send_eq s m
  · rw [same]
  · rw [sent]
    refine startsNothing_of_ends id rfl (fun r hr live => ⟨r, hr, rfl, live⟩) ?_
      fun w hw live left => ⟨w, hw, rfl, live, left⟩
    intro w' hw' live
    obtain ⟨w, hw, offered⟩ := List.mem_filterMap.mp hw'
    refine ⟨w, hw, ?_⟩
    rcases Writer.afterOffer_eq_some offered with ⟨-, rfl⟩ | ⟨-, rfl⟩ <;> exact ⟨rfl, live⟩

theorem startsNothing_mapWriters (s : Socket) (c : ℕ) {f : Writer → Writer}
    (connection : ∀ w, (f w).connection = w.connection)
    (stopped : ∀ w, (f w).stopped = false → w.stopped = false)
    (drained : ∀ w, (f w).stopped = false → (f w).isDrained = false → w.isDrained = false) :
    StartsNothing s (s.mapWriters c f) := by
  have kept : ∀ w : Writer, let w' := if w.connection = c then f w else w
      w.connection = w'.connection ∧ (w'.stopped = false → w.stopped = false) ∧
        (w'.stopped = false → w'.isDrained = false → w.isDrained = false) := by
    intro w
    dsimp only
    split_ifs
    · exact ⟨(connection w).symm, stopped w, drained w⟩
    · exact ⟨rfl, id, fun _ => id⟩
  refine startsNothing_of_ends id rfl (fun r hr live => ⟨r, hr, rfl, live⟩) ?_ ?_
  · intro w' hw' live
    obtain ⟨w, hw, rfl⟩ := List.mem_map.mp hw'
    obtain ⟨same, stays, -⟩ := kept w
    exact ⟨w, hw, same, stays live⟩
  · intro w' hw' live left
    obtain ⟨w, hw, rfl⟩ := List.mem_map.mp hw'
    obtain ⟨same, stays, unwritten⟩ := kept w
    exact ⟨w, hw, same, stays live, unwritten live left⟩

theorem isDrained_of_write {w : Writer} {n : ℕ} (h : (w.write n).1.isDrained = false) :
    w.isDrained = false := by
  rcases w with ⟨key, connection, capacity, queue, current, spent, stopped⟩
  cases current <;> cases queue <;> simp_all [Writer.write, Writer.pull, Writer.isDrained]

theorem startsNothing_mapReaders (s : Socket) (c : ℕ) {f : Reader → Reader}
    (connection : ∀ r, (f r).connection = r.connection)
    (finished : ∀ r, (f r).finished = false → r.finished = false) :
    StartsNothing s (s.mapReaders c f) := by
  refine startsNothing_of_ends id rfl ?_ (fun w hw live => ⟨w, hw, rfl, live⟩)
    fun w hw live left => ⟨w, hw, rfl, live, left⟩
  intro r' hr' live
  obtain ⟨r, hr, rfl⟩ := List.mem_map.mp hr'
  refine ⟨r, hr, ?_⟩
  split_ifs at live ⊢
  · exact ⟨(connection r).symm, finished r live⟩
  · exact ⟨rfl, live⟩

/-- The reader of a connection passes on the next message. -/
def forwardFrom (s : Socket) (c : ℕ) : Socket :=
  match (s.readersOf c).find? fun r => !r.finished with
  | none => s
  | some r =>
    match r.forward (s.role = .subscriber) s.inbox with
    | (r', inbox, _) => { s.mapReaders c fun _ => r' with inbox }

theorem startsNothing_forwardFrom (s : Socket) (c : ℕ) : StartsNothing s (s.forwardFrom c) := by
  unfold forwardFrom
  split
  · exact .refl _ s
  · next r found =>
      have live : r.finished = false := by simpa using List.find?_some found
      obtain ⟨inside, rfl⟩ : r ∈ s.readers ∧ r.connection = c := by
        simpa [readersOf] using List.mem_of_find?_eq_some found
      have same := r.forward_connection (s.role = .subscriber) s.inbox
      refine startsNothing_of_ends id rfl ?_ (fun w hw live => ⟨w, hw, rfl, live⟩)
        fun w hw live left => ⟨w, hw, rfl, live, left⟩
      intro r' hr' live'
      obtain ⟨other, ho, rfl⟩ := List.mem_map.mp hr'
      split_ifs at live' ⊢
      · exact ⟨r, inside, same.symm, live⟩
      · exact ⟨other, ho, rfl, live'⟩

theorem startsNothing_inbox (s : Socket) (inbox : Inbox) : StartsNothing s { s with inbox } :=
  startsNothing_of_ends id rfl (fun r hr live => ⟨r, hr, rfl, live⟩)
    (fun w hw live => ⟨w, hw, rfl, live⟩) fun w hw live left => ⟨w, hw, rfl, live, left⟩

/-- What happens to a socket besides the calls that wait and the connections that it accepts. -/
inductive Deed where
  | addPeer (peer : NodeAddress)
  | removePeer (peer : NodeAddress)
  | subscribe (filter : Bytes)
  | disconnect (everything : Bool)
  | send (m : Message)
  | close
  /-- Bytes arrive at the reader of a connection. -/
  | arrive (connection : ℕ) (chunk : Bytes)
  /-- The reader of a connection passes on a message. -/
  | forward (connection : ℕ)
  | stopReading (connection : ℕ)
  /-- The writer of a connection puts at most `n` bytes on the wire. -/
  | write (connection n : ℕ)
  | stopWriting (connection : ℕ)

/-- The socket afterwards. -/
def after (s : Socket) : Deed → Socket
  | .addPeer peer => s.change (.addPeer peer)
  | .removePeer peer => s.change (.removePeer peer)
  | .subscribe filter => s.change (.subscribe filter)
  | .disconnect everything => s.change (.disconnect everything)
  | .send m => (s.send m).1
  | .close => s.close
  | .arrive connection chunk => s.mapReaders connection (·.receive chunk)
  | .forward connection => s.forwardFrom connection
  | .stopReading connection => s.mapReaders connection fun r => { r with finished := true }
  | .write connection n => s.mapWriters connection fun w => (w.write n).1
  | .stopWriting connection => s.mapWriters connection Writer.stop

theorem startsNothing_after (s : Socket) (deed : Deed) : StartsNothing s (s.after deed) := by
  cases deed with
  | addPeer peer => exact starts_change s (.addPeer peer)
  | removePeer peer => exact starts_change s (.removePeer peer)
  | subscribe filter => exact starts_change s (.subscribe filter)
  | disconnect everything => exact starts_change s (.disconnect everything)
  | send m => exact startsNothing_send s m
  | close => exact starts_change s .close
  | arrive connection chunk =>
      exact startsNothing_mapReaders s connection (fun _ => rfl) fun _ => id
  | forward connection => exact startsNothing_forwardFrom s connection
  | stopReading connection =>
      exact startsNothing_mapReaders s connection (fun _ => rfl) fun _ => nofun
  | write connection n =>
      exact startsNothing_mapWriters s connection (write_connection · n)
        (fun w live => (write_stopped w n).symm.trans live) fun _ _ => isDrained_of_write
  | stopWriting connection =>
      exact startsNothing_mapWriters s connection (fun _ => rfl) (fun _ => nofun) fun _ => nofun

end Socket
end TreeCluster
