import TreeCluster.Proofs.Transport.Crowd
import TreeCluster.Proofs.Transport.Peers

/-! # Live connections

A socket finds a peer connected if a live connection goes to the endpoint of that peer
(`Socket.live`, `isConnected_iff`).  Peers of different names may share an endpoint, and then they
share its connections.  So to end the connections to stale peers ends those to every endpoint that
a stale peer has, also where a current peer has it too, and no others (`Socket.isStale`,
`sheds_dropStale`, `Sheds.live`).

The peers of a socket are some of those that were added, each of them listed once, whatever happens
while calls connect (`PeerSet.Tidy`, `Crowd.Event.Turns`).  `Crowd.disconnected_of_run` puts this
together. -/

namespace TreeCluster

open Connection

namespace Socket

variable {s s' : Socket}

/-- The links of those ends of connections that are not dead. -/
def alive {α : Type} (link : α → String × ℕ) (dead : α → Bool) (ends : List α) :
    List (String × ℕ) :=
  (ends.filter fun a => !dead a).map link

/-- The connections that are read from, with their endpoints. -/
def reading (s : Socket) : List (String × ℕ) :=
  alive (fun r => (r.key, r.connection)) Reader.finished s.readers

/-- The connections that are written to, with their endpoints. -/
def writing (s : Socket) : List (String × ℕ) :=
  alive (fun w => (w.key, w.connection)) Writer.stopped s.writers

/-- The live connections of a socket that dials, with their endpoints. -/
def live (s : Socket) : List (String × ℕ) :=
  match s.role with
  | .subscriber => s.reading
  | _ => s.writing

/-- Whether a stale peer has the endpoint. -/
def isStale (s : Socket) (key : String) : Bool :=
  s.peers.stale.any fun peer => peer.endpoint = key

theorem mem_alive {α : Type} {link : α → String × ℕ} {dead : α → Bool} {ends : List α}
    {l : String × ℕ} : l ∈ alive link dead ends ↔ ∃ a ∈ ends, dead a = false ∧ link a = l := by
  simp [alive, and_assoc]

theorem mem_reading {l : String × ℕ} :
    l ∈ s.reading ↔ ∃ r ∈ s.readers, r.finished = false ∧ (r.key, r.connection) = l :=
  mem_alive

theorem mem_writing {l : String × ℕ} :
    l ∈ s.writing ↔ ∃ w ∈ s.writers, w.stopped = false ∧ (w.key, w.connection) = l :=
  mem_alive

theorem isConnected_iff {key : String} :
    s.isConnected key = true ↔ ∃ connection, (key, connection) ∈ s.live := by
  cases role : s.role <;>
    simp [isConnected, live, role, mem_reading, mem_writing, and_comm]

/-! ### Connections that end -/

theorem perm_filter_or {α : Type} (p q : α → Bool) (l : List α) :
    (l.filter p ++ (l.filter fun a => !p a).filter q).Perm (l.filter fun a => p a || q a) := by
  have parts := List.filter_append_perm p (l.filter fun a => p a || q a)
  have first : ∀ a, (p a && (p a || q a)) = p a := fun a => by cases p a <;> simp
  have second : ∀ a, (!p a && (p a || q a)) = (q a && !p a) := fun a => by cases p a <;> simp
  simpa only [List.filter_filter, first, second] using parts

/-- Readers to the endpoints of some peers are gone, and writers to them go on only to finish what
is queued. -/
theorem dropConnections_eq (peers : List NodeAddress) (s : Socket) :
    ∃ draining, peers.foldl (fun s peer => s.dropConnection peer.endpoint) s =
        { s with
          readers := s.readers.filter fun r => !peers.any fun peer => peer.endpoint = r.key
          writers := s.writers.filter fun w => !peers.any fun peer => peer.endpoint = w.key
          draining } ∧
      draining.Perm (s.draining ++ s.writers.filter fun w =>
        peers.any fun peer => peer.endpoint = w.key) := by
  induction peers generalizing s with
  | nil => exact ⟨s.draining, by simp, by simp⟩
  | cons peer peers ih =>
      obtain ⟨draining, dropped, moved⟩ := ih (s.dropConnection peer.endpoint)
      refine ⟨draining, ?_, moved.trans ?_⟩
      · rw [List.foldl_cons, dropped]
        simp [dropConnection, List.partition_eq_filter_filter, List.filter_filter, Bool.and_comm,
          eq_comm]
      · have parts := perm_filter_or (fun w : Writer => decide (w.key = peer.endpoint))
          (fun w => peers.any fun peer => peer.endpoint = w.key) s.writers
        simpa [dropConnection, List.partition_eq_filter_filter, eq_comm] using
          parts.append_left s.draining

/-- From `s` to `s'` the connections to the endpoints of stale peers have ended, readers at once and
writers so that they finish what is queued.  The stale peers are forgotten, and nothing else has
changed. -/
structure Sheds (s s' : Socket) : Prop where
  peers : s'.peers = ⟨s.peers.current, []⟩
  readers : s'.readers = s.readers.filter fun r => !s.isStale r.key
  writers : s'.writers = s.writers.filter fun w => !s.isStale w.key
  draining : s'.draining.Perm (s.draining ++ s.writers.filter fun w => s.isStale w.key)
  rest : s' = { s with
    peers := s'.peers, readers := s'.readers, writers := s'.writers, draining := s'.draining }

theorem sheds_dropStale (s : Socket) : Sheds s s.dropStale := by
  obtain ⟨draining, dropped, moved⟩ :=
    dropConnections_eq s.peers.stale { s with peers := ⟨s.peers.current, []⟩ }
  rw [show s.dropStale = _ from dropped]
  exact ⟨rfl, rfl, rfl, moved, rfl⟩

/-- Those connections stay live whose endpoint no stale peer has. -/
theorem Sheds.live (h : Sheds s s') : s'.live = s.live.filter fun l => !s.isStale l.1 := by
  have same : s'.role = s.role := by rw [h.rest]
  cases role : s.role <;>
    simp [Socket.live, reading, writing, alive, same.trans role, role, h.readers, h.writers,
      List.filter_map, List.filter_filter, Function.comp_def, Bool.and_comm]

/-! ### Connections that begin -/

/-- A connection to an endpoint to which there is none is one more. -/
theorem live_attachDialled {key : String} (free : ∀ connection, (key, connection) ∉ s.live)
    (connection : ℕ) :
    (s.attachDialled key connection).live = s.live ++ [(key, connection)] := by
  cases role : s.role
  case subscriber =>
    -- a new reader would take the place of an earlier one to the same endpoint
    have others : ∀ r ∈ s.readers, r.finished = false → r.key ≠ key := by
      rintro r hr reads rfl
      exact free r.connection (by rw [live, role]; exact mem_reading.mpr ⟨r, hr, reads, rfl⟩)
    have kept : s.readers.filter (fun r => !r.finished && !decide (r.key = key)) =
        s.readers.filter fun r => !r.finished :=
      List.filter_congr fun r hr => by cases reads : r.finished <;> simp [others r hr, reads]
    simp [live, reading, alive, attachDialled, attachReader, role, List.filter_filter, kept]
  all_goals
    simp [live, writing, alive, attachDialled, attachWriter, role, List.filter_filter]

end Socket

namespace Crowd

open Socket

variable {c : Crowd}

/-- What an event may do to the peers. -/
inductive Event.Turns (s : PeerSet) : Event → PeerSet → Prop
  | added (peer : NodeAddress) : Turns s (.addPeer peer) (s.add peer).1
  | removed (peer : NodeAddress) : Turns s (.removePeer peer) (s.markStale peer).1
  | same {event : Event} : Turns s event s
  | dropped {event : Event} : Turns s event s.takeStale.1
  | emptied {event : Event} : Turns s event s.markAllStale.takeStale.1

/-- Up to the next point where it waits, a call to connect leaves the peers alone or forgets the
stale ones. -/
theorem turns_settle {call : Call Socket (Except TransportError ℕ)} (dials : Dials call)
    (scene : Call.Scene Socket) {event : Event} {peers : PeerSet}
    (here : scene.value.peers = peers) : event.Turns peers (call.settle scene).1.value.peers := by
  have settled : (call.settle scene).1.value.peers = peers ∨
      (call.settle scene).1.value.peers = peers.takeStale.1 := by
    refine (dials.settle (P := fun s => s.peers = peers ∨ s.peers = peers.takeStale.1)
      (fun s h => Or.inr ?_) (Or.inl here)).1
    rw [peers_dropStale]
    rcases h with same | taken
    · rw [same]
      rfl
    · rw [taken]
      rfl
  rcases settled with same | taken
  · rw [same]
    exact .same
  · rw [taken]
    exact .dropped

theorem Sound.turns (h : c.Sound) (event : Event) :
    event.Turns c.socket.peers (c.apply event).socket.peers := by
  cases event with
  | addPeer peer => exact .added peer
  | removePeer peer => exact .removed peer
  | disconnect everything =>
      cases everything with
      | false =>
          change Event.Turns _ _ c.socket.dropStale.peers
          rw [peers_dropStale]
          exact .dropped
      | true =>
          let s : Socket := { c.socket with peers := c.socket.peers.markAllStale }
          change Event.Turns _ _ s.dropStale.peers
          rw [peers_dropStale]
          exact .emptied
  | send m =>
      change Event.Turns _ _ (c.socket.send m).1.peers
      rw [peers_send]
      exact .same
  | close =>
      change Event.Turns _ _ c.socket.close.peers
      unfold Socket.close
      split <;> exact .same
  | connect => exact turns_settle .connect c.scene rfl
  | connectWithRetry policy => exact turns_settle (.connectWithRetry policy) c.scene rfl
  | answer i connected =>
      obtain same | ⟨call, dials, same | ⟨peer, same⟩⟩ := h.answer_cases i connected <;> rw [same]
      · exact .same
      · exact turns_settle dials c.scene rfl
      · exact turns_settle dials _ (peers_attachDialled c.socket peer.endpoint c.made)
  | wake i =>
      rw [Crowd.apply]
      split
      · next time next found =>
          cases h.calls _ (List.mem_of_getElem? found) with
          | sleep dials => exact turns_settle dials c.scene rfl
      · exact .same
  | write connection n => exact .same
  | stopWriting connection => exact .same
  | stopReading connection => exact .same

theorem Sound.tidy_run (h : c.Sound) {added : List NodeAddress} (tidy : c.socket.peers.Tidy added)
    {events : List Event} (known : ∀ peer, .addPeer peer ∈ events → peer ∈ added) :
    (c.run events).socket.peers.Tidy added := by
  induction events generalizing c with
  | nil => exact tidy
  | cons event events ih =>
      refine ih (h.apply event) ?_ fun peer later => known peer (List.mem_cons_of_mem _ later)
      have turns := h.turns event
      generalize (c.apply event).socket.peers = peers at turns
      cases turns with
      | added peer => exact tidy.add (known peer List.mem_cons_self)
      | removed peer => exact tidy.markStale peer
      | same => exact tidy
      | dropped => exact tidy.takeStale
      | emptied => exact tidy.markAllStale.takeStale

/-- The peers that some events add. -/
def added (events : List Event) : List NodeAddress :=
  events.filterMap fun
    | .addPeer peer => some peer
    | _ => none

theorem mem_added {events : List Event} {peer : NodeAddress} :
    peer ∈ added events ↔ .addPeer peer ∈ events := by
  rw [added, List.mem_filterMap]
  constructor
  · rintro ⟨event, inside, same⟩
    cases event <;> cases same
    exact inside
  · exact fun inside => ⟨_, inside, rfl⟩

/-- **What disconnecting leaves**: whatever happened while calls connected, to end the connections
to stale peers keeps the current peers and empties the stale list.  Those connections end whose
endpoint is that of a stale peer, and no others; readers stop at once, and writers go on to finish
what is queued.  So the connections to a current peer stay unless a stale peer has its endpoint, and
all of them stay if no two of the peers that were ever added share one. -/
theorem disconnected_of_run (role : Role) (options : SocketOptions) (events : List Event) :
    let c := (start (.new role options)).run events
    let s := c.socket
    let s' := (c.apply (.disconnect false)).socket
    s.Sheds s' ∧
    s'.live = s.live.filter (fun l => !s.isStale l.1) ∧
    (∀ peer ∈ s.peers.current, ∀ connection, (peer.endpoint, connection) ∈ s.live →
      ((peer.endpoint, connection) ∈ s'.live ↔
        ∀ other ∈ s.peers.stale, other.endpoint ≠ peer.endpoint)) ∧
    ((∀ peer ∈ added events, ∀ other ∈ added events,
        peer.endpoint = other.endpoint → peer = other) →
      ∀ peer ∈ s.peers.current, ∀ connection, (peer.endpoint, connection) ∈ s.live →
        (peer.endpoint, connection) ∈ s'.live) := by
  intro c s s'
  have tidy : s.peers.Tidy (added events) :=
    (sound_start role options).tidy_run ⟨List.nodup_nil, nofun⟩ fun peer => mem_added.mpr
  have sheds : s.Sheds s' := sheds_dropStale s
  have stays : ∀ peer ∈ s.peers.current, ∀ connection, (peer.endpoint, connection) ∈ s.live →
      ((peer.endpoint, connection) ∈ s'.live ↔
        ∀ other ∈ s.peers.stale, other.endpoint ≠ peer.endpoint) := by
    intro peer current connection inside
    simp [sheds.live, inside, isStale]
  refine ⟨sheds, sheds.live, stays, fun apart peer current connection inside => ?_⟩
  refine (stays peer current connection inside).mpr fun other stale same => ?_
  obtain rfl : other = peer :=
    apart other (tidy.known (List.mem_append_right _ stale)) peer
      (tidy.known (List.mem_append_left _ current)) same
  exact List.disjoint_of_nodup_append tidy.nodup current stale

/-- Two peers of different names share an endpoint, and so one connection.  One of them is removed,
and to end the connections to stale peers ends this one too: no message reaches the other any
more. -/
theorem exists_current_dropped :
    let gone : NodeAddress := ⟨"a", "h", 1⟩
    let stays : NodeAddress := ⟨"b", "h", 1⟩
    let events := [.addPeer gone, .addPeer stays, .connect, .answer 0 true, .removePeer gone]
    let sender := (start (.new .sender {})).run events
    let subscriber := (start (.new .subscriber {})).run events
    (∀ c ∈ [sender, subscriber], c.socket.peers = ⟨[stays], [gone]⟩ ∧
      c.socket.live = [(stays.endpoint, 0)] ∧
      (c.apply (.disconnect false)).socket.peers = ⟨[stays], []⟩ ∧
      (c.apply (.disconnect false)).socket.live = []) ∧
    (sender.socket.send (.new .undefined .probe 0)).2 = .ok 1 ∧
    ((sender.apply (.disconnect false)).socket.send (.new .undefined .probe 0)).2 =
      .error .noPeers := by
  decide +kernel

end Crowd
end TreeCluster
