import Mathlib
import TreeCluster.Transport.Socket

/-! # The ends of a connection

A socket may hold a writer or a reader for a connection, and its other calls and its other
connections bring it neither of them: what they leave of the ends of a connection, they found
(`Releases`, `change_releases`).  They take nothing out of the inbox and put nothing in. -/

namespace TreeCluster.Socket

open Connection

/-- The writers of a connection that take messages. -/
def writersOf (s : Socket) (c : ℕ) : List Writer :=
  s.writers.filter fun w => w.connection = c

/-- The writers of a connection that was dropped. -/
def drainingOf (s : Socket) (c : ℕ) : List Writer :=
  s.draining.filter fun w => w.connection = c

/-- The readers of a connection. -/
def readersOf (s : Socket) (c : ℕ) : List Reader :=
  s.readers.filter fun r => r.connection = c

/-- Changes the writers of a connection. -/
def mapWriters (s : Socket) (c : ℕ) (f : Writer → Writer) : Socket :=
  { s with
    writers := s.writers.map fun w => if w.connection = c then f w else w
    draining := s.draining.map fun w => if w.connection = c then f w else w }

/-- Changes the readers of a connection. -/
def mapReaders (s : Socket) (c : ℕ) (f : Reader → Reader) : Socket :=
  { s with readers := s.readers.map fun r => if r.connection = c then f r else r }

/-- What happens to a socket besides sending, receiving and the traffic on a connection. -/
inductive Change where
  | addPeer (peer : NodeAddress)
  | removePeer (peer : NodeAddress)
  | subscribe (filter : Bytes)
  | listenAt (address : NodeAddress)
  | dropStale
  | disconnect (everything : Bool)
  | attachDialled (key : String) (connection : ℕ)
  | attachAccepted (key : String) (connection : ℕ)
  | close

/-- The socket after a change.  Only subscribers can be given a filter. -/
def change (s : Socket) : Change → Socket
  | .addPeer peer => (s.addPeer peer).1
  | .removePeer peer => (s.removePeer peer).1
  | .subscribe filter => if s.role = .subscriber then s.subscribe filter else s
  | .listenAt address => s.listenAt address
  | .dropStale => s.dropStale
  | .disconnect everything => s.disconnect everything
  | .attachDialled key connection => s.attachDialled key connection
  | .attachAccepted key connection => s.attachAccepted key connection
  | .close => s.close

/-- The connection that a change brings is another one. -/
def Change.Spares (c : ℕ) : Change → Prop
  | .attachDialled _ connection => connection ≠ c
  | .attachAccepted _ connection => connection ≠ c
  | _ => True

/-- From `s` to `s'` the socket got no new end of connection `c` and no message. -/
structure Releases (c : ℕ) (s s' : Socket) : Prop where
  writers : (s'.writersOf c).Sublist (s.writersOf c)
  all : (s'.writersOf c ++ s'.drainingOf c).Subperm (s.writersOf c ++ s.drainingOf c)
  readers : (s'.readersOf c).Sublist (s.readersOf c)
  inbox : s'.inbox = s.inbox
  role : s'.role = s.role
  filter : s.role ≠ .subscriber → s'.filter = s.filter

variable {c : ℕ} {s s₁ s₂ : Socket}

@[refl] theorem Releases.refl (c : ℕ) (s : Socket) : Releases c s s :=
  ⟨List.Sublist.refl _, List.Subperm.refl _, List.Sublist.refl _, rfl, rfl, fun _ => rfl⟩

theorem Releases.trans (h₁ : Releases c s s₁) (h₂ : Releases c s₁ s₂) : Releases c s s₂ where
  writers := h₂.writers.trans h₁.writers
  all := h₂.all.trans h₁.all
  readers := h₂.readers.trans h₁.readers
  inbox := h₂.inbox.trans h₁.inbox
  role := h₂.role.trans h₁.role
  filter h := (h₂.filter (h₁.role ▸ h)).trans (h₁.filter h)

theorem releases_peers (c : ℕ) (s : Socket) (peers : PeerSet) : Releases c s { s with peers } :=
  ⟨List.Sublist.refl _, List.Subperm.refl _, List.Sublist.refl _, rfl, rfl, fun _ => rfl⟩

/-! ### Connections that end -/

/-- The writers to an endpoint move to those that finish what is queued. -/
theorem releases_dropConnection (c : ℕ) (s : Socket) (key : String) :
    Releases c s (s.dropConnection key) where
  writers := by
    simp only [writersOf, dropConnection, List.partition_eq_filter_filter]
    exact List.filter_sublist.filter _
  all := by
    simp only [writersOf, drainingOf, dropConnection, List.partition_eq_filter_filter,
      List.filter_append]
    have parts := (List.filter_append_perm (fun w => decide (w.key = key)) s.writers).filter
      fun w => decide (w.connection = c)
    rw [List.filter_append] at parts
    have inner := (List.perm_append_comm.trans parts).append_right
      (s.draining.filter fun w => decide (w.connection = c))
    rw [List.append_assoc] at inner
    simpa using ((List.perm_append_comm.append_left _).trans inner).subperm
  readers := List.filter_sublist.filter _
  inbox := rfl
  role := rfl
  filter _ := rfl

theorem releases_dropConnections (c : ℕ) (keys : List NodeAddress) (s : Socket) :
    Releases c s (keys.foldl (fun s peer => s.dropConnection peer.endpoint) s) := by
  induction keys generalizing s with
  | nil => exact .refl c s
  | cons key keys ih => exact (releases_dropConnection c s key.endpoint).trans (ih _)

theorem releases_dropStale (c : ℕ) (s : Socket) : Releases c s s.dropStale :=
  (releases_peers c s _).trans (releases_dropConnections c _ _)

theorem releases_dropAll (c : ℕ) (s : Socket) :
    Releases c s { s with readers := [], writers := [], draining := s.draining ++ s.writers } where
  writers := List.nil_sublist _
  all := by
    simp only [writersOf, drainingOf, List.filter_append, List.filter_nil, List.nil_append]
    exact List.perm_append_comm.subperm
  readers := List.nil_sublist _
  inbox := rfl
  role := rfl
  filter _ := rfl

theorem releases_disconnect (c : ℕ) (s : Socket) (everything : Bool) :
    Releases c s (s.disconnect everything) := by
  cases everything with
  | false => exact releases_dropStale c s
  | true =>
      exact ((releases_peers c s _).trans (releases_dropStale c _)).trans (releases_dropAll c _)

theorem releases_close (c : ℕ) (s : Socket) : Releases c s s.close := by
  unfold close
  split
  · exact .refl c s
  · exact ⟨List.nil_sublist _, (List.sublist_append_right _ _).subperm, List.nil_sublist _, rfl,
      rfl, fun _ => rfl⟩

/-! ### Connections that begin -/

theorem releases_attachWriter {c : ℕ} (s : Socket) (key : String) {connection : ℕ}
    (h : connection ≠ c) : Releases c s (s.attachWriter key connection) := by
  have fewer : ((s.attachWriter key connection).writersOf c).Sublist (s.writersOf c) := by
    simp only [writersOf, attachWriter, List.filter_append]
    simpa [h] using List.filter_sublist.filter _
  exact ⟨fewer, (fewer.append_right _).subperm, List.Sublist.refl _, rfl, rfl, fun _ => rfl⟩

theorem releases_attachReader {c : ℕ} (s : Socket) (key : String) {connection : ℕ}
    (h : connection ≠ c) : Releases c s (s.attachReader key connection) := by
  have fewer : ((s.attachReader key connection).readersOf c).Sublist (s.readersOf c) := by
    simp only [readersOf, attachReader, List.filter_append]
    simpa [h] using List.filter_sublist.filter _
  exact ⟨List.Sublist.refl _, List.Subperm.refl _, fewer, rfl, rfl, fun _ => rfl⟩

theorem releases_attachDialled {c : ℕ} (s : Socket) (key : String) {connection : ℕ}
    (h : connection ≠ c) : Releases c s (s.attachDialled key connection) := by
  unfold attachDialled
  split
  · exact releases_attachReader s key h
  · exact releases_attachWriter s key h

theorem releases_attachAccepted {c : ℕ} (s : Socket) (key : String) {connection : ℕ}
    (h : connection ≠ c) : Releases c s (s.attachAccepted key connection) := by
  unfold attachAccepted
  split
  · exact releases_attachWriter s key h
  · exact releases_attachReader s key h

/-- A change that brings another connection, or none, leaves the ends of this one alone or ends
them. -/
theorem change_releases {c : ℕ} (s : Socket) {change : Change} (h : change.Spares c) :
    Releases c s (s.change change) := by
  cases change with
  | addPeer peer => exact releases_peers c s _
  | removePeer peer => exact releases_peers c s _
  | subscribe filter =>
      by_cases subscribes : s.role = .subscriber
      · rw [Socket.change, if_pos subscribes]
        exact ⟨List.Sublist.refl _, List.Subperm.refl _, List.Sublist.refl _, rfl, rfl,
          fun other => absurd subscribes other⟩
      · rw [Socket.change, if_neg subscribes]
  | listenAt address =>
      exact ⟨List.Sublist.refl _, List.Subperm.refl _, List.Sublist.refl _, rfl, rfl, fun _ => rfl⟩
  | dropStale => exact releases_dropStale c s
  | disconnect everything => exact releases_disconnect c s everything
  | attachDialled key connection => exact releases_attachDialled s key h
  | attachAccepted key connection => exact releases_attachAccepted s key h
  | close => exact releases_close c s

end TreeCluster.Socket
