import TreeCluster.Proofs.Transport.Ends
import TreeCluster.Proofs.Transport.Sending

/-! # Connections to listed peers

A socket can end a connection as long as the endpoint that it dialled is that of a current or of
a stale peer (`Socket.lists`).  Adding and removing peers, sending, and the tasks of connections
keep every connection listed, and ending the connections to stale peers leaves none to their
endpoints (`Listed.dropStale`, `mem_links_dropStale`).  Taking over a connection does so if its
endpoint is listed at that time (`Listed.attachDialled`). -/

namespace TreeCluster.Socket

open Connection

/-- Whether a current or stale peer has the endpoint. -/
def lists (s : Socket) (key : String) : Bool :=
  (s.peers.current ++ s.peers.stale).any fun peer => peer.endpoint = key

/-- The connections of a socket that are read from or take messages, with their endpoints. -/
def links (s : Socket) : List (String × ℕ) :=
  (s.readers.map fun r => (r.key, r.connection)) ++ s.writers.map fun w => (w.key, w.connection)

/-- Every connection but the strays goes to an endpoint that is listed. -/
def Listed (s : Socket) (strays : List ℕ) : Prop :=
  ∀ l ∈ s.links, s.lists l.1 = true ∨ l.2 ∈ strays

variable {s s' : Socket} {strays : List ℕ}

theorem mem_links {l : String × ℕ} :
    l ∈ s.links ↔ (∃ r ∈ s.readers, (r.key, r.connection) = l) ∨
      ∃ w ∈ s.writers, (w.key, w.connection) = l := by
  simp [links]

theorem lists_iff {key : String} :
    s.lists key = true ↔
      ∃ peer, (peer ∈ s.peers.current ∨ peer ∈ s.peers.stale) ∧ peer.endpoint = key := by
  simp [lists, or_and_right, exists_or]

theorem Listed.of_subset (h : Listed s strays) (links : s'.links ⊆ s.links)
    (lists : ∀ key, s.lists key = true → s'.lists key = true) : Listed s' strays :=
  fun l hl => (h l (links hl)).imp_left (lists l.1)

theorem Listed.mono {more : List ℕ} (h : Listed s strays) (subset : strays ⊆ more) :
    Listed s more :=
  fun l hl => (h l hl).imp_right (subset ·)

/-- A message is queued for listed peers and strays alone. -/
theorem Listed.of_mem_takers (h : Listed s strays) {m : Message} {w : Writer}
    (hw : w ∈ s.takers m) : s.lists w.key = true ∨ w.connection ∈ strays :=
  h (w.key, w.connection) (mem_links.mpr (Or.inr ⟨w, (takes_of_mem_takers hw).1, rfl⟩))

theorem listed_new (role : Role) (options : SocketOptions) (strays : List ℕ) :
    Listed (new role options) strays :=
  nofun

/-! ### Peers -/

theorem lists_addPeer (s : Socket) (peer : NodeAddress) {key : String} (h : s.lists key = true) :
    (s.addPeer peer).1.lists key = true := by
  obtain ⟨other, listed, rfl⟩ := lists_iff.mp h
  refine lists_iff.mpr ⟨other, ?_, rfl⟩
  simp only [addPeer, PeerSet.add]
  by_cases same : other = peer
  · subst same
    split_ifs with current
    · exact Or.inl (by simpa [PeerSet.isCurrent] using current)
    · exact Or.inl (by simp)
  · split_ifs
    · simpa [same] using listed
    · simpa [same] using listed

theorem lists_removePeer (s : Socket) (peer : NodeAddress) {key : String} (h : s.lists key = true) :
    (s.removePeer peer).1.lists key = true := by
  obtain ⟨other, listed, rfl⟩ := lists_iff.mp h
  refine lists_iff.mpr ⟨other, ?_, rfl⟩
  simp only [removePeer, PeerSet.markStale]
  split_ifs
  · by_cases same : other = peer
    · simp [same]
    · simpa [same] using listed
  · exact listed

theorem mem_stale_removePeer {peer : NodeAddress}
    (h : peer ∈ s.peers.current ∨ peer ∈ s.peers.stale) :
    peer ∈ (s.removePeer peer).1.peers.stale := by
  by_cases current : peer ∈ s.peers.current
  · simp [removePeer, PeerSet.markStale, PeerSet.isCurrent, current]
  · simpa [removePeer, PeerSet.markStale, PeerSet.isCurrent, current] using h

theorem Listed.addPeer (h : Listed s strays) (peer : NodeAddress) :
    Listed (s.addPeer peer).1 strays :=
  h.of_subset (List.Subset.refl _) fun _ => lists_addPeer s peer

theorem Listed.removePeer (h : Listed s strays) (peer : NodeAddress) :
    Listed (s.removePeer peer).1 strays :=
  h.of_subset (List.Subset.refl _) fun _ => lists_removePeer s peer

/-! ### Connections that end -/

theorem mem_links_dropConnection {key : String} {l : String × ℕ} :
    l ∈ (s.dropConnection key).links ↔ l ∈ s.links ∧ l.1 ≠ key := by
  obtain ⟨endpoint, number⟩ := l
  simp only [mem_links, dropConnection, List.partition_eq_filter_filter, List.mem_filter]
  constructor
  · rintro (⟨r, ⟨hr, other⟩, same⟩ | ⟨w, ⟨hw, other⟩, same⟩)
    · exact ⟨Or.inl ⟨r, hr, same⟩, by simp_all⟩
    · exact ⟨Or.inr ⟨w, hw, same⟩, by simp_all⟩
  · rintro ⟨⟨r, hr, same⟩ | ⟨w, hw, same⟩, other⟩
    · exact Or.inl ⟨r, ⟨hr, by simp_all⟩, same⟩
    · exact Or.inr ⟨w, ⟨hw, by simp_all⟩, same⟩

theorem mem_links_dropConnections {peers : List NodeAddress} {l : String × ℕ} :
    l ∈ (peers.foldl (fun s peer => s.dropConnection peer.endpoint) s).links ↔
      l ∈ s.links ∧ ∀ peer ∈ peers, l.1 ≠ peer.endpoint := by
  induction peers generalizing s with
  | nil => simp
  | cons peer peers ih => simp [ih, mem_links_dropConnection, and_assoc]

theorem peers_dropConnections (peers : List NodeAddress) (s : Socket) :
    (peers.foldl (fun s peer => s.dropConnection peer.endpoint) s).peers = s.peers := by
  induction peers generalizing s with
  | nil => rfl
  | cons peer peers ih => exact ih _

theorem peers_dropStale (s : Socket) : s.dropStale.peers = ⟨s.peers.current, []⟩ :=
  peers_dropConnections _ _

/-- The connections to stale peers end. -/
theorem mem_links_dropStale {l : String × ℕ} :
    l ∈ s.dropStale.links ↔ l ∈ s.links ∧ ∀ peer ∈ s.peers.stale, l.1 ≠ peer.endpoint :=
  mem_links_dropConnections

theorem Listed.dropStale (h : Listed s strays) : Listed s.dropStale strays := by
  intro l hl
  obtain ⟨inside, fresh⟩ := mem_links_dropStale.mp hl
  refine (h l inside).imp_left fun listed => ?_
  obtain ⟨peer, current | stale, same⟩ := lists_iff.mp listed
  · exact lists_iff.mpr ⟨peer, Or.inl (by rwa [peers_dropStale]), same⟩
  · exact absurd same.symm (fresh peer stale)

theorem Listed.disconnect (h : Listed s strays) (everything : Bool) :
    Listed (s.disconnect everything) strays := by
  cases everything with
  | false => exact h.dropStale
  | true => exact nofun

theorem Listed.close (h : Listed s strays) : Listed s.close strays := by
  unfold Socket.close
  split
  · exact h
  · exact nofun

/-! ### Sending and tasks -/

theorem Listed.send (h : Listed s strays) (m : Message) : Listed (s.send m).1 strays := by
  obtain ⟨same, -⟩ | ⟨sent, -⟩ := send_eq s m
  · rwa [same]
  · rw [sent]
    refine h.of_subset ?_ fun _ => id
    intro l hl
    obtain reads | ⟨w', hw', rfl⟩ := mem_links.mp hl
    · exact mem_links.mpr (Or.inl reads)
    · obtain ⟨w, hw, offered⟩ := List.mem_filterMap.mp hw'
      refine mem_links.mpr (Or.inr ⟨w, hw, ?_⟩)
      rcases Writer.afterOffer_eq_some offered with ⟨-, rfl⟩ | ⟨-, rfl⟩ <;> rfl

theorem write_same (w : Writer) (n : ℕ) :
    ((w.write n).1.key, (w.write n).1.connection) = (w.key, w.connection) := by
  simp only [Writer.write, Writer.pull]
  split <;> rfl

theorem links_mapWriters {c : ℕ} {f : Writer → Writer}
    (same : ∀ w, ((f w).key, (f w).connection) = (w.key, w.connection)) :
    (s.mapWriters c f).links = s.links := by
  simp only [links, mapWriters, List.map_map]
  congr 1
  refine List.map_congr_left fun w _ => ?_
  simp only [Function.comp]
  split
  · exact same w
  · rfl

theorem links_mapReaders {c : ℕ} {f : Reader → Reader}
    (same : ∀ r, ((f r).key, (f r).connection) = (r.key, r.connection)) :
    (s.mapReaders c f).links = s.links := by
  simp only [links, mapReaders, List.map_map]
  congr 1
  refine List.map_congr_left fun r _ => ?_
  simp only [Function.comp]
  split
  · exact same r
  · rfl

theorem Listed.mapWriters (h : Listed s strays) {c : ℕ} {f : Writer → Writer}
    (same : ∀ w, ((f w).key, (f w).connection) = (w.key, w.connection)) :
    Listed (s.mapWriters c f) strays := by
  rw [Listed, links_mapWriters same]
  exact h

theorem Listed.mapReaders (h : Listed s strays) {c : ℕ} {f : Reader → Reader}
    (same : ∀ r, ((f r).key, (f r).connection) = (r.key, r.connection)) :
    Listed (s.mapReaders c f) strays := by
  rw [Listed, links_mapReaders same]
  exact h

/-! ### Connections that begin -/

theorem peers_attachDialled (s : Socket) (key : String) (connection : ℕ) :
    (s.attachDialled key connection).peers = s.peers := by
  unfold attachDialled
  split <;> rfl

/-- Nothing but the connection that is taken over is new. -/
theorem links_attachDialled (s : Socket) (key : String) (connection : ℕ) :
    (s.attachDialled key connection).links ⊆ (key, connection) :: s.links := by
  intro l hl
  unfold attachDialled at hl
  split at hl
  · obtain ⟨r, hr, rfl⟩ | writes := mem_links.mp hl
    · rcases List.mem_append.mp hr with hr | hr
      · exact List.mem_cons_of_mem _
          (mem_links.mpr (Or.inl ⟨r, List.mem_of_mem_filter hr, rfl⟩))
      · rw [List.mem_singleton.mp hr]
        exact List.mem_cons_self
    · exact List.mem_cons_of_mem _ (mem_links.mpr (Or.inr writes))
  · obtain reads | ⟨w, hw, rfl⟩ := mem_links.mp hl
    · exact List.mem_cons_of_mem _ (mem_links.mpr (Or.inl reads))
    · rcases List.mem_append.mp hw with hw | hw
      · exact List.mem_cons_of_mem _
          (mem_links.mpr (Or.inr ⟨w, List.mem_of_mem_filter hw, rfl⟩))
      · rw [List.mem_singleton.mp hw]
        exact List.mem_cons_self

theorem Listed.attachDialled (h : Listed s strays) {key : String} {connection : ℕ}
    (known : s.lists key = true ∨ connection ∈ strays) :
    Listed (s.attachDialled key connection) strays := by
  intro l hl
  rw [lists, peers_attachDialled]
  rcases List.mem_cons.mp (links_attachDialled s key connection hl) with rfl | before
  · exact known
  · exact h l before

end TreeCluster.Socket
