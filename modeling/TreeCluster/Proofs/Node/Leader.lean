import TreeCluster.Node
import TreeCluster.Proofs.Transport.Ensures

/-! # Whom leader traffic reaches

A node sends to its leader through its sender, whose only current peer is the receiver of the
leader (`ClusterNode.Follows`).  Messages are queued on connections to that receiver, and on those
to peers that are stale: setting a leader ends the latter only when it comes to connect the
sender, so if the subscriber cannot connect, the connection to the previous leader's receiver
stays (`exists_taker_of_previous`).  When a leader is set successfully, no peer of the sender is
stale (`sendsTo_of_performAll`). -/

namespace TreeCluster.ClusterNode

open Call Connection Socket

/-- The sender's current peer is the receiver of the leader, and its connections go to the
endpoints of its peers. -/
structure Follows (n : ClusterNode) : Prop where
  idle : n.leader = none → n.sender.peers.current = []
  receiver : ∀ leader, n.leader = some leader →
    ∃ receiver, leader.receiverAddress = .ok receiver ∧ n.sender.peers.current = [receiver]
  listed : n.sender.Listed []

variable {n : ClusterNode}

theorem Follows.setSubscriber (h : n.Follows) (s : Socket) : (n.setSocket .subscriber s).Follows :=
  ⟨h.idle, h.receiver, h.listed⟩

theorem Follows.setSender (h : n.Follows) {s : Socket}
    (current : s.peers.current = n.sender.peers.current) (listed : s.Listed []) :
    (n.setSocket .sender s).Follows where
  idle none := current.trans (h.idle none)
  receiver leader some := by
    obtain ⟨receiver, address, only⟩ := h.receiver leader some
    exact ⟨receiver, address, current.trans only⟩
  listed := listed

/-- A node can be made of a valid configuration and a path to an address that leaves room for the
receiver's port. -/
theorem exists_new {fresh : String} {path : NodePath} {config : TransportConfig}
    (address receiver : NodeAddress) (valid : config.validate = .ok ())
    (node : path.node fresh = .ok address) (receives : address.receiverAddress = .ok receiver) :
    ∃ n, new fresh path config = .ok n := by
  simp only [new, valid, node, receives, Except.mapError, Bind.bind, Except.bind, Pure.pure,
    Except.pure]
  exact ⟨_, rfl⟩

theorem idle_of_new {fresh : String} {path : NodePath} {config : TransportConfig}
    (h : new fresh path config = .ok n) :
    n.leader = none ∧ ∃ options filter, n.sender = .new .sender options ∧
      n.subscriber = (Socket.new .subscriber options).subscribe filter := by
  simp only [new, Bind.bind, Except.bind, Pure.pure, Except.pure] at h
  repeat' split at h
  all_goals cases h
  exact ⟨rfl, _, _, rfl, rfl⟩

theorem follows_new {fresh : String} {path : NodePath} {config : TransportConfig}
    (h : new fresh path config = .ok n) : n.Follows := by
  obtain ⟨none, options, filter, sender, -⟩ := idle_of_new h
  refine ⟨fun _ => ?_, fun leader some => ?_, ?_⟩
  · rw [sender]
    rfl
  · cases none.symm.trans some
  · rw [sender]
    exact listed_new _ _ _

theorem Follows.clearLeader (n : ClusterNode) : n.clearLeader.Follows := by
  refine ⟨fun _ => ?_, nofun, nofun⟩
  exact congrArg PeerSet.current (peers_dropStale _)

theorem current_addPeer {s : Socket} {peer : NodeAddress}
    (h : s.peers.current = [] ∨ s.peers.current = [peer]) :
    (s.addPeer peer).1.peers.current = [peer] := by
  rcases h with h | h <;> simp [addPeer, PeerSet.add, PeerSet.isCurrent, h]

theorem current_removePeer {s : Socket} {peer : NodeAddress} (h : s.peers.current = [peer]) :
    (s.removePeer peer).1.peers.current = [] := by
  simp [removePeer, PeerSet.markStale, PeerSet.isCurrent, h]

/-- A new leader and its receiver become peers; if there was another leader, the peers towards
that one are removed before. -/
theorem replaceLeader_cases (n : ClusterNode) (leader receiver : NodeAddress)
    (known : ∀ previous, n.leader = some previous →
      ∃ old, previous.receiverAddress = .ok old) :
    (n.leader = none ∨ n.leader = some leader) ∧
      n.replaceLeader leader receiver =
        { n with
          leader := some leader
          subscriber := (n.subscriber.addPeer leader).1
          sender := (n.sender.addPeer receiver).1 } ∨
    ∃ previous old, n.leader = some previous ∧ previous.receiverAddress = .ok old ∧
      n.replaceLeader leader receiver =
        { n with
          leader := some leader
          subscriber := ((n.subscriber.removePeer previous).1.addPeer leader).1
          sender := ((n.sender.removePeer old).1.addPeer receiver).1 } := by
  cases hl : n.leader with
  | none => exact Or.inl ⟨Or.inl rfl, by simp [replaceLeader, hl]⟩
  | some previous =>
      by_cases same : previous = leader
      · subst same
        exact Or.inl ⟨Or.inr rfl, by simp [replaceLeader, hl]⟩
      · obtain ⟨old, address⟩ := known previous hl
        exact Or.inr ⟨previous, old, rfl, address, by simp [replaceLeader, hl, same, address]⟩

/-- A new leader's receiver takes the place of the previous one's. -/
theorem Follows.replaceLeader (h : n.Follows) {leader receiver : NodeAddress}
    (address : leader.receiverAddress = .ok receiver) :
    (n.replaceLeader leader receiver).Follows := by
  have follows : ∀ s t : Socket, t.peers.current = [] ∨ t.peers.current = [receiver] →
      t.Listed [] →
      Follows
        { n with leader := some leader, subscriber := s, sender := (t.addPeer receiver).1 } := by
    intro s t current listed
    refine ⟨nofun, fun other some => ?_, listed.addPeer receiver⟩
    obtain rfl := Option.some.inj some
    exact ⟨receiver, address, current_addPeer current⟩
  obtain ⟨same, replaced⟩ | ⟨previous, old, led, known, replaced⟩ :=
    n.replaceLeader_cases leader receiver fun previous led =>
      (h.receiver previous led).imp fun _ => And.left
  · rw [replaced]
    refine follows _ _ ?_ h.listed
    rcases same with none | some
    · exact Or.inl (h.idle none)
    · obtain ⟨other, known, only⟩ := h.receiver leader some
      obtain rfl := Except.ok.inj (known.symm.trans address)
      exact Or.inr only
  · rw [replaced]
    obtain ⟨other, found, only⟩ := h.receiver previous led
    obtain rfl := Except.ok.inj (found.symm.trans known)
    exact follows _ _ (Or.inl (current_removePeer only)) (h.listed.removePeer other)

theorem part_socket (role : Role) :
    Part (fun n : ClusterNode => n.socket role) fun s n => n.setSocket role s where
  get_set s n := socket_setSocket_self n role s
  set_set s s' n := by cases role <;> rfl
  set_get n := by cases role <;> rfl

/-- What setting a leader leaves: the sender follows the leader, and if the call succeeded, no
peer of the sender is stale. -/
structure Led (leader : NodeAddress) (answer : Except ClusterError Unit) (n : ClusterNode) :
    Prop where
  follows : n.Follows
  leader : n.leader = some leader
  stale : answer = .ok () → n.sender.peers.stale = []

theorem setLeader_ensures (h : n.Follows) {fresh : String} {path : NodePath} {leader : NodeAddress}
    (node : path.node fresh = .ok leader) {receiver : NodeAddress}
    (address : leader.receiverAddress = .ok receiver) :
    (setLeader fresh path).Ensures (Led leader) n := by
  have follows := h.replaceLeader address
  have named : (n.replaceLeader leader receiver).leader = some leader := rfl
  simp only [setLeader, node, address]
  rw [Call.Ensures, Call.Ensures]
  refine .bind (.within (part_socket .subscriber) ?_)
  refine (connectWithRetry_ensures _ _).mono ?_
  rintro (e | made) subscriber -
  · exact ⟨follows.setSubscriber subscriber, named, fun ok => by cases ok⟩
  · refine .bind (.within (part_socket .sender) ?_)
    refine (connectWithRetry_ensures _ _).mono ?_
    rintro answer sender connected
    have sends := (follows.setSubscriber subscriber).setSender connected.current
      (connected.listed follows.listed)
    cases answer with
    | error e => exact ⟨sends, named, fun ok => by cases ok⟩
    | ok made =>
        exact ⟨sends, named, fun _ => connected.stale.resolve_left fun closed => by cases closed⟩

/-! ### Runs -/

/-- What a node is told to do, and what happens to the connections of its sender. -/
inductive Op where
  | setLeader (fresh : String) (path : NodePath)
  | clearLeader
  | send (m : Message)
  | write (connection n : ℕ)
  | stopWriting (connection : ℕ)

/-- The node after something has happened to its sender. -/
def atSender (n : ClusterNode) (f : Socket → Socket) : ClusterNode :=
  { n with sender := f n.sender }

/-- A node alone with its answers to come, after one operation. -/
def perform (w : Alone ClusterNode) : Op → Alone ClusterNode
  | .setLeader fresh path => ((setLeader fresh path).run alone w).1
  | .clearLeader => { w with value := w.value.clearLeader }
  | .send m => { w with value := (w.value.sendToLeader m).1 }
  | .write connection n =>
    { w with value := w.value.atSender (·.mapWriters connection fun w => (w.write n).1) }
  | .stopWriting connection =>
    { w with value := w.value.atSender (·.mapWriters connection Writer.stop) }

/-- The node after some operations. -/
def performAll (w : Alone ClusterNode) (ops : List Op) : Alone ClusterNode :=
  ops.foldl perform w

theorem run_setLeader (w : Alone ClusterNode) (h : w.value.Follows) (fresh : String)
    (path : NodePath) :
    ∃ answer, ((setLeader fresh path).run alone w).2.result? = some answer ∧
      ((setLeader fresh path).run alone w).1.value.Follows ∧
      (answer = .ok () → ∃ leader, path.node fresh = .ok leader ∧
        Led leader answer ((setLeader fresh path).run alone w).1.value) := by
  cases node : path.node fresh with
  | error e =>
      simp only [setLeader, node]
      exact ⟨_, rfl, h, nofun⟩
  | ok leader =>
      cases address : leader.receiverAddress with
      | error e =>
          simp only [setLeader, node, address]
          exact ⟨_, rfl, h, nofun⟩
      | ok receiver =>
          obtain ⟨answer, ended, set⟩ := (setLeader_ensures h node address).run
          exact ⟨answer, ended, set.follows, fun _ => ⟨leader, rfl, set⟩⟩

theorem Follows.send (h : n.Follows) (m : Message) : (n.sendToLeader m).1.Follows := by
  unfold sendToLeader
  split_ifs
  · exact h
  · refine h.setSender ?_ (h.listed.send m)
    exact congrArg PeerSet.current (peers_send n.sender m)

theorem Follows.perform {w : Alone ClusterNode} (h : w.value.Follows) (op : Op) :
    (ClusterNode.perform w op).value.Follows := by
  cases op with
  | setLeader fresh path =>
      obtain ⟨-, -, follows, -⟩ := run_setLeader w h fresh path
      exact follows
  | clearLeader => exact Follows.clearLeader w.value
  | send m => exact h.send m
  | write connection n =>
      exact h.setSender (s := w.value.sender.mapWriters connection fun w => (w.write n).1) rfl
        (h.listed.mapWriters (write_same · n))
  | stopWriting connection =>
      exact h.setSender (s := w.value.sender.mapWriters connection Writer.stop) rfl
        (h.listed.mapWriters fun _ => rfl)

theorem Follows.performAll {w : Alone ClusterNode} (h : w.value.Follows) (ops : List Op) :
    (ClusterNode.performAll w ops).value.Follows := by
  induction ops generalizing w with
  | nil => exact h
  | cons op ops ih => exact ih (h.perform op)

/-- Nothing but setting a leader makes a peer of the sender stale. -/
theorem stale_performAll {w : Alone ClusterNode} (h : w.value.sender.peers.stale = [])
    {ops : List Op} (quiet : ∀ fresh path, .setLeader fresh path ∉ ops) :
    (performAll w ops).value.sender.peers.stale = [] := by
  induction ops generalizing w with
  | nil => exact h
  | cons op ops ih =>
      refine ih ?_ fun fresh path inside => quiet fresh path (List.mem_cons_of_mem _ inside)
      cases op with
      | setLeader fresh path => exact absurd List.mem_cons_self (quiet fresh path)
      | clearLeader => exact congrArg PeerSet.stale (peers_dropStale _)
      | send m =>
          simp only [perform, sendToLeader]
          split_ifs
          · exact h
          · exact (congrArg PeerSet.stale (peers_send w.value.sender m)).trans h
      | write connection n => exact h
      | stopWriting connection => exact h

/-- While there is a leader, messages are queued for its receiver and for some other peers alone. -/
def SendsTo (n : ClusterNode) (others : List NodeAddress) : Prop :=
  ∀ leader, n.leader = some leader → ∃ receiver, leader.receiverAddress = .ok receiver ∧
    ∀ m, ∀ w ∈ n.sender.takers m,
      w.key = receiver.endpoint ∨ ∃ peer ∈ others, w.key = peer.endpoint

theorem Follows.sendsTo (h : n.Follows) : n.SendsTo n.sender.peers.stale := by
  intro leader some
  obtain ⟨receiver, address, only⟩ := h.receiver leader some
  refine ⟨receiver, address, fun m w hw => ?_⟩
  have listed : n.sender.lists w.key = true := (h.listed.of_mem_takers hw).resolve_right nofun
  obtain ⟨peer, current | stale, same⟩ := lists_iff.mp listed
  · rw [only, List.mem_singleton] at current
    exact Or.inl (current ▸ same.symm)
  · exact Or.inr ⟨peer, stale, same.symm⟩

/-- **Leader traffic reaches the leader and stale peers**: in every state of a node, whatever its
dials came to, messages to the leader are queued for the leader's receiver and for peers of the
sender that are stale.  Once a leader was set successfully, and until the next one is set, there
are no such peers. -/
theorem sendsTo_of_performAll {fresh : String} {path : NodePath} {config : TransportConfig}
    (made : new fresh path config = .ok n) (answers : List (Option ℕ)) (ops : List Op) :
    let w := performAll ⟨n, .empty, answers⟩ ops
    w.value.SendsTo w.value.sender.peers.stale ∧
    ∀ (fresh : String) (path : NodePath) (later : List Op),
      ((setLeader fresh path).run alone w).2.result? = some (.ok ()) →
      (∀ fresh path, .setLeader fresh path ∉ later) →
        (performAll ((setLeader fresh path).run alone w).1 later).value.SendsTo [] := by
  intro w
  have follows : w.value.Follows :=
    Follows.performAll (w := ⟨n, .empty, answers⟩) (follows_new made) ops
  refine ⟨follows.sendsTo, fun fresh path later done quiet => ?_⟩
  obtain ⟨answer, ended, after, set⟩ := run_setLeader w follows fresh path
  obtain rfl := Option.some.inj (ended.symm.trans done)
  obtain ⟨leader, -, set⟩ := set rfl
  have sends := (after.performAll later).sendsTo
  rwa [stale_performAll (set.stale rfl) quiet] at sends

/-- A node that is set one leader and then another. -/
theorem sendsTo_of_two_leaders :
    ∃ n, new "c" ⟨"c@h:1"⟩ {} = .ok n ∧
      let w := performAll ⟨n, .empty, [some 0, some 1, some 2, some 3]⟩
        [.setLeader "x" ⟨"a@h:10"⟩, .setLeader "x" ⟨"b@h:20"⟩]
      w.value.SendsTo w.value.sender.peers.stale := by
  obtain ⟨n, made⟩ : ∃ n, new "c" ⟨"c@h:1"⟩ {} = .ok n :=
    exists_new ⟨"c", "h", 1⟩ ⟨"c", "h", 2⟩ (by decide) (by decide) (by decide)
  exact ⟨n, made, (sendsTo_of_performAll made _ _).1⟩

/-- The publisher of a second leader does not answer.  The node has this leader now, but a message
to the leader is queued on the connection to the receiver of the first one, and on no other. -/
theorem exists_taker_of_previous :
    ∃ n, new "c" ⟨"c@h:1"⟩ {} = .ok n ∧
      let w := performAll ⟨n, .empty, [some 0, some 1]⟩
        [.setLeader "x" ⟨"a@h:10"⟩, .setLeader "x" ⟨"b@h:20"⟩]
      let m := Message.new .undefined .probe 0
      (w.value.leader = some ⟨"b", "h", 20⟩ ∧ (w.value.sender.takers m).map (·.key) = ["h:11"]) ∧
        ¬w.value.SendsTo [] := by
  obtain ⟨n, made⟩ : ∃ n, new "c" ⟨"c@h:1"⟩ {} = .ok n :=
    exists_new ⟨"c", "h", 1⟩ ⟨"c", "h", 2⟩ (by decide) (by decide) (by decide)
  have ran : (new "c" ⟨"c@h:1"⟩ {}).toOption.map (fun n =>
      let w := performAll ⟨n, .empty, [some 0, some 1]⟩
        [.setLeader "x" ⟨"a@h:10"⟩, .setLeader "x" ⟨"b@h:20"⟩]
      let m := Message.new .undefined .probe 0
      (w.value.leader, (w.value.sender.takers m).map (·.key))) =
      some (some ⟨"b", "h", 20⟩, ["h:11"]) := by
    decide +kernel
  rw [made] at ran
  obtain ⟨leader, takers⟩ := Prod.mk.inj (Option.some.inj ran)
  refine ⟨n, made, ⟨leader, takers⟩, fun sends => ?_⟩
  obtain ⟨receiver, address, only⟩ := sends _ leader
  obtain ⟨w, taker, key⟩ := List.mem_map.mp (takers ▸ List.mem_singleton_self "h:11")
  obtain rfl : (⟨"b", "h", 21⟩ : NodeAddress) = receiver :=
    Except.ok.inj (.trans (by decide) address)
  obtain same | ⟨_, inside, -⟩ := only _ w taker
  · exact absurd (key.symm.trans same) (by decide +kernel)
  · cases inside

end TreeCluster.ClusterNode
