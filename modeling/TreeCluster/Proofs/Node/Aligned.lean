import TreeCluster.Proofs.Node.Leader
import TreeCluster.Proofs.Transport.Underway

/-! # The leader and the peers towards it

The leader of a node, the peers of its subscriber and those of its sender are three places that
calls to set and to clear the leader change.  Setting a leader changes all three before it first
waits, and while it waits for peers to answer, other calls may set another leader or none.  As
connecting leaves the current peers alone, the three agree at every point where all calls wait or
have ended (`ClusterNode.Aligned`, `ClusterNode.Busy.aligned_of_run`). -/

namespace TreeCluster.ClusterNode

open Call Socket Underway

/-- The subscriber's current peer is the leader and the sender's is the leader's receiver, if
there is a leader; otherwise neither has a current peer. -/
structure Aligned (n : ClusterNode) : Prop where
  idle : n.leader = none → n.subscriber.peers.current = [] ∧ n.sender.peers.current = []
  led : ∀ leader, n.leader = some leader → n.subscriber.peers.current = [leader] ∧
    ∃ receiver, leader.receiverAddress = .ok receiver ∧ n.sender.peers.current = [receiver]

/-- From `n` to `n'` the leader and the current peers towards it are the same. -/
structure SameLeading (n n' : ClusterNode) : Prop where
  leader : n'.leader = n.leader
  subscriber : n'.subscriber.peers.current = n.subscriber.peers.current
  sender : n'.sender.peers.current = n.sender.peers.current

variable {n n' : ClusterNode}

theorem Aligned.of_same (h : n.Aligned) (same : SameLeading n n') : n'.Aligned := by
  refine ⟨fun none => ?_, fun leader some => ?_⟩
  · rw [same.subscriber, same.sender]
    exact h.idle (same.leader.symm.trans none)
  · rw [same.subscriber, same.sender]
    exact h.led leader (same.leader.symm.trans some)

theorem aligned_new {fresh : String} {path : NodePath} {config : TransportConfig}
    (h : new fresh path config = .ok n) : n.Aligned := by
  obtain ⟨none, options, filter, sender, subscriber⟩ := idle_of_new h
  refine ⟨fun _ => ?_, fun leader some => ?_⟩
  · rw [sender, subscriber]
    exact ⟨rfl, rfl⟩
  · cases none.symm.trans some

theorem aligned_clearLeader (n : ClusterNode) : n.clearLeader.Aligned := by
  have forgets : ∀ s : Socket, (s.disconnect true).peers.current = [] :=
    fun s => congrArg PeerSet.current (peers_dropStale _)
  exact ⟨fun _ => ⟨forgets n.subscriber, forgets n.sender⟩, nofun⟩

/-- The new leader takes the place of the previous one on both sockets, also if that is the same,
or if their endpoints are. -/
theorem Aligned.replaceLeader (h : n.Aligned) {leader receiver : NodeAddress}
    (address : leader.receiverAddress = .ok receiver) :
    (n.replaceLeader leader receiver).Aligned := by
  have aligned : ∀ s t : Socket, s.peers.current = [] ∨ s.peers.current = [leader] →
      t.peers.current = [] ∨ t.peers.current = [receiver] →
      Aligned
        { n with
          leader := some leader
          subscriber := (s.addPeer leader).1
          sender := (t.addPeer receiver).1 } := by
    intro s t first second
    refine ⟨nofun, fun other some => ?_⟩
    obtain rfl := Option.some.inj some
    exact ⟨current_addPeer first, receiver, address, current_addPeer second⟩
  obtain ⟨same, replaced⟩ | ⟨previous, old, led, known, replaced⟩ :=
    n.replaceLeader_cases leader receiver fun previous led =>
      (h.led previous led).2.imp fun _ => And.left
  · rw [replaced]
    rcases same with none | some
    · obtain ⟨first, second⟩ := h.idle none
      exact aligned _ _ (Or.inl first) (Or.inl second)
    · obtain ⟨first, other, known, second⟩ := h.led leader some
      obtain rfl := Except.ok.inj (known.symm.trans address)
      exact aligned _ _ (Or.inr first) (Or.inr second)
  · rw [replaced]
    obtain ⟨first, other, found, second⟩ := h.led previous led
    obtain rfl := Except.ok.inj (found.symm.trans known)
    exact aligned _ _ (Or.inl (current_removePeer first)) (Or.inl (current_removePeer second))

/-! ### Calls -/

/-- What a change of a node must not break. -/
def KeepsAligned (_ : Signal) (n n' : ClusterNode) : Prop :=
  n.Aligned → n'.Aligned

/-- What a change of a socket leaves alone. -/
def SameCurrent (_ : Signal) (s s' : Socket) : Prop :=
  s'.peers.current = s.peers.current

theorem on_guarantees {α : Type} (role : Role) {call : Call Socket α} {g : Signal}
    (h : call.Guarantees SameCurrent g) : (on role call).Guarantees KeepsAligned g := by
  refine .within (part_socket role) fun n => h.mono fun g s s' same aligned => ?_
  refine aligned.of_same ?_
  cases role with
  | publisher => exact ⟨rfl, rfl, rfl⟩
  | subscriber => exact ⟨rfl, same, rfl⟩
  | sender => exact ⟨rfl, rfl, same⟩
  | receiver => exact ⟨rfl, rfl, rfl⟩

theorem andThen_guarantees {α β : Type} {call : Call ClusterNode (Except TransportError α)}
    {g : Signal} (h : call.Guarantees KeepsAligned g) {next : α → NodeCall β}
    (h' : ∀ a g, (next a).Guarantees KeepsAligned g) :
    (andThen call next).Guarantees KeepsAligned g := by
  refine h.bind fun answer g => ?_
  cases answer with
  | error e => exact trivial
  | ok a => exact h' a g

theorem connectWithRetry_guarantees (policy : Backoff) (g : Signal) :
    (connectWithRetry policy).Guarantees SameCurrent g :=
  (Dials.connectWithRetry policy).guarantees
    (fun _ s => congrArg PeerSet.current (peers_dropStale s))
    (fun s key c => congrArg PeerSet.current (peers_attachDialled s key c)) g

theorem socketBind_guarantees (address : NodeAddress) (g : Signal) :
    (Socket.bind address).Guarantees SameCurrent g := by
  intro s
  dsimp only
  split
  · exact trivial
  · rintro (_ | place)
    · exact trivial
    · exact ⟨fun _ => rfl, trivial⟩

theorem setLeader_guarantees (fresh : String) (path : NodePath) (g : Signal) :
    (setLeader fresh path).Guarantees KeepsAligned g := by
  unfold setLeader
  split
  · exact trivial
  · split
    · exact trivial
    · next address =>
        refine ⟨fun n aligned => aligned.replaceLeader address, fun n => ?_⟩
        refine andThen_guarantees (on_guarantees _ (connectWithRetry_guarantees _ _)) fun _ g => ?_
        exact andThen_guarantees (on_guarantees _ (connectWithRetry_guarantees _ _)) fun _ _ =>
          trivial

theorem join_guarantees (fresh : String) (g : Signal) :
    (join fresh).Guarantees KeepsAligned g := by
  have listens : ∀ g, bind.Guarantees KeepsAligned g := fun g n =>
    andThen_guarantees (on_guarantees _ (socketBind_guarantees _ _)) fun _ _ =>
      andThen_guarantees (on_guarantees _ (socketBind_guarantees _ _)) fun _ _ => trivial
  refine (listens g).bind fun answer g => ?_
  cases answer with
  | error e => exact trivial
  | ok places =>
      intro n
      dsimp only
      split
      · exact trivial
      · exact setLeader_guarantees _ _ _

/-- A call that fails before it first waits, when there is no leader to be set. -/
theorem settle_setLeader_of_refused {fresh : String} {path : NodePath}
    (refused : ∀ leader, path.node fresh = .ok leader → leader.port = 65535)
    (scene : Scene ClusterNode) :
    ∃ e, (setLeader fresh path).settle scene = (scene, .done (.error (.address e))) := by
  cases node : path.node fresh with
  | error e =>
      refine ⟨e, ?_⟩
      simp only [setLeader, node]
      rfl
  | ok leader =>
      have last := refused leader node
      have none : ∃ e, leader.receiverAddress = .error e :=
        ⟨_, if_neg (by rw [last]; decide)⟩
      obtain ⟨e, none⟩ := none
      refine ⟨e, ?_⟩
      simp only [setLeader, node, none]
      rfl

/-! ### Calls under way -/

/-- A node with its calls to set the leader and to join that have begun. -/
abbrev Busy :=
  Underway ClusterNode (Except ClusterError Unit)

namespace Busy

/-- What happens to a node and to its calls. -/
inductive Event where
  | setLeader (fresh : String) (path : NodePath)
  /-- Ending connections never waits, so this is one step. -/
  | clearLeader
  | join (fresh : String)
  | resume (call : ℕ) (signal : Signal)
  /-- Anything else that leaves the leader and the current peers towards it alone, such as
  sending, receiving and the traffic on connections. -/
  | other (f : ClusterNode → ClusterNode) (same : ∀ n, SameLeading n (f n))

/-- The node and its calls after an event. -/
def apply (u : Busy) : Event → Busy
  | .setLeader fresh path => u.begin (ClusterNode.setLeader fresh path)
  | .clearLeader => u.change ClusterNode.clearLeader
  | .join fresh => u.begin (ClusterNode.join fresh)
  | .resume i signal => u.resume i signal
  | .other f _ => u.change f

/-- The node and its calls after some events. -/
def run (u : Busy) (events : List Event) : Busy :=
  events.foldl apply u

/-- The peers agree with the leader, and no call breaks that. -/
abbrev Sound (u : Busy) : Prop :=
  u.Holds Aligned fun call => ∀ g, call.Guarantees KeepsAligned g

variable {u : Busy}

theorem Sound.settle (h : u.Sound) {call : NodeCall Unit} {g : Signal}
    (keeps : call.Guarantees KeepsAligned g) :
    (call.settle u.scene).1.value.Aligned ∧
      ∀ g, (call.settle u.scene).2.Guarantees KeepsAligned g := by
  obtain ⟨aligned, rest⟩ := keeps.settle (fun _ => id) (fun _ _ _ h h' => h' ∘ h) u.scene
  exact ⟨aligned h.value, rest⟩

theorem Sound.begin (h : u.Sound) (call : NodeCall Unit)
    (keeps : call.Guarantees KeepsAligned .begun) : Sound (u.begin call) :=
  Holds.begin h (h.settle keeps)

theorem Sound.apply (h : u.Sound) (event : Event) : (u.apply event).Sound := by
  cases event with
  | setLeader fresh path => exact h.begin _ (setLeader_guarantees fresh path .begun)
  | clearLeader => exact h.change fun _ => aligned_clearLeader u.value
  | join fresh => exact h.begin (ClusterNode.join fresh) (join_guarantees fresh .begun)
  | resume i signal =>
      exact h.resume i signal fun call inside next resumed =>
        h.settle ((h.calls call inside .begun).resumed resumed)
  | other f same => exact h.change fun aligned => aligned.of_same (same u.value)

theorem Sound.run (h : u.Sound) (events : List Event) : (u.run events).Sound := by
  induction events generalizing u with
  | nil => exact h
  | cons event events ih => exact ih (h.apply event)

/-- **The leader and the peers agree**: whenever all calls wait or have ended, the subscriber's
current peers are the leader alone and the sender's the leader's receiver alone, or there are none
if there is no leader.  A call to set a leader that a path does not name, or that leaves no port
for its receiver, fails at once and leaves the node and the other calls as they are. -/
theorem aligned_of_run {fresh : String} {path : NodePath} {config : TransportConfig}
    (made : new fresh path config = .ok n) (events : List Event) :
    let u : Busy := run (.start n) events
    u.value.Aligned ∧
    ∀ (fresh : String) (path : NodePath),
      (∀ leader, path.node fresh = .ok leader → leader.port = 65535) →
        ∃ e, u.apply (.setLeader fresh path) =
          ⟨u.scene, u.calls ++ [.done (.error (.address e))]⟩ := by
  intro u
  have sound : u.Sound := Sound.run (Underway.holds_start (aligned_new made)) events
  refine ⟨sound.value, fun fresh path refused => ?_⟩
  obtain ⟨e, settled⟩ := settle_setLeader_of_refused refused u.scene
  refine ⟨e, ?_⟩
  rw [apply, Underway.begin, settled]

/-- Two leaders at one endpoint are set, the second while the first is being dialled.  It is the
leader from then on, unless the leader is cleared before the dials are answered. -/
theorem aligned_of_two_leaders :
    let begun : List Event := [.setLeader "x" ⟨"a@h:10"⟩, .setLeader "x" ⟨"b@h:10"⟩]
    let second : Option NodeAddress := some ⟨"b", "h", 10⟩
    let runs : List (List Event × Option NodeAddress) := [([], second),
      ([.resume 0 (.dialled (some 0)), .resume 1 (.dialled none)], second),
      ([.clearLeader, .resume 0 (.dialled none), .resume 1 (.dialled (some 0))], none)]
    ∃ n, new "c" ⟨"c@h:1"⟩ {} = .ok n ∧ ∀ r ∈ runs,
      (run (.start n) (begun ++ r.1)).value.leader = r.2 ∧
        (run (.start n) (begun ++ r.1)).value.Aligned := by
  intro begun second runs
  obtain ⟨n, made⟩ : ∃ n, new "c" ⟨"c@h:1"⟩ {} = .ok n :=
    exists_new ⟨"c", "h", 1⟩ ⟨"c", "h", 2⟩ (by decide) (by decide) (by decide)
  have ran : ∀ r ∈ runs, (new "c" ⟨"c@h:1"⟩ {}).toOption.map
      (fun n => (run (.start n) (begun ++ r.1)).value.leader) = some r.2 := by
    decide +kernel
  refine ⟨n, made, fun r inside => ⟨?_, (aligned_of_run made _).1⟩⟩
  have leader := ran r inside
  rw [made] at leader
  exact Option.some.inj leader

end Busy
end TreeCluster.ClusterNode
