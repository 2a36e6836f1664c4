import TreeCluster.Proofs.Transport.Listed
import TreeCluster.Transport.Waiting

/-! # Calls that connect at the same time

While a call to connect waits for a peer to answer, the owner of the socket may remove that peer
and end the connections to stale peers.  A `Crowd` is a socket with all the calls to connect that
are under way; between the points where they wait, everything that happens to the socket is a
`Crowd.Event`.

A call to connect does nothing but end the connections to stale peers and take over those that
were answered (`Dials`).  It does not look again whether the peer is still listed when the answer
comes.  So a connection goes to a peer that is listed, or its dial was answered too late, when the
peer was not listed any more (`Crowd.strays`); see `Crowd.listed_of_run`. -/

namespace TreeCluster

open Connection Socket

/-- What a call to connect may still do: it ends the connections to stale peers, dials, and takes
over each connection as soon as it is answered. -/
inductive Dials {α : Type} : Call Socket α → Prop
  | done {a : α} : Dials (.done a)
  | look {next : Socket → Call Socket α} : (∀ s, Dials (next s)) → Dials (.look next)
  | dropStale {next : Call Socket α} : Dials next → Dials (.change dropStale next)
  | report {context message : String} {next : Call Socket α} :
      Dials next → Dials (.report context message next)
  | dial {peer : NodeAddress} {next : Option ℕ → Call Socket α} {after : ℕ → Call Socket α} :
      Dials (next none) →
      (∀ c, next (some c) = .change (·.attachDialled peer.endpoint c) (after c)) →
      (∀ c, Dials (after c)) → Dials (.dial peer next)
  | sleep {time : Duration} {next : Call Socket α} : Dials next → Dials (.sleep time next)

namespace Dials

variable {α β : Type}

theorem bind {call : Call Socket α} (h : Dials call) {next : α → Call Socket β}
    (h' : ∀ a, Dials (next a)) : Dials (call.bind next) := by
  induction h with
  | done => exact h' _
  | look _ ih => exact .look ih
  | dropStale _ ih => exact .dropStale ih
  | report _ ih => exact .report ih
  | dial _ attach _ refused answered =>
      refine .dial refused (fun c => ?_) answered
      rw [attach c]
      rfl
  | sleep _ ih => exact .sleep ih

theorem dialAll (targets : List NodeAddress) (made : ℕ) (failed : Option TransportError) :
    Dials (Socket.dialAll made failed targets) := by
  induction targets generalizing made failed with
  | nil => cases failed <;> exact .done
  | cons peer rest ih =>
      refine .look fun s => ?_
      dsimp only
      split
      · exact ih _ _
      · refine .dial ?_ (fun c => rfl) fun c => ih _ _
        cases failed with
        | none => exact ih _ _
        | some e => exact .look fun s => .report (ih _ _)

theorem connect : Dials Socket.connect := by
  refine .look fun s => ?_
  split
  · exact .done
  · exact .dropStale (.look fun s => dialAll _ _ _)

theorem retryFrom (policy : Backoff) (number left : ℕ) :
    Dials (policy.retryFrom (fun _ => Socket.connect) (fun time => .sleep time (.done ()))
      number left) := by
  induction left generalizing number with
  | zero => exact connect
  | succ left ih =>
      refine connect.bind fun answer => ?_
      cases answer with
      | ok a => exact .done
      | error e => exact .bind (.sleep .done) fun _ => ih _

theorem connectWithRetry (policy : Backoff) : Dials (Socket.connectWithRetry policy) :=
  retryFrom policy _ _

/-- Up to the next point where it waits, a call to connect does nothing but end the connections to
stale peers. -/
theorem settle {call : Call Socket α} (h : Dials call) {P : Socket → Prop}
    (keeps : ∀ s, P s → P s.dropStale) {scene : Call.Scene Socket} (hp : P scene.value) :
    P (call.settle scene).1.value ∧ Dials (call.settle scene).2 := by
  induction h generalizing scene with
  | done => exact ⟨hp, .done⟩
  | look _ ih => exact ih _ hp
  | dropStale _ ih => exact ih (keeps _ hp)
  | report _ ih => exact ih hp
  | dial refused attach after => exact ⟨hp, .dial refused attach after⟩
  | sleep next => exact ⟨hp, .sleep next⟩

theorem settle_connect (scene : Call.Scene Socket) (opened : scene.value.closed = false)
    {P : Socket → Prop} (keeps : ∀ s, P s → P s.dropStale) (hp : P scene.value.dropStale) :
    P (Socket.connect.settle scene).1.value := by
  rw [Socket.connect, Call.settle, opened]
  refine ((dialAll _ _ _).settle keeps ?_).1
  exact hp

end Dials

/-- A socket with the calls to connect that are under way. -/
structure Crowd where
  scene : Call.Scene Socket
  calls : List (Call Socket (Except TransportError ℕ))
  /-- How many dials were answered; each of these connections has a number below. -/
  made : ℕ
  /-- The connections whose dial was answered when their endpoint was not listed. -/
  strays : List ℕ

namespace Crowd

/-- What happens to the socket and to the calls. -/
inductive Event where
  | addPeer (peer : NodeAddress)
  | removePeer (peer : NodeAddress)
  | disconnect (everything : Bool)
  | send (m : Message)
  | close
  /-- A call to connect begins. -/
  | connect
  | connectWithRetry (policy : Backoff)
  /-- The peer that a call waits for answers, or the dial fails. -/
  | answer (call : ℕ) (connected : Bool)
  /-- The time is over that a call waits for. -/
  | wake (call : ℕ)
  /-- The writer of a connection puts at most `n` bytes on the wire. -/
  | write (connection n : ℕ)
  /-- The task of a connection ends. -/
  | stopWriting (connection : ℕ)
  | stopReading (connection : ℕ)

/-- A socket on which no call is under way. -/
def start (s : Socket) : Crowd :=
  ⟨⟨s, .empty⟩, [], 0, []⟩

/-- The socket. -/
abbrev socket (c : Crowd) : Socket :=
  c.scene.value

/-- The crowd after a change of the socket. -/
def change (c : Crowd) (f : Socket → Socket) : Crowd :=
  { c with scene := { c.scene with value := f c.scene.value } }

/-- The crowd after a call has begun. -/
def begin (c : Crowd) (call : Call Socket (Except TransportError ℕ)) : Crowd :=
  let (scene, call) := call.settle c.scene
  { c with scene, calls := c.calls ++ [call] }

/-- The crowd after a call has gone on. -/
def goOn (c : Crowd) (i : ℕ) (call : Call Socket (Except TransportError ℕ)) : Crowd :=
  let (scene, call) := call.settle c.scene
  { c with scene, calls := c.calls.set i call }

/-- Takes down that a peer has answered: the connection is a stray if no listed peer has its
endpoint by now. -/
def note (c : Crowd) (peer : NodeAddress) : Crowd :=
  { c with
    made := c.made + 1
    strays := if c.socket.lists peer.endpoint then c.strays else c.strays ++ [c.made] }

/-- The crowd after an event. -/
def apply (c : Crowd) : Event → Crowd
  | .addPeer peer => c.change fun s => (s.addPeer peer).1
  | .removePeer peer => c.change fun s => (s.removePeer peer).1
  | .disconnect everything => c.change (·.disconnect everything)
  | .send m => c.change fun s => (s.send m).1
  | .close => c.change Socket.close
  | .connect => c.begin Socket.connect
  | .connectWithRetry policy => c.begin (Socket.connectWithRetry policy)
  | .answer i connected =>
    match c.calls[i]? with
    | some (.dial peer next) =>
      if connected then (c.note peer).goOn i (next (some c.made)) else c.goOn i (next none)
    | _ => c
  | .wake i =>
    match c.calls[i]? with
    | some (.sleep _ next) => c.goOn i next
    | _ => c
  | .write connection n => c.change (·.mapWriters connection fun w => (w.write n).1)
  | .stopWriting connection => c.change (·.mapWriters connection Writer.stop)
  | .stopReading connection =>
    c.change (·.mapReaders connection fun r => { r with finished := true })

/-- The crowd after some events. -/
def run (c : Crowd) (events : List Event) : Crowd :=
  events.foldl apply c

/-- Every connection is listed or a stray, and the calls do nothing but connect. -/
structure Sound (c : Crowd) : Prop where
  listed : c.socket.Listed c.strays
  calls : ∀ call ∈ c.calls, Dials call

variable {c : Crowd}

theorem Sound.change (h : c.Sound) (f : Socket → Socket)
    (keeps : c.socket.Listed c.strays → (f c.socket).Listed c.strays) : (c.change f).Sound :=
  ⟨keeps h.listed, h.calls⟩

theorem Sound.settle (h : c.Sound) {call : Call Socket (Except TransportError ℕ)}
    (dials : Dials call) :
    (call.settle c.scene).1.value.Listed c.strays ∧ Dials (call.settle c.scene).2 :=
  dials.settle (P := fun s => s.Listed c.strays) (fun _ => Listed.dropStale) h.listed

theorem Sound.begin (h : c.Sound) (call : Call Socket (Except TransportError ℕ))
    (dials : Dials call) : (c.begin call).Sound := by
  obtain ⟨listed, rest⟩ := h.settle dials
  refine ⟨listed, ?_⟩
  simpa [Crowd.begin, or_imp, forall_and, rest] using h.calls

theorem Sound.goOn (h : c.Sound) (i : ℕ) (call : Call Socket (Except TransportError ℕ))
    (dials : Dials call) : (c.goOn i call).Sound := by
  obtain ⟨listed, rest⟩ := h.settle dials
  refine ⟨listed, fun call inside => ?_⟩
  rcases List.mem_or_eq_of_mem_set inside with inside | rfl
  · exact h.calls call inside
  · exact rest

/-- A connection whose dial is answered is listed, or it becomes a stray. -/
theorem Sound.attach (h : c.Sound) (peer : NodeAddress) :
    ((c.note peer).change (·.attachDialled peer.endpoint c.made)).Sound := by
  refine ⟨?_, h.calls⟩
  change (c.socket.attachDialled peer.endpoint c.made).Listed
    (if c.socket.lists peer.endpoint then c.strays else c.strays ++ [c.made])
  split
  · next known => exact h.listed.attachDialled (Or.inl known)
  · exact (h.listed.mono (List.subset_append_left _ _)).attachDialled (Or.inr (by simp))

/-- An answer makes a call go on; if there is a connection, it is taken over first. -/
theorem Sound.answer_cases (h : c.Sound) (i : ℕ) (connected : Bool) :
    c.apply (.answer i connected) = c ∨ ∃ call, Dials call ∧
      (c.apply (.answer i connected) = c.goOn i call ∨ ∃ peer, c.apply (.answer i connected) =
        ((c.note peer).change (·.attachDialled peer.endpoint c.made)).goOn i call) := by
  rw [Crowd.apply]
  split
  · next peer next found =>
      cases h.calls _ (List.mem_of_getElem? found) with
      | @dial _ _ after refused attach answered =>
          cases connected with
          | false => exact Or.inr ⟨_, refused, Or.inl rfl⟩
          | true =>
              rw [if_pos rfl, attach]
              exact Or.inr ⟨_, answered c.made, Or.inr ⟨peer, rfl⟩⟩
  · exact Or.inl rfl

theorem Sound.answer (h : c.Sound) (i : ℕ) (connected : Bool) :
    (c.apply (.answer i connected)).Sound := by
  obtain same | ⟨call, dials, same | ⟨peer, same⟩⟩ := h.answer_cases i connected <;> rw [same]
  · exact h
  · exact h.goOn i call dials
  · exact (h.attach peer).goOn i call dials

theorem Sound.apply (h : c.Sound) (event : Event) : (c.apply event).Sound := by
  cases event with
  | addPeer peer => exact h.change (fun s => (s.addPeer peer).1) fun listed => listed.addPeer peer
  | removePeer peer =>
      exact h.change (fun s => (s.removePeer peer).1) fun listed => listed.removePeer peer
  | disconnect everything =>
      exact h.change (·.disconnect everything) fun listed => listed.disconnect everything
  | send m => exact h.change (fun s => (s.send m).1) fun listed => listed.send m
  | close => exact h.change Socket.close fun listed => listed.close
  | connect => exact h.begin Socket.connect .connect
  | connectWithRetry policy => exact h.begin _ (.connectWithRetry policy)
  | answer i connected => exact h.answer i connected
  | wake i =>
      rw [Crowd.apply]
      split
      · next time next found =>
          cases h.calls _ (List.mem_of_getElem? found) with
          | sleep dials => exact h.goOn i _ dials
      · exact h
  | write connection n =>
      exact h.change (·.mapWriters connection fun w => (w.write n).1) fun listed =>
        listed.mapWriters (write_same · n)
  | stopWriting connection =>
      exact h.change (·.mapWriters connection Writer.stop) fun listed =>
        listed.mapWriters fun _ => rfl
  | stopReading connection =>
      exact h.change (·.mapReaders connection fun r => { r with finished := true }) fun listed =>
        listed.mapReaders fun _ => rfl

theorem Sound.run (h : c.Sound) (events : List Event) : (c.run events).Sound := by
  induction events generalizing c with
  | nil => exact h
  | cons event events ih => exact ih (h.apply event)

theorem sound_start (role : Role) (options : SocketOptions) : (start (.new role options)).Sound :=
  ⟨listed_new role options [], nofun⟩

/-- To remove a listed peer and then to disconnect or to connect ends all connections to its
endpoint. -/
theorem ne_of_mem_links_removed (c : Crowd) {peer : NodeAddress}
    (known : peer ∈ c.socket.peers.current ∨ peer ∈ c.socket.peers.stale) {event : Event}
    (ends : event = .disconnect false ∨ event = .connect ∧ c.socket.closed = false) :
    ∀ l ∈ (c.run [.removePeer peer, event]).socket.links, l.1 ≠ peer.endpoint := by
  have gone : ∀ l ∈ (c.socket.removePeer peer).1.dropStale.links, l.1 ≠ peer.endpoint :=
    fun l hl => (mem_links_dropStale.mp hl).2 peer (mem_stale_removePeer known)
  obtain rfl | ⟨rfl, opened⟩ := ends
  · exact gone
  · exact Dials.settle_connect { c.scene with value := (c.socket.removePeer peer).1 } opened
      (P := fun s => ∀ l ∈ s.links, l.1 ≠ peer.endpoint)
      (fun s h l hl => h l (mem_links_dropStale.mp hl).1) gone

/-- **Connections stay listed**: whatever happens while calls connect, every connection of a socket
that is read from or takes messages goes to the endpoint of a current or stale peer, unless its
dial was answered when its endpoint was not listed any more.  So a message is queued for listed
peers and strays alone, and nothing is queued on dropped connections, which finish what they
have.  And once a listed peer is removed, disconnecting ends all connections to its endpoint, and
so does connecting if the socket is open. -/
theorem listed_of_run (role : Role) (options : SocketOptions) (events : List Event) :
    let c := (start (.new role options)).run events
    (∀ l ∈ c.socket.links, c.socket.lists l.1 = true ∨ l.2 ∈ c.strays) ∧
    (∀ m, ∀ w ∈ c.socket.takers m, c.socket.lists w.key = true ∨ w.connection ∈ c.strays) ∧
    (∀ m, (c.socket.send m).1.draining = c.socket.draining) ∧
    ∀ peer, peer ∈ c.socket.peers.current ∨ peer ∈ c.socket.peers.stale →
      ∀ event, event = .disconnect false ∨ event = .connect ∧ c.socket.closed = false →
        ∀ l ∈ (c.run [.removePeer peer, event]).socket.links, l.1 ≠ peer.endpoint := by
  intro c
  have listed := ((sound_start role options).run events).listed
  refine ⟨listed, fun m w => listed.of_mem_takers, fun m => ?_, fun peer known event ends => ?_⟩
  · obtain ⟨same, -⟩ | ⟨sent, -⟩ := send_eq c.socket m
    · rw [same]
    · rw [sent]
  · exact c.ne_of_mem_links_removed known ends

/-- A peer is removed and forgotten while its dial is under way.  The connection is made all the
same, and messages are queued on it; connecting and disconnecting later do not end it.  And a
connection that is dropped while a message is queued on it lives on until that is written. -/
theorem exists_unlisted :
    let peer : NodeAddress := ⟨"p", "h", 1⟩
    let m := Message.new .undefined .probe 0
    let late := (start (.new .sender {})).run
      [.addPeer peer, .connect, .removePeer peer, .disconnect false, .answer 0 true]
    let later := late.run [.connect, .disconnect false]
    let dropped := (start (.new .sender {})).run
      [.addPeer peer, .connect, .answer 0 true, .send m, .removePeer peer, .disconnect false]
    (late.socket.links = [("h:1", 0)] ∧ late.socket.lists "h:1" = false) ∧
      (later.socket.links = [("h:1", 0)] ∧ later.socket.lists "h:1" = false ∧
        (later.socket.takers m).map (·.key) = ["h:1"]) ∧
      dropped.socket.draining.map (fun w => (w.key, w.stopped, w.isDrained)) =
        [("h:1", false, false)] ∧
      dropped.socket.lists "h:1" = false := by
  refine ⟨⟨?_, ?_⟩, ⟨?_, ?_, ?_⟩, ?_, ?_⟩ <;> cbv

end Crowd
end TreeCluster
