import TreeCluster.Proofs.Transport.Live
import TreeCluster.Proofs.Transport.Workers

/-! # What a call to connect comes to

While a call to connect waits for a peer to answer, the tasks of connections go on, and they may
end connections, but no other call runs (`Socket.Wait`, `Socket.amid`).  Such tasks bring no
connection to life (`Socket.Fades`).

A call to connect an open socket first ends the connections to stale peers.  Then it tries the
current peers one after the other, and dials one exactly if no live connection goes to its endpoint
when its turn comes (`Socket.Trials`).  `Socket.connect_run` says what it leaves, what it answers
and what it reports. -/

namespace TreeCluster.Socket

open Connection

/-! ### What connections do by themselves -/

/-- The deed is one of the tasks of a connection. -/
def Deed.OfTask : Deed → Prop
  | .arrive _ _ | .forward _ | .stopReading _ | .write _ _ | .stopWriting _ => True
  | _ => False

/-- The deed may end the connection. -/
def Deed.MayEnd (connection : ℕ) : Deed → Prop
  | .forward c | .stopReading c | .stopWriting c => c = connection
  | _ => False

/-- From `s` to `s'` no connection came to life, and none but those in `may` ended. -/
structure Fades (may : ℕ → Prop) (s s' : Socket) : Prop where
  role : s'.role = s.role
  peers : s'.peers = s.peers
  live : s'.live ⊆ s.live
  stays : ∀ l ∈ s.live, ¬may l.2 → l ∈ s'.live

variable {s s' s'' : Socket} {may : ℕ → Prop}

theorem Fades.refl (may : ℕ → Prop) (s : Socket) : Fades may s s :=
  ⟨rfl, rfl, fun _ => id, fun _ h _ => h⟩

theorem Fades.trans (h : Fades may s s') (h' : Fades may s' s'') : Fades may s s'' where
  role := h'.role.trans h.role
  peers := h'.peers.trans h.peers
  live _ inside := h.live (h'.live inside)
  stays l inside spared := h'.stays l (h.stays l inside spared) spared

theorem Fades.append (h : Fades may s s') (others : List (String × ℕ)) :
    s'.live ++ others ⊆ s.live ++ others ∧
      ∀ l ∈ s.live ++ others, ¬may l.2 → l ∈ s'.live ++ others := by
  refine ⟨fun l inside => ?_, fun l inside spared => ?_⟩
  · exact List.mem_append.mpr ((List.mem_append.mp inside).imp_left fun here => h.live here)
  · exact List.mem_append.mpr ((List.mem_append.mp inside).imp_left fun here =>
      h.stays l here spared)

/-- What fades is read from or written to. -/
theorem Fades.of_parts (role : s'.role = s.role) (peers : s'.peers = s.peers)
    (reading : s'.reading ⊆ s.reading ∧ ∀ l ∈ s.reading, ¬may l.2 → l ∈ s'.reading)
    (writing : s'.writing ⊆ s.writing ∧ ∀ l ∈ s.writing, ¬may l.2 → l ∈ s'.writing) :
    Fades may s s' := by
  refine ⟨role, peers, ?_, ?_⟩ <;> rw [Socket.live, Socket.live, role] <;> split
  · exact reading.1
  · exact writing.1
  · exact reading.2
  · exact writing.2

theorem alive_map {α : Type} {link : α → String × ℕ} {dead : α → Bool} (ends : List α) (c : ℕ)
    {f : α → α} (same : ∀ a, link (f a) = link a) (dies : ∀ a, dead (f a) = false → dead a = false)
    (stays : ∀ a, dead a = false → ¬may c → dead (f a) = false) :
    let ends' := ends.map fun a => if (link a).2 = c then f a else a
    alive link dead ends' ⊆ alive link dead ends ∧
      ∀ l ∈ alive link dead ends, ¬may l.2 → l ∈ alive link dead ends' := by
  refine ⟨fun l inside => ?_, fun l inside spared => ?_⟩
  · obtain ⟨a', ha', lives, rfl⟩ := mem_alive.mp inside
    obtain ⟨a, ha, rfl⟩ := List.mem_map.mp ha'
    refine mem_alive.mpr ⟨a, ha, ?_⟩
    split_ifs at lives ⊢
    · exact ⟨dies a lives, (same a).symm⟩
    · exact ⟨lives, rfl⟩
  · obtain ⟨a, ha, lives, rfl⟩ := mem_alive.mp inside
    refine mem_alive.mpr ⟨_, List.mem_map_of_mem ha, ?_⟩
    split_ifs with here
    · exact ⟨stays a lives (here ▸ spared), same a⟩
    · exact ⟨lives, rfl⟩

theorem fades_mapWriters (s : Socket) (c : ℕ) {f : Writer → Writer}
    (same : ∀ w, ((f w).key, (f w).connection) = (w.key, w.connection))
    (dies : ∀ w, (f w).stopped = false → w.stopped = false)
    (stays : ∀ w, w.stopped = false → ¬may c → (f w).stopped = false) :
    Fades may s (s.mapWriters c f) :=
  .of_parts rfl rfl ⟨fun _ => id, fun _ h _ => h⟩ (alive_map s.writers c same dies stays)

theorem fades_mapReaders (s : Socket) (c : ℕ) {f : Reader → Reader}
    (same : ∀ r, ((f r).key, (f r).connection) = (r.key, r.connection))
    (dies : ∀ r, (f r).finished = false → r.finished = false)
    (stays : ∀ r, r.finished = false → ¬may c → (f r).finished = false) :
    Fades may s (s.mapReaders c f) :=
  .of_parts rfl rfl (alive_map s.readers c same dies stays) ⟨fun _ => id, fun _ h _ => h⟩

theorem fades_forwardFrom (s : Socket) (c : ℕ) (ends : may c) : Fades may s (s.forwardFrom c) := by
  unfold forwardFrom
  split
  · exact .refl may s
  · next r found =>
      have reads : r.finished = false := by simpa using List.find?_some found
      obtain ⟨inside, rfl⟩ : r ∈ s.readers ∧ r.connection = c := by
        simpa [readersOf] using List.mem_of_find?_eq_some found
      have same := r.forward_link (s.role = .subscriber) s.inbox
      refine .of_parts rfl rfl ⟨fun l h => ?_, fun l h spared => ?_⟩ ⟨fun _ => id, fun _ h _ => h⟩
      · obtain ⟨r', hr', live, rfl⟩ := mem_reading.mp h
        obtain ⟨other, ho, rfl⟩ := List.mem_map.mp hr'
        split_ifs at live ⊢
        · exact mem_reading.mpr ⟨r, inside, reads, same.symm⟩
        · exact mem_reading.mpr ⟨other, ho, live, rfl⟩
      · obtain ⟨other, ho, live, rfl⟩ := mem_reading.mp h
        have elsewhere : other.connection ≠ r.connection := fun here => spared (here ▸ ends)
        exact mem_reading.mpr ⟨other, List.mem_map.mpr ⟨other, ho, if_neg elsewhere⟩, live, rfl⟩

theorem fades_after {deed : Deed} (h : deed.OfTask) (s : Socket)
    (ends : ∀ c, deed.MayEnd c → may c) : Fades may s (s.after deed) := by
  cases deed with
  | arrive c chunk => exact fades_mapReaders s c (fun _ => rfl) (fun _ => id) fun _ h _ => h
  | forward c => exact fades_forwardFrom s c (ends c rfl)
  | stopReading c =>
      exact fades_mapReaders s c (fun _ => rfl) (fun _ => nofun) fun _ _ spared =>
        absurd (ends c rfl) spared
  | write c n =>
      exact fades_mapWriters s c (write_same · n)
        (fun w live => (write_stopped w n).symm.trans live)
        fun w live _ => (write_stopped w n).trans live
  | stopWriting c =>
      exact fades_mapWriters s c (fun _ => rfl) (fun _ => nofun) fun _ _ spared =>
        absurd (ends c rfl) spared
  | _ => cases h

/-! ### Dials and the time they take -/

/-- What happens while a dial is under way, and the answer. -/
structure Wait where
  deeds : List Deed
  ofTask : ∀ deed ∈ deeds, deed.OfTask
  answer : Option ℕ

namespace Wait

/-- Meanwhile the connection may end. -/
def MayEnd (wait : Wait) (connection : ℕ) : Prop :=
  ∃ deed ∈ wait.deeds, deed.MayEnd connection

/-- The socket when the answer comes. -/
def after (wait : Wait) (s : Socket) : Socket :=
  wait.deeds.foldl Socket.after s

theorem fades (wait : Wait) (s : Socket) : Fades wait.MayEnd s (wait.after s) := by
  obtain ⟨deeds, ofTask, answer⟩ := wait
  have fading : ∀ deeds' ⊆ deeds, ∀ s, Fades (Wait.MayEnd ⟨deeds, ofTask, answer⟩) s
      (deeds'.foldl Socket.after s) := by
    intro deeds' part
    induction deeds' with
    | nil => exact fun s => .refl _ s
    | cons deed deeds' ih =>
        obtain ⟨first, later⟩ := List.cons_subset.mp part
        exact fun s => (fades_after (ofTask deed first) s fun c ends => ⟨deed, first, ends⟩).trans
          (ih later _)
  exact fading deeds (List.Subset.refl _) s

end Wait

/-- A socket on which no other call runs. -/
structure Scenery where
  socket : Socket
  /-- What the call reported, among other things. -/
  sink : Sink
  /-- Who was dialled so far. -/
  dialled : List NodeAddress

namespace Scenery

/-- After a change of the socket. -/
def change (f : Socket → Socket) (w : Scenery) : Scenery :=
  { w with socket := f w.socket }

/-- After a report. -/
def report (context message : String) (w : Scenery) : Scenery :=
  { w with sink := w.sink.report context message }

/-- When a dial is answered that takes some time. -/
def dial (wait : Wait) (peer : NodeAddress) (w : Scenery) : Scenery :=
  { w with socket := wait.after w.socket, dialled := w.dialled ++ [peer] }

/-- What the next dial will be like, if dial number `n` is like `waits n`. -/
def next (waits : ℕ → Wait) (w : Scenery) : Wait :=
  waits w.dialled.length

theorem role_dial (wait : Wait) (peer : NodeAddress) (w : Scenery) :
    (w.dial wait peer).socket.role = w.socket.role :=
  (wait.fades w.socket).role

end Scenery

/-- How a call sees the socket, if dial number `n` takes the time and gets the answer `waits n`. -/
def amid (waits : ℕ → Wait) : Surroundings Socket Scenery where
  value := Scenery.socket
  change := Scenery.change
  report := Scenery.report
  dial peer w := (w.dial (w.next waits) peer, (w.next waits).answer)
  listen _ w := (w, none)
  pause _ w := w

/-! ### Trying one peer after the other -/

/-- What came of trying a peer. -/
inductive Fate where
  /-- There was a live connection to its endpoint. -/
  | connected
  | made (connection : ℕ)
  | failed

/-- A peer that was tried. -/
structure Trial where
  peer : NodeAddress
  fate : Fate

namespace Trial

/-- The connections that were made, with their endpoints. -/
def made (trials : List Trial) : List (String × ℕ) :=
  trials.filterMap fun
    | ⟨peer, .made connection⟩ => some (peer.endpoint, connection)
    | _ => none

/-- The peers that were dialled. -/
def dialled (trials : List Trial) : List NodeAddress :=
  trials.filterMap fun
    | ⟨_, .connected⟩ => none
    | ⟨peer, _⟩ => some peer

/-- The peers whose dials failed. -/
def failed (trials : List Trial) : List NodeAddress :=
  trials.filterMap fun
    | ⟨peer, .failed⟩ => some peer
    | _ => none

end Trial

/-- From `s` to `s'` the peers were tried one after the other, with dials that have the numbers
from `n` on.  A peer is dialled exactly if no live connection goes to its endpoint at that moment,
and an answer leads to a connection. -/
inductive Trials (waits : ℕ → Wait) : ℕ → Socket → List Trial → Socket → Prop
  | nil {n : ℕ} {s : Socket} : Trials waits n s [] s
  | connected {n : ℕ} {s s' : Socket} {peer : NodeAddress} {rest : List Trial} :
      (∃ connection, (peer.endpoint, connection) ∈ s.live) → Trials waits n s rest s' →
        Trials waits n s (⟨peer, .connected⟩ :: rest) s'
  | made {n : ℕ} {s s' : Socket} {peer : NodeAddress} {rest : List Trial} {connection : ℕ} :
      (∀ connection, (peer.endpoint, connection) ∉ s.live) →
        (waits n).answer = some connection →
        Trials waits (n + 1) (((waits n).after s).attachDialled peer.endpoint connection) rest s' →
        Trials waits n s (⟨peer, .made connection⟩ :: rest) s'
  | failed {n : ℕ} {s s' : Socket} {peer : NodeAddress} {rest : List Trial} :
      (∀ connection, (peer.endpoint, connection) ∉ s.live) → (waits n).answer = none →
        Trials waits (n + 1) ((waits n).after s) rest s' →
        Trials waits n s (⟨peer, .failed⟩ :: rest) s'

section Trials

variable {waits : ℕ → Wait} {n : ℕ} {trials : List Trial}

theorem Trials.peers (h : Trials waits n s trials s') : s'.peers = s.peers := by
  induction h with
  | nil => rfl
  | connected _ _ ih => exact ih
  | made _ _ _ ih => exact (ih.trans (peers_attachDialled _ _ _)).trans ((waits _).fades _).peers
  | failed _ _ _ ih => exact ih.trans ((waits _).fades _).peers

/-- While a peer is dialled, no connection to its endpoint comes to life. -/
theorem live_answered {wait : Wait} {key : String} (free : ∀ c, (key, c) ∉ s.live)
    (connection : ℕ) : ((wait.after s).attachDialled key connection).live =
      (wait.after s).live ++ [(key, connection)] :=
  live_attachDialled (fun c inside => free c ((wait.fades s).live inside)) connection

theorem Trials.live (h : Trials waits n s trials s') :
    s'.live ⊆ s.live ++ Trial.made trials := by
  induction h with
  | nil => exact List.subset_append_left _ _
  | connected _ _ ih => exact ih
  | @made n s s' peer rest c free _ _ ih =>
      rw [live_answered free c, List.append_assoc] at ih
      exact List.Subset.trans ih (((waits n).fades s).append _).1
  | @failed n s s' peer rest _ _ _ ih =>
      exact List.Subset.trans ih (((waits n).fades s).append _).1

/-- What was live, or was made, stays so unless its own tasks end it during a dial. -/
theorem Trials.stays (h : Trials waits n s trials s') {l : String × ℕ}
    (inside : l ∈ s.live ++ Trial.made trials)
    (spared : ∀ k < (Trial.dialled trials).length, ¬(waits (n + k)).MayEnd l.2) : l ∈ s'.live := by
  induction h with
  | nil => simpa [Trial.made] using inside
  | connected _ _ ih => exact ih inside spared
  | @made n s s' peer rest c free _ _ ih =>
      have now : l ∈ ((waits n).after s).live ++ (peer.endpoint, c) :: Trial.made rest :=
        (((waits n).fades s).append _).2 l inside (spared 0 (Nat.succ_pos _))
      refine ih ?_ fun k small => ?_
      · rwa [live_answered free c, List.append_assoc]
      · rw [Nat.add_right_comm]
        exact spared (k + 1) (Nat.succ_lt_succ small)
  | @failed n s s' peer rest _ _ _ ih =>
      refine ih ((((waits n).fades s).append _).2 l inside (spared 0 (Nat.succ_pos _))) ?_
      intro k small
      rw [Nat.add_right_comm]
      exact spared (k + 1) (Nat.succ_lt_succ small)

end Trials

/-! ### A run of the call -/

variable {waits : ℕ → Wait} {first : Option TransportError} {w w' : Scenery} {peer : NodeAddress}
  {trials : List Trial}

/-- Why a peer could not be reached. -/
def refusal (peer : NodeAddress) : TransportError :=
  .connect peer.text

/-- The answer to the caller. -/
def conclusion (made : ℕ) : List TransportError → Except TransportError ℕ
  | [] => .ok made
  | e :: _ => .error e

/-- From `w` to `w'` peers were tried, and if there was an error before, `first`, then all of theirs
were reported, or else all but the first one. -/
structure Tried (waits : ℕ → Wait) (first : Option TransportError) (w : Scenery)
    (trials : List Trial) (w' : Scenery) : Prop where
  tried : Trials waits w.dialled.length w.socket trials w'.socket
  dialled : w'.dialled = w.dialled ++ Trial.dialled trials
  lines : w'.sink.lines = w.sink.lines ++
    (first.toList ++ (Trial.failed trials).map refusal).tail.map
      fun e => w.socket.role.text ++ ": " ++ e.message

theorem tried_nil : Tried waits first w [] w := by
  refine ⟨.nil, (List.append_nil _).symm, ?_⟩
  cases first <;> exact (List.append_nil _).symm

theorem Tried.connected (h : Tried waits first w trials w')
    (live : ∃ connection, (peer.endpoint, connection) ∈ w.socket.live) :
    Tried waits first w (⟨peer, .connected⟩ :: trials) w' :=
  ⟨.connected live h.tried, h.dialled, h.lines⟩

theorem length_dialled_dial (wait : Wait) (peer : NodeAddress) (w : Scenery) :
    (w.dial wait peer).dialled.length = w.dialled.length + 1 := by
  simp [Scenery.dial]

theorem role_attachDialled (s : Socket) (key : String) (connection : ℕ) :
    (s.attachDialled key connection).role = s.role := by
  unfold attachDialled
  split <;> rfl

theorem Tried.made {connection : ℕ} (free : ∀ c, (peer.endpoint, c) ∉ w.socket.live)
    (answer : (w.next waits).answer = some connection)
    (h : Tried waits first
      ((w.dial (w.next waits) peer).change (·.attachDialled peer.endpoint connection)) trials w') :
    Tried waits first w (⟨peer, .made connection⟩ :: trials) w' := by
  refine ⟨.made free answer (length_dialled_dial (w.next waits) peer w ▸ h.tried), ?_, ?_⟩
  · rw [h.dialled]
    simp [Scenery.change, Scenery.dial, Trial.dialled]
  · have role := (role_attachDialled _ peer.endpoint connection).trans
      (w.role_dial (w.next waits) peer)
    rw [h.lines, Scenery.change, role]
    rfl

theorem Tried.failed_first (free : ∀ c, (peer.endpoint, c) ∉ w.socket.live)
    (answer : (w.next waits).answer = none)
    (h : Tried waits (some (refusal peer)) (w.dial (w.next waits) peer) trials w') :
    Tried waits none w (⟨peer, .failed⟩ :: trials) w' := by
  refine ⟨.failed free answer (length_dialled_dial (w.next waits) peer w ▸ h.tried), ?_, ?_⟩
  · rw [h.dialled]
    simp [Scenery.dial, Trial.dialled]
  · rw [h.lines, w.role_dial]
    rfl

theorem Tried.failed_later {e : TransportError} (free : ∀ c, (peer.endpoint, c) ∉ w.socket.live)
    (answer : (w.next waits).answer = none)
    (h : Tried waits (some e) ((w.dial (w.next waits) peer).report w.socket.role.text
      (refusal peer).message) trials w') :
    Tried waits (some e) w (⟨peer, .failed⟩ :: trials) w' := by
  refine ⟨.failed free answer (length_dialled_dial (w.next waits) peer w ▸ h.tried), ?_, ?_⟩
  · rw [h.dialled]
    simp [Scenery.report, Scenery.dial, Trial.dialled]
  · rw [h.lines, show ((w.dial (w.next waits) peer).report w.socket.role.text
      (refusal peer).message).socket.role = w.socket.role from w.role_dial _ peer]
    simp [Scenery.report, Scenery.dial, Sink.report, Trial.failed]

theorem run_dialAll_cons (h : w.socket.isConnected peer.endpoint = false) (n : ℕ)
    (first : Option TransportError) (rest : List NodeAddress) :
    (dialAll n first (peer :: rest)).run (amid waits) w =
      match (w.next waits).answer, first with
      | some c, _ => (dialAll (n + 1) first rest).run (amid waits)
          ((w.dial (w.next waits) peer).change (·.attachDialled peer.endpoint c))
      | none, none =>
        (dialAll n (some (refusal peer)) rest).run (amid waits) (w.dial (w.next waits) peer)
      | none, some _ => (dialAll n first rest).run (amid waits)
          ((w.dial (w.next waits) peer).report w.socket.role.text (refusal peer).message) := by
  have apart : ((amid waits).value w).isConnected peer.endpoint = false := h
  rw [← w.role_dial (w.next waits) peer, dialAll, Call.run, apart]
  simp only [Bool.false_eq_true, if_false, Call.run, amid]
  cases (w.next waits).answer <;> cases first <;> rfl

/-- Trying the peers one after the other: the answer is the first error or the number of
connections. -/
theorem dialAll_run (waits : ℕ → Wait) (targets : List NodeAddress) (n : ℕ)
    (first : Option TransportError) (w : Scenery) :
    ∃ trials w', Tried waits first w trials w' ∧ trials.map (·.peer) = targets ∧
      (dialAll n first targets).run (amid waits) w = (w', .done (conclusion
        (n + (Trial.made trials).length) (first.toList ++ (Trial.failed trials).map refusal))) := by
  induction targets generalizing n first w with
  | nil => exact ⟨[], w, tried_nil, rfl, by cases first <;> rfl⟩
  | cons peer rest ih =>
      by_cases live : ∃ c, (peer.endpoint, c) ∈ w.socket.live
      · obtain ⟨trials, w', tried, peers, ran⟩ := ih n first w
        refine ⟨⟨peer, .connected⟩ :: trials, w', tried.connected live,
          by rw [List.map_cons, peers], ?_⟩
        have connected : ((amid waits).value w).isConnected peer.endpoint = true :=
          isConnected_iff.mpr live
        rw [dialAll, Call.run, if_pos connected]
        exact ran
      · have apart : w.socket.isConnected peer.endpoint = false :=
          eq_false_of_ne_true fun connected => live (isConnected_iff.mp connected)
        have free : ∀ c, (peer.endpoint, c) ∉ w.socket.live := not_exists.mp live
        rw [run_dialAll_cons apart]
        cases answer : (w.next waits).answer with
        | some c =>
            obtain ⟨trials, w', tried, peers, ran⟩ := ih (n + 1) first
              ((w.dial (w.next waits) peer).change (·.attachDialled peer.endpoint c))
            refine ⟨⟨peer, .made c⟩ :: trials, w', tried.made free answer,
              by rw [List.map_cons, peers], ran.trans ?_⟩
            rw [Nat.add_right_comm]
            rfl
        | none =>
            cases first with
            | none =>
                obtain ⟨trials, w', tried, peers, ran⟩ :=
                  ih n (some (refusal peer)) (w.dial (w.next waits) peer)
                exact ⟨⟨peer, .failed⟩ :: trials, w', tried.failed_first free answer,
                  by rw [List.map_cons, peers], ran⟩
            | some e =>
                obtain ⟨trials, w', tried, peers, ran⟩ := ih n (some e)
                  ((w.dial (w.next waits) peer).report w.socket.role.text (refusal peer).message)
                exact ⟨⟨peer, .failed⟩ :: trials, w', tried.failed_later free answer,
                  by rw [List.map_cons, peers], ran⟩

/-- What a call to connect an open socket comes to, in the scene `w'` and with an answer, when it
has tried some peers. -/
structure Connects (waits : ℕ → Wait) (w : Scenery) (trials : List Trial)
    (answer : Except TransportError ℕ) (w' : Scenery) : Prop where
  /-- First the connections to the endpoints of stale peers end, and those peers are forgotten. -/
  sheds : w.socket.Sheds w.socket.dropStale
  ended : w.socket.dropStale.live = w.socket.live.filter fun l => !w.socket.isStale l.1
  /-- Then peers are tried, -/
  tried : Trials waits w.dialled.length w.socket.dropStale trials w'.socket
  /-- which are all the current ones in their order. -/
  order : trials.map (·.peer) = w.socket.peers.current
  dialled : w'.dialled = w.dialled ++ Trial.dialled trials
  peers : w'.socket.peers = ⟨w.socket.peers.current, []⟩
  /-- The answer is the number of connections that were made, if no dial failed, -/
  ok : ∀ n, answer = .ok n ↔ Trial.failed trials = [] ∧ n = (Trial.made trials).length
  /-- or else the error of the first peer whose dial failed. -/
  error : ∀ e, answer = .error e ↔
    ∃ peer, (Trial.failed trials).head? = some peer ∧ e = refusal peer
  /-- The errors of the others are reported. -/
  reported : w'.sink.lines = w.sink.lines ++ (Trial.failed trials).tail.map fun peer =>
    w.socket.role.text ++ ": " ++ (refusal peer).message
  live : w'.socket.live ⊆ w.socket.dropStale.live ++ Trial.made trials
  /-- Connections stay that did not end at first, and those that were made, unless their own tasks
  end them during a dial. -/
  stays : ∀ l ∈ w.socket.dropStale.live ++ Trial.made trials,
    (∀ k < (Trial.dialled trials).length, ¬(waits (w.dialled.length + k)).MayEnd l.2) →
      l ∈ w'.socket.live

theorem conclusion_eq_ok_iff {made n : ℕ} {peers : List NodeAddress} :
    conclusion made (peers.map refusal) = .ok n ↔ peers = [] ∧ n = made := by
  cases peers <;> simp [conclusion, eq_comm]

theorem conclusion_eq_error_iff {made : ℕ} {e : TransportError} {peers : List NodeAddress} :
    conclusion made (peers.map refusal) = .error e ↔
      ∃ peer, peers.head? = some peer ∧ e = refusal peer := by
  cases peers <;> simp [conclusion, eq_comm]

/-- **What connecting comes to** when no other call runs meanwhile, whatever the dials are answered
and however connections end by themselves: a closed socket is left alone, and an open one gets what
`Connects` says. -/
theorem connect_run (waits : ℕ → Wait) (w : Scenery) :
    if w.socket.closed then connect.run (amid waits) w = (w, .done (.error .closed))
    else ∃ trials answer w', connect.run (amid waits) w = (w', .done answer) ∧
      Connects waits w trials answer w' := by
  split
  · next closed =>
      rw [connect, Call.run, if_pos (show ((amid waits).value w).closed = true from closed)]
      rfl
  · next opened =>
      have sheds := sheds_dropStale w.socket
      obtain ⟨trials, w', tried, order, ran⟩ :=
        dialAll_run waits w.socket.dropStale.peers.current 0 none (w.change dropStale)
      have answered : connect.run (amid waits) w = (w', .done (conclusion
          (0 + (Trial.made trials).length) ((Trial.failed trials).map refusal))) := by
        rw [connect, Call.run, if_neg (show ¬((amid waits).value w).closed = true from opened)]
        exact ran
      have role : w.socket.dropStale.role = w.socket.role := by rw [sheds.rest]
      refine ⟨trials, _, w', answered, ?_⟩
      exact {
        sheds
        ended := sheds.live
        tried := tried.tried
        order := by rw [order, sheds.peers]
        dialled := tried.dialled
        peers := tried.tried.peers.trans sheds.peers
        ok := by
          rw [Nat.zero_add]
          exact fun n => conclusion_eq_ok_iff
        error := fun e => conclusion_eq_error_iff
        reported := by
          rw [tried.lines, Scenery.change, role]
          simp [List.map_tail, Function.comp_def]
        live := tried.tried.live
        stays := fun l inside spared => tried.tried.stays inside spared }

/-- A closed socket with a stale peer: a call to connect dials nobody and keeps the stale peer, but
its answer is an error. -/
theorem exists_refused :
    let peer : NodeAddress := ⟨"p", "h", 1⟩
    let s := (((new .sender {}).addPeer peer).1.removePeer peer).1.close
    let (w, call) := connect.run (amid fun _ => ⟨[], nofun, some 0⟩) ⟨s, .empty, []⟩
    s.peers = ⟨[], [peer]⟩ ∧ call.result? = some (.error .closed) ∧ w.dialled = [] ∧
      w.socket.peers = ⟨[], [peer]⟩ := by
  decide +kernel

end TreeCluster.Socket
