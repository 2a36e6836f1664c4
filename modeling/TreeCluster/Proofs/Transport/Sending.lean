import Mathlib
import TreeCluster.Transport.Socket

/-! # Whom a message is queued for

A writer that has not stopped and has room takes every message.  The writers that take a message
are the `takers`, and the answer to the sender is their number: if it is an error, there are none
(`send_reported`).  All the others stay as they are, but for those that have stopped, which are
given up (`send_eq`).

A publisher is told their number in any case.  Who is no publisher and reaches nobody is told why
the last writer has refused (`refusal_queueAll`).  `send_accounts` puts this together. -/

namespace TreeCluster

open Connection

namespace Connection.Writer

/-- Whether a message that is offered now is queued. -/
def takes (w : Writer) : Bool :=
  !w.stopped && decide (w.queue.length < w.capacity)

/-- What is left of a writer after a message was offered to it. -/
def afterOffer (frame : Bytes) (w : Writer) : Option Writer :=
  match w.offer frame with
  | .queued w' => some w'
  | .full => some w
  | .stopped => none

theorem offer_of_takes {w : Writer} (h : w.takes = true) (frame : Bytes) :
    w.offer frame = .queued { w with queue := w.queue ++ [frame] } := by
  simp only [takes, Bool.and_eq_true, Bool.not_eq_true', decide_eq_true_eq] at h
  rw [offer, if_neg (by simp [h.1]), if_neg (Nat.not_le.mpr h.2)]

theorem offer_of_stopped {w : Writer} (h : w.stopped = true) (frame : Bytes) :
    w.offer frame = .stopped :=
  if_pos h

theorem offer_of_full {w : Writer} (h : w.takes = false) (live : w.stopped = false)
    (frame : Bytes) : w.offer frame = .full := by
  simp only [takes, live, Bool.not_false, Bool.true_and, decide_eq_false_iff_not] at h
  rw [offer, if_neg (by simp [live]), if_pos (Nat.not_lt.mp h)]

theorem afterOffer_eq_some {w w' : Writer} {frame : Bytes} (h : w.afterOffer frame = some w') :
    w.takes = true ∧ w' = { w with queue := w.queue ++ [frame] } ∨ w.takes = false ∧ w' = w := by
  unfold afterOffer at h
  cases ht : w.takes with
  | true =>
      rw [offer_of_takes ht] at h
      exact Or.inl ⟨rfl, (Option.some.inj h).symm⟩
  | false =>
      cases hs : w.stopped with
      | true =>
          rw [offer_of_stopped hs] at h
          cases h
      | false =>
          rw [offer_of_full ht hs] at h
          exact Or.inr ⟨rfl, (Option.some.inj h).symm⟩

/-- A writer that has not stopped has queued the message if it had room. -/
def offered (frame : Bytes) (w : Writer) : Writer :=
  if w.queue.length < w.capacity then { w with queue := w.queue ++ [frame] } else w

theorem afterOffer_eq (frame : Bytes) (w : Writer) :
    w.afterOffer frame = if w.stopped then none else some (w.offered frame) := by
  cases h : w.stopped with
  | true => rw [afterOffer, offer_of_stopped h, if_pos rfl]
  | false =>
      by_cases room : w.queue.length < w.capacity
      · rw [afterOffer, offer_of_takes (by simp [takes, h, room]), offered, if_pos room]
        rfl
      · rw [afterOffer, offer_of_full (by simp [takes, room]) h, offered, if_neg room]
        rfl

/-- Why a writer that takes no message does not. -/
def refusal (w : Writer) : TransportError :=
  if w.stopped then .connectionLost w.key else .backlogged w.key

theorem refusal_ne_noPeers (w : Writer) : w.refusal ≠ .noPeers := by
  unfold refusal
  split <;> nofun

end Connection.Writer

namespace Socket

/-- Every writer that is offered the message stays or goes for itself. -/
theorem queueAll_eq (role : Role) (frame : Bytes) (writers : List Writer) :
    (queueAll role frame writers).writers = writers.filterMap (·.afterOffer frame) ∧
      (queueAll role frame writers).queued = (writers.filter (·.takes)).length := by
  induction writers using List.reverseRecOn with
  | nil => exact ⟨rfl, rfl⟩
  | append_singleton writers w ih =>
      obtain ⟨stay, count⟩ := ih
      rw [queueAll] at stay count ⊢
      rw [List.foldl_concat, List.filterMap_append, List.filter_append, List.length_append, ← stay,
        ← count, List.filterMap_cons, List.filterMap_nil, Writer.afterOffer]
      cases hs : w.stopped with
      | true => simp [Writer.offer_of_stopped hs, Writer.takes, hs]
      | false =>
          cases ht : w.takes with
          | true => simp [Writer.offer_of_takes ht, ht]
          | false => simp [Writer.offer_of_full ht hs, ht]

/-- The writers that queue a message which is sent now. -/
def takers (s : Socket) (m : Message) : List Writer :=
  if s.closed ∨ m.state = .localOnly ∨ s.role = .publisher ∧ s.localAddress.isNone then []
  else s.writers.filter (·.takes)

theorem takes_of_mem_takers {s : Socket} {m : Message} {w : Writer} (h : w ∈ s.takers m) :
    w ∈ s.writers ∧ w.takes = true := by
  unfold takers at h
  split at h
  · cases h
  · exact List.mem_filter.mp h

/-- A message that is not refused is offered to every writer, and nothing else changes. -/
theorem send_eq (s : Socket) (m : Message) :
    (s.send m).1 = s ∧ s.takers m = [] ∨
      (s.send m).1 = { s with writers := s.writers.filterMap (·.afterOffer (Wire.encode m)) } ∧
        s.takers m = s.writers.filter (·.takes) := by
  unfold send takers
  split_ifs with closed localOnly unbound none <;> simp_all [queueAll_eq]

theorem peers_send (s : Socket) (m : Message) : (s.send m).1.peers = s.peers := by
  obtain ⟨same, -⟩ | ⟨sent, -⟩ := send_eq s m
  · rw [same]
  · rw [sent]

theorem verdict_eq (role : Role) (sent : Sent) :
    verdict role sent = .ok sent.queued ∨ sent.queued = 0 ∧ ∃ e, verdict role sent = .error e := by
  unfold verdict
  split
  · next e _ =>
      split_ifs with h
      · exact Or.inr ⟨h.1, e, rfl⟩
      · exact Or.inl rfl
  · exact Or.inl rfl

/-- The answer to the sender is the number of writers that have queued the message. -/
theorem send_reported (s : Socket) (m : Message) :
    (s.send m).2 = .ok (s.takers m).length ∨
      s.takers m = [] ∧ ∃ e, (s.send m).2 = .error e := by
  obtain ⟨-, count⟩ := queueAll_eq s.role (Wire.encode m) s.writers
  have answer := verdict_eq s.role (queueAll s.role (Wire.encode m) s.writers)
  rw [count, List.length_eq_zero_iff] at answer
  unfold send takers
  split_ifs <;> first | exact answer | simp_all

/-! ### What the sender is told -/

theorem filterMap_afterOffer (frame : Bytes) (writers : List Writer) :
    writers.filterMap (·.afterOffer frame) =
      (writers.filter fun w => !w.stopped).map (·.offered frame) := by
  induction writers with
  | nil => rfl
  | cons w rest ih =>
      rw [List.filterMap_cons, Writer.afterOffer_eq]
      cases h : w.stopped <;> simp [h, ih]

/-- Who is no publisher learns why the last writer that takes nothing does not. -/
theorem refusal_queueAll {role : Role} (other : role ≠ .publisher) (frame : Bytes)
    (writers : List Writer) :
    (queueAll role frame writers).refusal =
      (writers.filter fun w => !w.takes).getLast?.map Writer.refusal := by
  induction writers using List.reverseRecOn with
  | nil => rfl
  | append_singleton writers w ih =>
      rw [queueAll] at ih ⊢
      rw [List.foldl_concat, List.filter_append]
      cases hs : w.stopped with
      | true =>
          have refuses : w.takes = false := by simp [Writer.takes, hs]
          simp [Writer.offer_of_stopped hs, refuses, Writer.refusal, hs]
      | false =>
          cases ht : w.takes with
          | true => simp [Writer.offer_of_takes ht, ht, ih]
          | false => simp [Writer.offer_of_full ht hs, ht, Writer.refusal, hs, other]

theorem verdict_of_publisher (sent : Sent) : verdict .publisher sent = .ok sent.queued := by
  unfold verdict
  split
  · exact if_neg fun h => h.2 rfl
  · rfl

theorem verdict_of_queued {sent : Sent} (some : sent.queued ≠ 0) (role : Role) :
    verdict role sent = .ok sent.queued := by
  unfold verdict
  split
  · exact if_neg fun h => some h.1
  · rfl

/-- A message that nobody takes costs its sender an error, the last one. -/
theorem verdict_of_refused {role : Role} (other : role ≠ .publisher) {sent : Sent}
    (none : sent.queued = 0) {e : TransportError} (last : sent.refusal = some e) :
    verdict role sent = .error e := by
  unfold verdict
  rw [last]
  exact if_pos ⟨none, other⟩

/-- A message that was not refused at once was offered to every writer of `s`, which leaves `s'`
and gives an answer. -/
structure Accounts (s : Socket) (m : Message) (s' : Socket) (answer : Except TransportError ℕ) :
    Prop where
  /-- It is queued once by every writer that has room, and else changes none.  Stopped writers are
  given up, and the others keep their order. -/
  writers : s'.writers = (s.writers.filter fun w => !w.stopped).map (·.offered (Wire.encode m))
  rest : s' = { s with writers := s'.writers }
  /-- The answer is the number of those that have queued it.  A publisher always gets one, and
  others do if there is somebody who takes the message. -/
  ok : ∀ n, answer = .ok n ↔ (s.role = .publisher ∨ ∃ w ∈ s.writers, w.takes = true) ∧
    n = (s.writers.filter (·.takes)).length
  /-- Others learn that there is no writer. -/
  noPeers : s.role ≠ .publisher → (answer = .error .noPeers ↔ s.writers = [])
  /-- Others learn why the last writer that refused has done so, if all have. -/
  refused : s.role ≠ .publisher → ∀ e, e ≠ .noPeers → (answer = .error e ↔
    s.writers ≠ [] ∧ (∀ w ∈ s.writers, w.takes = false) ∧
      ∃ w, (s.writers.filter fun w => !w.takes).getLast? = some w ∧ e = w.refusal)

theorem accounts_of_nobody {s : Socket} (nobody : s.writers = []) (m : Message) :
    Accounts s m s (if s.role = .publisher then .ok 0 else .error .noPeers) where
  writers := by rw [nobody]; rfl
  rest := rfl
  ok n := by
    by_cases publishes : s.role = .publisher
    · simp [nobody, publishes, eq_comm (a := n)]
    · simp [nobody, publishes]
  noPeers other := by simp [nobody, other]
  refused other e apart := by
    rw [if_neg other]
    exact ⟨fun same => absurd (Except.error.inj same).symm apart, fun h => absurd nobody h.1⟩

/-- If nobody takes a message, the last writer is the last one that refuses it. -/
theorem exists_refusal {s : Socket} (other : s.role ≠ .publisher) (somebody : s.writers ≠ [])
    (lost : ∀ w ∈ s.writers, w.takes = false) (frame : Bytes) :
    ∃ w, (s.writers.filter fun w => !w.takes).getLast? = some w ∧
      verdict s.role (queueAll s.role frame s.writers) = .error w.refusal := by
  have all : s.writers.filter (fun w => !w.takes) = s.writers :=
    List.filter_eq_self.mpr fun w hw => by rw [lost w hw]; rfl
  have last : (s.writers.filter fun w => !w.takes).getLast? = some (s.writers.getLast somebody) := by
    rw [all, List.getLast?_eq_some_getLast somebody]
  refine ⟨_, last, verdict_of_refused other ?_ (by rw [refusal_queueAll other, last]; rfl)⟩
  rw [(queueAll_eq _ _ _).2, List.length_eq_zero_iff, List.filter_eq_nil_iff]
  exact fun w hw => Bool.not_eq_true _ ▸ lost w hw

theorem accounts_of_somebody {s : Socket} (somebody : s.writers ≠ []) (m : Message) :
    let sent := queueAll s.role (Wire.encode m) s.writers
    Accounts s m { s with writers := sent.writers } (verdict s.role sent) := by
  intro sent
  obtain ⟨stay, count⟩ := queueAll_eq s.role (Wire.encode m) s.writers
  have left := stay.trans (filterMap_afterOffer _ _)
  by_cases reached : s.role = .publisher ∨ ∃ w ∈ s.writers, w.takes = true
  · have told : verdict s.role sent = .ok sent.queued := by
      rcases reached with publishes | ⟨w, hw, taken⟩
      · rw [publishes]
        exact verdict_of_publisher sent
      · have some : sent.queued ≠ 0 := by
          rw [show sent.queued = _ from count]
          exact (List.length_pos_of_mem (List.mem_filter.mpr ⟨hw, taken⟩)).ne'
        exact verdict_of_queued some s.role
    rw [told]
    refine ⟨left, rfl, fun n => ?_, fun _ => ?_, fun other e _ => ⟨nofun, fun ⟨_, lost, _⟩ => ?_⟩⟩
    · rw [Except.ok.injEq, and_iff_right reached, ← count]
      exact eq_comm
    · simp [somebody]
    · obtain ⟨w, hw, taken⟩ := reached.resolve_left other
      exact absurd ((lost w hw).symm.trans taken) nofun
  · obtain ⟨other, lost⟩ := not_or.mp reached
    have lost : ∀ w ∈ s.writers, w.takes = false := by simpa using lost
    obtain ⟨w, last, told⟩ := exists_refusal other somebody lost (Wire.encode m)
    rw [show verdict s.role sent = _ from told]
    refine ⟨left, rfl, fun n => ?_, fun _ => ?_, fun _ e _ => ?_⟩
    · simp [reached]
    · simp [somebody, w.refusal_ne_noPeers]
    · rw [last, Except.error.injEq]
      constructor
      · rintro rfl
        exact ⟨somebody, lost, w, rfl, rfl⟩
      · rintro ⟨-, -, w', same, rfl⟩
        rw [Option.some.inj same]

/-- **Sending accounts for every connection**: a socket that is closed refuses every message, then
one that stays in the process is refused, and then a publisher that listens nowhere refuses; all
this leaves the socket as it was.  Every other message gets what `Accounts` says. -/
theorem send_accounts (s : Socket) (m : Message) :
    if s.closed then s.send m = (s, .error .closed)
    else if m.state = .localOnly then s.send m = (s, .error .localOnly)
    else if s.role = .publisher ∧ s.localAddress = none then s.send m = (s, .error .notBound)
    else Accounts s m (s.send m).1 (s.send m).2 := by
  unfold send
  simp only [Option.isNone_iff_eq_none, List.isEmpty_iff]
  split_ifs with closed localOnly unbound nobody publishes
  · rfl
  · rfl
  · rfl
  · simpa only [if_pos publishes] using accounts_of_nobody nobody m
  · simpa only [if_neg publishes] using accounts_of_nobody nobody m
  · exact accounts_of_somebody nobody m

/-- One of three writers has stopped, another is full and the last one has room. -/
example :
    let writer (key : String) (queue : List Bytes) (stopped : Bool) : Writer :=
      ⟨key, 0, 1, queue, [], .zero, stopped⟩
    let writers := [writer "a" [] true, writer "b" [[0]] false, writer "c" [] false]
    let (s, answer) := { new .sender {} with writers }.send (.new .undefined .probe 0)
    s.writers.map (fun w => (w.key, w.queue.length)) = [("b", 1), ("c", 1)] ∧ answer = .ok 1 := by
  cbv

end Socket
end TreeCluster
