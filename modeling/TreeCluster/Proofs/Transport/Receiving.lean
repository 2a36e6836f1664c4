import Mathlib
import TreeCluster.Transport.Waiting

/-! # What a call to receive does

Each time a call to receive goes on, it takes unwanted messages off the front of the inbox, up to
the first wanted one.  If there is one and the socket is not closed, the call ends with it;
otherwise it goes on waiting or is refused (`settle_receiving`).  So what a call takes is wanted
(`wants_of_took`), and a call that waits takes the first wanted message of an open socket
(`settle_awaitWanted_of_find?`). -/

namespace TreeCluster.Socket

open Connection

/-- The answer to those who receive. -/
abbrev Answer := Except TransportError Message

/-- The socket with other messages in its inbox. -/
def withQueue (s : Socket) (queue : List Inbound) : Socket :=
  { s with inbox := { s.inbox with queue } }

/-- A call to receive that has not ended. -/
def Receiving (call : Call Socket Answer) : Prop :=
  call = receive ∨ call = awaitWanted

theorem Receiving.result?_eq {call : Call Socket Answer} (h : Receiving call) :
    call.result? = none := by
  rcases h with rfl | rfl <;> rfl

/-- What becomes of a socket and of a call to receive when the call goes on. -/
inductive Reception (s : Socket) : Socket → Call Socket Answer → Prop
  /-- The call waits. -/
  | waits {skipped rest : List Inbound} {call : Call Socket Answer} :
      s.inbox.queue = skipped ++ rest → (∀ m ∈ skipped, s.wants m = false) → Receiving call →
        Reception s (s.withQueue rest) call
  /-- The call ends without a message. -/
  | refused {skipped rest : List Inbound} {e : TransportError} :
      s.inbox.queue = skipped ++ rest → (∀ m ∈ skipped, s.wants m = false) →
        Reception s (s.withQueue rest) (.done (.error e))
  /-- The call ends with a message. -/
  | took {skipped rest : List Inbound} {m : Inbound} :
      s.inbox.queue = skipped ++ m :: rest → (∀ m ∈ skipped, s.wants m = false) →
        Reception s (s.withQueue rest) (.done (.ok m.message))

theorem Reception.exists_queue {s s' : Socket} {call : Call Socket Answer}
    (h : Reception s s' call) : ∃ queue, s' = s.withQueue queue := by
  cases h <;> exact ⟨_, rfl⟩

theorem length_sub_withQueue {s : Socket} {skipped rest : List Inbound}
    (split : s.inbox.queue = skipped ++ rest) :
    s.inbox.queue.length - (s.withQueue rest).inbox.queue.length = skipped.length := by
  rw [split]
  exact Nat.sub_eq_of_eq_add List.length_append

theorem skipUnwanted_eq (s : Socket) :
    s.skipUnwanted = s.withQueue (s.inbox.queue.dropWhile fun m => !s.wants m) :=
  rfl

theorem settle_awaitWanted (s : Socket) (sink : Sink) :
    Reception s (awaitWanted.settle ⟨s, sink⟩).1.value (awaitWanted.settle ⟨s, sink⟩).2 := by
  have parts : s.inbox.queue = (s.inbox.queue.takeWhile fun m => !s.wants m) ++
      s.inbox.queue.dropWhile fun m => !s.wants m := List.takeWhile_append_dropWhile.symm
  have unwanted : ∀ m ∈ s.inbox.queue.takeWhile fun m => !s.wants m, s.wants m = false := by
    intro m hm
    simpa using List.mem_takeWhile_imp hm
  rw [awaitWanted, Call.settle, skipUnwanted_eq]
  generalize (s.inbox.queue.dropWhile fun m => !s.wants m) = rest at parts
  obtain ⟨role, options, localAddress, listening, peers, filter, readers, writers, draining, inbox,
    closed⟩ := s
  cases closed with
  | true => exact .refused parts unwanted
  | false =>
      cases rest with
      | nil => exact .waits parts unwanted (Or.inr rfl)
      | cons m rest => exact .took parts unwanted

theorem settle_receiving {call : Call Socket Answer} (h : Receiving call) (s : Socket)
    (sink : Sink) :
    Reception s (call.settle ⟨s, sink⟩).1.value (call.settle ⟨s, sink⟩).2 := by
  rcases h with rfl | rfl
  · rw [receive, Call.settle]
    split_ifs
    · exact .refused (List.nil_append _).symm (by simp)
    · exact .refused (List.nil_append _).symm (by simp)
    · exact settle_awaitWanted s sink
  · exact settle_awaitWanted s sink

/-! ### The message that is taken -/

/-- A call that ends with a message takes the first wanted one and leaves what is behind it. -/
theorem dropWhile_of_took {call : Call Socket Answer} (h : Receiving call) (s : Socket)
    (sink : Sink) {m : Message} (took : (call.settle ⟨s, sink⟩).2 = .done (.ok m)) :
    ∃ first, (s.inbox.queue.dropWhile fun m => !s.wants m) =
      first :: (call.settle ⟨s, sink⟩).1.value.inbox.queue := by
  have waits : (awaitWanted.settle ⟨s, sink⟩).2 = .done (.ok m) →
      ∃ first, (s.inbox.queue.dropWhile fun m => !s.wants m) =
        first :: (awaitWanted.settle ⟨s, sink⟩).1.value.inbox.queue := by
    rw [awaitWanted, Call.settle, skipUnwanted_eq]
    generalize (s.inbox.queue.dropWhile fun m => !s.wants m) = rest
    obtain ⟨role, options, localAddress, listening, peers, filter, readers, writers, draining,
      inbox, closed⟩ := s
    cases closed with
    | true => exact nofun
    | false =>
        cases rest with
        | nil => exact nofun
        | cons first rest => exact fun _ => ⟨first, rfl⟩
  rcases h with rfl | rfl
  · rw [receive, Call.settle] at took ⊢
    split_ifs at took ⊢
    · cases took
    · cases took
    · exact waits took
  · exact waits took

/-- What a call takes is wanted. -/
theorem wants_of_took {call : Call Socket Answer} (h : Receiving call) {s : Socket} {sink : Sink}
    {skipped rest : List Inbound} {m : Inbound} (split : s.inbox.queue = skipped ++ m :: rest)
    (unwanted : ∀ m ∈ skipped, s.wants m = false)
    (took : (call.settle ⟨s, sink⟩).2 = .done (.ok m.message))
    (left : (call.settle ⟨s, sink⟩).1.value = s.withQueue rest) : s.wants m = true := by
  obtain ⟨first, found⟩ := dropWhile_of_took h s sink took
  rw [left, split, List.dropWhile_append_of_pos (by simpa using unwanted)] at found
  -- else it would have been skipped too, and less would be left
  by_contra skips
  rw [List.dropWhile_cons_of_pos (by simpa using skips)] at found
  have shorter := List.length_dropWhile_le (fun m => !s.wants m) rest
  rw [found] at shorter
  exact Nat.not_succ_le_self _ shorter

/-- A waiting call takes the first wanted message of an open socket. -/
theorem settle_awaitWanted_of_find? {s : Socket} (opened : s.closed = false) {m : Inbound}
    (found : s.inbox.queue.find? s.wants = some m) (sink : Sink) :
    (awaitWanted.settle ⟨s, sink⟩).2 = .done (.ok m.message) := by
  obtain ⟨want, skipped, rest, split, unwanted⟩ := List.find?_eq_some_iff_append.mp found
  have left : (s.inbox.queue.dropWhile fun m => !s.wants m) = m :: rest := by
    rw [split, List.dropWhile_append_of_pos unwanted, List.dropWhile_cons_of_neg (by simp [want])]
  rw [awaitWanted, Call.settle, skipUnwanted_eq, left]
  simp only [withQueue, opened, Call.settle]
  rfl

end TreeCluster.Socket
