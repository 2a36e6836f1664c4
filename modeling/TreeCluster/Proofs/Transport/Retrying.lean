import TreeCluster.Proofs.Transport.Crowd
import TreeCluster.Proofs.Transport.Delays

/-! # Attempts until one succeeds

A series of attempts ends with the first one that succeeds, or with the last one that is allowed
(`Decides`).  This is so for attempts that change a state and whose outcomes hang on it
(`retryWith_run`), and for calls that connect, whatever goes on around the socket
(`connectWithRetry_run`).

With outcomes that are known, `retry_history` says all that is done, in its order: how many attempts
are made, and what is waited for between them. -/

namespace TreeCluster

namespace Backoff

variable {ε α σ : Type}

/-- Of so many attempts, numbered from 1, the first ones fail, and the next one succeeds or is the
last. -/
structure Decides (attempts : ℕ) (outcomes : ℕ → Except ε α) (failures : ℕ) : Prop where
  few : failures < attempts
  failed : ∀ n, 1 ≤ n → n ≤ failures → ∃ e, outcomes n = .error e
  ok : failures + 1 < attempts → ∃ a, outcomes (failures + 1) = .ok a

theorem Decides.eq_min {attempts failures first : ℕ} {outcomes : ℕ → Except ε α}
    (h : Decides attempts outcomes failures)
    (least : IsLeast {n | 1 ≤ n ∧ ∃ a, outcomes n = .ok a} first) :
    failures + 1 = min first attempts := by
  obtain ⟨⟨pos, a, succeeds⟩, before⟩ := least
  have late : failures < first := by
    refine Nat.lt_of_not_le fun early => ?_
    obtain ⟨e, fails⟩ := h.failed first pos early
    exact nomatch succeeds.symm.trans fails
  rcases Nat.lt_or_ge (failures + 1) attempts with more | last
  · have : first ≤ failures + 1 := before ⟨Nat.succ_pos _, h.ok more⟩
    omega
  · have := h.few
    omega

theorem Decides.eq_of_failed {attempts failures : ℕ} {outcomes : ℕ → Except ε α}
    (h : Decides attempts outcomes failures) (fails : ∀ n, 1 ≤ n → ∃ e, outcomes n = .error e) :
    failures + 1 = attempts := by
  refine (Nat.eq_or_lt_of_le h.few).resolve_right fun more => ?_
  obtain ⟨a, succeeds⟩ := h.ok more
  obtain ⟨e, failed⟩ := fails _ (Nat.succ_pos _)
  exact nomatch succeeds.symm.trans failed

theorem Decides.unique {attempts k k' : ℕ} {outcomes : ℕ → Except ε α}
    (h : Decides attempts outcomes k) (h' : Decides attempts outcomes k') : k = k' := by
  have least : ∀ {k k'}, Decides attempts outcomes k → Decides attempts outcomes k' → k' ≤ k := by
    intro k k' h h'
    refine Nat.le_of_not_lt fun less => ?_
    obtain ⟨a, succeeds⟩ := h.ok (Nat.lt_of_le_of_lt less h'.few)
    obtain ⟨e, fails⟩ := h'.failed (k + 1) (Nat.succ_pos k) less
    exact nomatch succeeds.symm.trans fails
  exact (least h' h).antisymm (least h h')

/-! ### Attempts that change a state -/

section State

variable (b : Backoff) (attempt : ℕ → StateM σ (Except ε α)) (wait : Duration → StateM σ Unit)
  (s : σ)

/-- The state after so many attempts that failed, each followed by its wait. -/
def afterFailures : ℕ → σ
  | 0 => s
  | k + 1 => ((wait (b.delayAfter (k + 1))).run ((attempt (k + 1)).run (afterFailures k)).2).2

/-- The outcome of an attempt if all the ones before it have failed. -/
def outcome (n : ℕ) : Except ε α :=
  ((attempt n).run (b.afterFailures attempt wait s (n - 1))).1

theorem run_retryFrom_succ (number left : ℕ) :
    (b.retryFrom attempt wait number (left + 1)).run s =
      match (attempt number).run s with
      | (.ok a, s) => (.ok a, s)
      | (.error _, s) => (b.retryFrom attempt wait (number + 1) left).run
          ((wait (b.delayAfter number)).run s).2 := by
  rw [retryFrom, StateT.run_bind]
  obtain ⟨outcome, s'⟩ := (attempt number).run s
  cases outcome <;> rfl

/-- After `k` failures there are `left + 1` attempts to be made. -/
theorem retryFrom_run (k left : ℕ) :
    ∃ failures, k ≤ failures ∧ failures ≤ k + left ∧
      (∀ n, k < n → n ≤ failures → ∃ e, b.outcome attempt wait s n = .error e) ∧
      (failures < k + left → ∃ a, b.outcome attempt wait s (failures + 1) = .ok a) ∧
      (b.retryFrom attempt wait (k + 1) left).run (b.afterFailures attempt wait s k) =
        (attempt (failures + 1)).run (b.afterFailures attempt wait s failures) := by
  induction left generalizing k with
  | zero => exact ⟨k, le_rfl, le_rfl, by omega, by omega, rfl⟩
  | succ left ih =>
      rw [run_retryFrom_succ]
      rcases made : (attempt (k + 1)).run (b.afterFailures attempt wait s k) with ⟨a | e, s'⟩
      · have failed : b.outcome attempt wait s (k + 1) = .error a := congrArg Prod.fst made
        have next : b.afterFailures attempt wait s (k + 1) =
            ((wait (b.delayAfter (k + 1))).run s').2 := by
          rw [afterFailures, made]
        obtain ⟨failures, more, few, fails, ok, ran⟩ := ih (k + 1)
        refine ⟨failures, by omega, by omega, fun n later early => ?_, fun h => ok (by omega), ?_⟩
        · rcases Nat.eq_or_lt_of_le (Nat.succ_le_of_lt later) with rfl | later
          · exact ⟨a, failed⟩
          · exact fails n later early
        · rw [← ran, next]
      · exact ⟨k, le_rfl, by omega, by omega, fun _ => ⟨e, congrArg Prod.fst made⟩, made.symm⟩

theorem retryWith_run :
    ∃ failures, Decides b.attempts (b.outcome attempt wait s) failures ∧
      (b.retryWith attempt wait).run s =
        (attempt (failures + 1)).run (b.afterFailures attempt wait s failures) := by
  obtain ⟨failures, -, few, failed, ok, ran⟩ := b.retryFrom_run attempt wait s 0 (b.attempts - 1)
  have : 1 ≤ b.attempts := le_max_right _ _
  exact ⟨failures, ⟨by omega, failed, fun h => ok (by omega)⟩, ran⟩

end State

/-! ### Attempts whose outcomes are known -/

/-- What is done: an attempt is made, or a time is waited for. -/
inductive Deed where
  | attempt (number : ℕ)
  | wait (time : Duration)
  deriving DecidableEq

/-- Makes attempts whose outcomes are known, and records all that is done, from the first to the
last. -/
def history (b : Backoff) (outcomes : ℕ → Except ε α) : Except ε α × List Deed :=
  let note (deed : Deed) : StateM (List Deed) Unit := modify (· ++ [deed])
  (b.retryWith (fun number => note (.attempt number) *> pure (outcomes number))
    (fun time => note (.wait time))).run []

/-- What is done for so many attempts that fail. -/
def failing (b : Backoff) (failures : ℕ) : List Deed :=
  (List.range' 1 failures).flatMap fun n => [.attempt n, .wait (b.delayAfter n)]

theorem history_eq (b : Backoff) (outcomes : ℕ → Except ε α) :
    ∃ failures, Decides b.attempts outcomes failures ∧
      b.history outcomes =
        (outcomes (failures + 1), b.failing failures ++ [.attempt (failures + 1)]) := by
  let note (deed : Deed) : StateM (List Deed) Unit := modify (· ++ [deed])
  let attempt (n : ℕ) : StateM (List Deed) (Except ε α) := note (.attempt n) *> pure (outcomes n)
  let wait (time : Duration) : StateM (List Deed) Unit := note (.wait time)
  have done : ∀ k, b.afterFailures attempt wait [] k = b.failing k := by
    intro k
    induction k with
    | zero => rfl
    | succ k ih =>
        rw [failing, List.range'_1_concat, List.flatMap_append, ← failing, ← ih, Nat.add_comm 1 k]
        exact List.append_assoc _ _ _
  obtain ⟨failures, decides, ran⟩ := b.retryWith_run attempt wait []
  rw [done] at ran
  exact ⟨failures, decides, ran⟩

theorem retry_eq (b : Backoff) (outcomes : ℕ → Except ε α) :
    ∃ failures, Decides b.attempts outcomes failures ∧
      b.retry outcomes = ⟨outcomes (failures + 1), (List.range' 1 failures).map b.delayAfter⟩ := by
  let attempt (n : ℕ) : StateM (List Duration) (Except ε α) := pure (outcomes n)
  let wait (time : Duration) : StateM (List Duration) Unit := modify (time :: ·)
  have waited : ∀ k, b.afterFailures attempt wait [] k =
      ((List.range' 1 k).map b.delayAfter).reverse := by
    intro k
    induction k with
    | zero => rfl
    | succ k ih =>
        rw [List.range'_1_concat, List.map_append, List.reverse_append, ← ih, Nat.add_comm 1 k]
        rfl
  obtain ⟨failures, decides, ran⟩ := b.retryWith_run attempt wait []
  refine ⟨failures, decides, ?_⟩
  have retried : b.retry outcomes = ⟨((b.retryWith attempt wait).run []).1,
    ((b.retryWith attempt wait).run []).2.reverse⟩ := rfl
  rw [retried, ran, waited]
  exact congrArg (Retried.mk _) (List.reverse_reverse _)

/-- Times, at most `count` of them, that never get shorter, with none longer than `most`. -/
structure Steady (most count : ℕ) (times : List ℕ) : Prop where
  longer : times.Pairwise (· ≤ ·)
  le : ∀ time ∈ times, time ≤ most
  sum_le : times.sum ≤ count * most

/-- Whatever is measured of waits, if longer ones have no less of it. -/
theorem steady_waits (b : Backoff) {measure : Duration → ℕ}
    (mono : ∀ {d d'}, d.nanos ≤ d'.nanos → measure d ≤ measure d') {k count : ℕ} (few : k ≤ count) :
    Steady (measure b.maxDelay) count (((List.range' 1 k).map b.delayAfter).map measure) := by
  have most : ∀ time ∈ ((List.range' 1 k).map b.delayAfter).map measure,
      time ≤ measure b.maxDelay := by
    simp only [List.map_map, List.forall_mem_map]
    exact fun n _ => mono (b.delayAfter_le n)
  refine ⟨?_, most, ?_⟩
  · rw [List.pairwise_map, List.pairwise_map]
    exact (List.pairwise_lt_range').imp fun less => mono (b.delayAfter_mono less.le)
  · have total := List.sum_le_card_nsmul _ _ most
    rw [List.length_map, List.length_map, List.length_range', smul_eq_mul] at total
    exact total.trans (Nat.mul_le_mul_right _ few)

/-- **Attempts and waits**: with `limit` attempts allowed, which is at least one, as many are made as
it takes until the first one succeeds, or else all of them, and the last one that is made gives the
result.  Each of the others has failed and is followed by the wait for it, and nothing else is done.
The waits never get shorter and none is longer than the longest one.  This is also so on a clock,
which sleeps for whole milliseconds and for no longer than it can.  And the number of an attempt
always fits into a word. -/
theorem retry_history (b : Backoff) (outcomes : ℕ → Except ε α) :
    let limit := max b.maxRetries.toNat 1
    ∃ last,
      (∀ first, IsLeast {n | 1 ≤ n ∧ ∃ a, outcomes n = .ok a} first → last = min first limit) ∧
      ((∀ n, 1 ≤ n → ∃ e, outcomes n = .error e) → last = limit) ∧
      b.history outcomes = (outcomes last, b.failing (last - 1) ++ [.attempt last]) ∧
      b.retry outcomes = ⟨outcomes last, (List.range' 1 (last - 1)).map b.delayAfter⟩ ∧
      Steady b.maxDelay.nanos (limit - 1) ((b.retry outcomes).waits.map Duration.nanos) ∧
      Steady b.maxDelay.sleepMillis (limit - 1)
        ((b.retry outcomes).waits.map Duration.sleepMillis) ∧
      ∀ n, .attempt n ∈ (b.history outcomes).2 → n < 2 ^ 32 := by
  intro limit
  obtain ⟨failures, decides, history⟩ := b.history_eq outcomes
  obtain ⟨failures', decides', retried⟩ := b.retry_eq outcomes
  obtain rfl := decides.unique decides'
  have few : failures ≤ limit - 1 := Nat.le_sub_one_of_lt decides.few
  have counted : limit < 2 ^ 32 := max_lt b.maxRetries.toNat_lt (by decide)
  refine ⟨failures + 1, fun first => decides.eq_min, decides.eq_of_failed, history, retried,
    ?_, ?_, fun n made => ?_⟩
  · rw [retried]
    exact b.steady_waits id few
  · rw [retried]
    exact b.steady_waits Duration.sleepMillis_mono few
  · have early : n ≤ failures + 1 := by
      rw [history] at made
      simp [failing] at made
      omega
    exact (early.trans decides.few).trans_lt counted

/-- Three attempts that fail. -/
example :
    (history ⟨3, .ofMillis 10, .ofMillis 15⟩ fun _ => (.error () : Except Unit Unit)).2 =
      [.attempt 1, .wait (.ofMillis 10), .attempt 2, .wait (.ofMillis 15), .attempt 3] := by
  decide

end Backoff

/-! ### Calls that connect -/

theorem Call.run_bind {σ ω α β : Type} {around : Surroundings σ ω} {call : Call σ α} {w w' : ω}
    {a : α} (ended : call.run around w = (w', .done a)) (next : α → Call σ β) :
    (call.bind next).run around w = (next a).run around w' := by
  induction call generalizing w with
  | done a => cases ended; rfl
  | look f ih => exact ih _ ended
  | change f call ih => exact ih ended
  | report context message call ih => exact ih ended
  | dial peer f ih => exact ih _ ended
  | listen address f ih => exact ih _ ended
  | sleep time call ih => exact ih ended
  | await prepare ready call ih =>
      rw [Call.run] at ended
      rw [Call.bind, Call.run]
      split
      · next holds => exact ih (by rwa [if_pos holds] at ended)
      · next waits => rw [if_neg waits] at ended; cases ended

/-- A call to connect never waits for a condition, so it comes to its end. -/
theorem Dials.exists_done {ω α : Type} {call : Call Socket α} (h : Dials call)
    (around : Surroundings Socket ω) (w : ω) : ∃ w' a, call.run around w = (w', .done a) := by
  induction h generalizing w with
  | done => exact ⟨w, _, rfl⟩
  | look _ ih => exact ih _ w
  | dropStale _ ih => exact ih _
  | report _ ih => exact ih _
  | @dial peer next after _ attached _ refused answered =>
      rw [Call.run]
      rcases around.dial peer w with ⟨w', none | c⟩
      · exact refused w'
      · dsimp only
        rw [attached c]
        exact answered c _
  | sleep _ ih => exact ih _

namespace Backoff

variable {ω : Type}

theorem run_retryFrom {σ ε α : Type} (b : Backoff) {around : Surroundings σ ω}
    {call : Call σ (Except ε α)} {attempt : StateM ω (Except ε α)}
    (ends : ∀ w, call.run around w = ((attempt.run w).2, .done (attempt.run w).1))
    (number left : ℕ) (w : ω) :
    let pause (time : Duration) : StateM ω Unit := modify (around.pause time)
    let made := (b.retryFrom (fun _ => attempt) pause number left).run w
    (b.retryFrom (fun _ => call) (fun time => .sleep time (.done ())) number left).run around w =
      (made.2, .done made.1) := by
  induction left generalizing number w with
  | zero => exact ends w
  | succ left ih =>
      refine (Call.run_bind (ends w) _).trans ?_
      rw [run_retryFrom_succ]
      rcases attempt.run w with ⟨e | a, w'⟩
      · exact ih (number + 1) _
      · rfl

/-- Connecting as often as it takes is a series of attempts to connect, whatever goes on around the
socket meanwhile. -/
theorem connectWithRetry_run (b : Backoff) (around : Surroundings Socket ω) (w : ω) :
    ∃ attempt : StateM ω (Except TransportError ℕ),
      (∀ w, Socket.connect.run around w = ((attempt.run w).2, .done (attempt.run w).1)) ∧
      let pause (time : Duration) : StateM ω Unit := modify (around.pause time)
      ∃ failures, Decides b.attempts (b.outcome (fun _ => attempt) pause w) failures ∧
        let made := attempt.run (b.afterFailures (fun _ => attempt) pause w failures)
        (Socket.connectWithRetry b).run around w = (made.2, .done made.1) := by
  choose left answer ended using Dials.connect.exists_done around
  let attempt : StateM ω (Except TransportError ℕ) := fun w => (answer w, left w)
  have ends : ∀ w, Socket.connect.run around w = ((attempt.run w).2, .done (attempt.run w).1) :=
    ended
  refine ⟨attempt, ends, ?_⟩
  intro pause
  obtain ⟨failures, decides, ran⟩ := b.retryWith_run (fun _ => attempt) pause w
  refine ⟨failures, decides, (b.run_retryFrom ends 1 (b.attempts - 1) w).trans ?_⟩
  exact congrArg (fun made => (made.2, Call.done made.1)) ran

end Backoff
end TreeCluster
