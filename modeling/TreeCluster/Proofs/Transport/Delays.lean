import Mathlib
import TreeCluster.Transport.Backoff

/-! # Waits that double

The wait after a failed attempt is the base delay, doubled once for each earlier failure, but at
most the limit.  This is so for the first thirty-two attempts.  From then on the wait is the limit
(`nanos_delayAfter`), also where the base delay is so short that it would not have been reached
(`exists_leap`): the doubled delay is what is waited for after every attempt exactly if thirty-two
doublings reach the limit (`delayAfter_eq_iff`).

In any case the waits never get shorter and never pass the limit (`delayAfter_mono`,
`delayAfter_le`). -/

namespace TreeCluster

namespace Duration

theorem nanos_min (d d' : Duration) : (d.min d').nanos = Min.min d.nanos d'.nanos := by
  rw [Duration.min, min_def]
  split <;> rfl

theorem sleepMillis_mono {d d' : Duration} (h : d.nanos ≤ d'.nanos) :
    d.sleepMillis ≤ d'.sleepMillis := by
  rw [sleepMillis, sleepMillis, nanos_min, nanos_min]
  exact Nat.div_le_div_right (Nat.add_le_add_right (min_le_min_right _ h) _)

end Duration

namespace Backoff

/-- The base delay, doubled so many times, in nanoseconds. -/
def doubled (b : Backoff) (doublings : ℕ) : ℕ :=
  b.baseDelay.nanos * 2 ^ doublings

variable {b : Backoff}

theorem doubled_mono (b : Backoff) : Monotone b.doubled :=
  fun _ _ h => Nat.mul_le_mul_left _ (Nat.pow_le_pow_right two_pos h)

/-- The delay is doubled as long as the factor is known and the product is a span of time. -/
theorem nanos_delayAfter_succ (b : Backoff) (doublings : ℕ) :
    (b.delayAfter (doublings + 1)).nanos =
      if doublings ≤ maxDoublings ∧ b.doubled doublings ≤ Duration.longest.nanos then
        min (b.doubled doublings) b.maxDelay.nanos
      else b.maxDelay.nanos := by
  rw [delayAfter]
  by_cases few : doublings ≤ maxDoublings
  · by_cases short : b.doubled doublings ≤ Duration.longest.nanos
    · have product : b.baseDelay.times? (Nat.pow 2 doublings) = some ⟨b.doubled doublings⟩ :=
        if_pos short
      rw [if_pos few, if_pos ⟨few, short⟩, product]
      exact Duration.nanos_min _ _
    · have product : b.baseDelay.times? (Nat.pow 2 doublings) = none := if_neg short
      rw [if_pos few, if_neg (fun h => short h.2), product]
  · rw [if_neg few, if_neg (fun h => few h.1)]

theorem delayAfter_le (b : Backoff) (attempt : ℕ) :
    (b.delayAfter attempt).nanos ≤ b.maxDelay.nanos := by
  cases attempt with
  | zero => exact Nat.zero_le _
  | succ doublings =>
      rw [nanos_delayAfter_succ]
      split
      · exact min_le_right _ _
      · exact le_rfl

theorem delayAfter_mono (b : Backoff) : Monotone fun attempt => (b.delayAfter attempt).nanos := by
  refine monotone_nat_of_le_succ fun attempt => ?_
  cases attempt with
  | zero => exact Nat.zero_le _
  | succ doublings =>
      rw [b.nanos_delayAfter_succ (doublings + 1)]
      split
      · next h =>
          have before : doublings ≤ maxDoublings ∧ b.doubled doublings ≤ Duration.longest.nanos :=
            ⟨(Nat.le_succ _).trans h.1, (b.doubled_mono (Nat.le_succ _)).trans h.2⟩
          rw [nanos_delayAfter_succ, if_pos before]
          exact min_le_min_right _ (b.doubled_mono (Nat.le_succ _))
      · exact b.delayAfter_le _

/-- With a limit that is a span of time, the delay is doubled and limited up to attempt number
thirty-two, and from then on it is the limit. -/
theorem nanos_delayAfter (representable : b.maxDelay.nanos ≤ Duration.longest.nanos)
    {attempt : ℕ} (first : 1 ≤ attempt) :
    (b.delayAfter attempt).nanos =
      if attempt ≤ 32 then min (b.doubled (attempt - 1)) b.maxDelay.nanos
      else b.maxDelay.nanos := by
  obtain ⟨doublings, rfl⟩ := Nat.exists_eq_add_of_le' first
  rw [nanos_delayAfter_succ, Nat.add_sub_cancel, maxDoublings]
  by_cases few : doublings ≤ 31
  · rw [if_pos (Nat.succ_le_succ few : doublings + 1 ≤ 32)]
    split
    · rfl
    · next h =>
        -- what is no span of time is longer than the limit
        have long : Duration.longest.nanos < b.doubled doublings :=
          Nat.lt_of_not_le fun short => h ⟨few, short⟩
        rw [min_eq_right (representable.trans long.le)]
  · rw [if_neg (fun h => few h.1), if_neg (fun h => few (Nat.le_of_succ_le_succ h))]

/-- **Waits double up to the limit**: after each of the first thirty-two attempts the wait is the
base delay, doubled once for each earlier failure, or the limit if that is shorter, and after every
later attempt it is the limit.  So it is the doubled and limited delay exactly if the attempt is one
of the first or the doubled delay reaches the limit, and it is so after every attempt exactly if
thirty-two doublings reach the limit. -/
theorem delayAfter_eq_iff (b : Backoff)
    (representable : b.maxDelay.nanos ≤ Duration.longest.nanos) :
    (∀ n, 1 ≤ n → (b.delayAfter n).nanos =
      if n ≤ 32 then min (b.baseDelay.nanos * 2 ^ (n - 1)) b.maxDelay.nanos
      else b.maxDelay.nanos) ∧
    (∀ n, 1 ≤ n → ((b.delayAfter n).nanos =
        min (b.baseDelay.nanos * 2 ^ (n - 1)) b.maxDelay.nanos ↔
      n ≤ 32 ∨ b.maxDelay.nanos ≤ b.baseDelay.nanos * 2 ^ (n - 1))) ∧
    ((∀ n, 1 ≤ n → (b.delayAfter n).nanos =
        min (b.baseDelay.nanos * 2 ^ (n - 1)) b.maxDelay.nanos) ↔
      b.maxDelay.nanos ≤ b.baseDelay.nanos * 2 ^ 32) := by
  have value : ∀ n, 1 ≤ n → (b.delayAfter n).nanos =
      if n ≤ 32 then min (b.doubled (n - 1)) b.maxDelay.nanos else b.maxDelay.nanos :=
    fun n => nanos_delayAfter representable
  have exact_iff : ∀ n, 1 ≤ n →
      ((b.delayAfter n).nanos = min (b.doubled (n - 1)) b.maxDelay.nanos ↔
        n ≤ 32 ∨ b.maxDelay.nanos ≤ b.doubled (n - 1)) := by
    intro n first
    rw [value n first]
    split
    · next few => exact iff_of_true rfl (Or.inl few)
    · next many =>
        rw [eq_comm, min_eq_right_iff]
        exact (or_iff_right many).symm
  refine ⟨value, exact_iff, fun always => ?_, fun reached n first => ?_⟩
  · exact ((exact_iff 33 (by decide)).mp (always 33 (by decide))).resolve_left (by decide)
  · refine (exact_iff n first).mpr ((Nat.lt_or_ge 32 n).symm.imp id fun many => ?_)
    exact reached.trans (b.doubled_mono (Nat.le_sub_one_of_lt many))

/-- The standard waits are doubled and limited after every attempt. -/
theorem delayAfter_eq_iff_of_standard :
    standard.maxDelay.nanos ≤ Duration.longest.nanos ∧
      ∀ n, 1 ≤ n → (standard.delayAfter n).nanos =
        min (standard.baseDelay.nanos * 2 ^ (n - 1)) standard.maxDelay.nanos :=
  ⟨by decide, (standard.delayAfter_eq_iff (by decide)).2.2.mpr (by decide)⟩

/-- A base delay of nothing, doubled thirty-two times, is nothing, and one of a millisecond is less
than the limit here.  But after attempt number thirty-three the wait is the limit. -/
theorem exists_leap :
    let idle : Backoff := ⟨40, .zero, .ofMillis 1000⟩
    let brief : Backoff := ⟨40, .ofMillis 1, .ofMillis 8589934592⟩
    idle.delayAfter 32 = .zero ∧ idle.delayAfter 33 = .ofMillis 1000 ∧
      (idle.delayAfter 33).nanos ≠
        min (idle.baseDelay.nanos * 2 ^ (33 - 1)) idle.maxDelay.nanos ∧
    brief.delayAfter 32 = .ofMillis 2147483648 ∧ brief.delayAfter 33 = .ofMillis 8589934592 ∧
      (brief.delayAfter 33).nanos ≠
        min (brief.baseDelay.nanos * 2 ^ (33 - 1)) brief.maxDelay.nanos := by
  decide

end Backoff
end TreeCluster
