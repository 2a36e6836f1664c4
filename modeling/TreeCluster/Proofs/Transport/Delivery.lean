import TreeCluster.Proofs.Transport.Reading

/-! # What a connection delivers

The messages of a connection that were handed out by its reader are on their way to those who
receive: some were taken, some are in the inbox, and one may wait for a place (`Socket.passedOn`).
While there is a reader, a receiver loses none of them, and a subscriber may lose some but keeps
their order (`Socket.Delivers`).  Every step of the reading socket keeps this. -/

namespace TreeCluster

open Connection Wire

namespace Socket

variable {t t' : Socket} {c : ℕ} {origins origins' : List Bool} {taken taken' : List Message}
  {frames more : List (Message × Bytes)}

/-- The messages of a queue that came over the connection. -/
def own (queue : List Inbound) (origins : List Bool) : List Message :=
  (queue.zip origins).filterMap fun (m, mine) => if mine then some m.message else none

theorem own_append {queue queue' : List Inbound} (h : queue.length = origins.length) :
    own (queue ++ queue') (origins ++ origins') = own queue origins ++ own queue' origins' := by
  rw [own, List.zip_append h, List.filterMap_append]
  rfl

theorem own_cons (m : Inbound) (queue : List Inbound) (mine : Bool) :
    own (m :: queue) (mine :: origins) =
      (if mine then [m.message] else []) ++ own queue origins := by
  cases mine <;> rfl

@[simp] theorem length_push (inbox : Inbox) (m : Inbound) :
    (inbox.push m).queue.length = inbox.queue.length + 1 := by
  simp [Inbox.push]

theorem own_push {inbox : Inbox} (h : inbox.queue.length = origins.length) (m : Inbound)
    (mine : Bool) :
    own (inbox.push m).queue (origins ++ [mine]) =
      own inbox.queue origins ++ if mine then [m.message] else [] := by
  rw [Inbox.push, own_append h, own_cons]
  simp [own]

/-- The messages of the connection that wait for a place in the inbox. -/
def heldBy (t : Socket) (c : ℕ) : List Message :=
  (t.readersOf c).flatMap fun r => r.held.toList.map (·.message)

/-- The messages of the connection that its reader has passed on or waits with, where `taken`
were taken out of the inbox. -/
def passedOn (t : Socket) (c : ℕ) (origins : List Bool) (taken : List Message) : List Message :=
  taken ++ own t.inbox.queue origins ++ t.heldBy c

/-- The socket waits for a place in its inbox and takes every message out of it. -/
def Lossless (t : Socket) : Prop :=
  t.role ≠ .subscriber ∧ t.filter = []

/-- Of the messages `frames` that the reader has handed out, a socket has passed on some, in their
order.  If it is lossless, these are the first, and while there is a reader they are all. -/
structure Delivers (t : Socket) (c : ℕ) (origins : List Bool) (taken : List Message)
    (frames : List (Message × Bytes)) : Prop where
  aligned : t.inbox.queue.length = origins.length
  ordered : (t.passedOn c origins taken).Sublist (frames.map Prod.fst)
  front : t.Lossless → t.passedOn c origins taken <+: frames.map Prod.fst
  whole : t.Lossless → t.readersOf c ≠ [] → t.passedOn c origins taken = frames.map Prod.fst

/-- Messages may be lost on the way as long as the socket is not lossless or has no reader. -/
theorem Delivers.of_passedOn (h : Delivers t c origins taken frames)
    (aligned : t'.inbox.queue.length = origins'.length) (lossless : t'.Lossless → t.Lossless)
    (ordered : (t'.passedOn c origins' taken').Sublist (t.passedOn c origins taken))
    (front : t'.Lossless → t'.passedOn c origins' taken' <+: t.passedOn c origins taken)
    (whole : t'.Lossless → t'.readersOf c ≠ [] →
      t.readersOf c ≠ [] ∧ t'.passedOn c origins' taken' = t.passedOn c origins taken) :
    Delivers t' c origins' taken' frames where
  aligned := aligned
  ordered := ordered.trans h.ordered
  front strict := (front strict).trans (h.front (lossless strict))
  whole strict reading :=
    (whole strict reading).2.trans (h.whole (lossless strict) (whole strict reading).1)

theorem Delivers.of_eq (h : Delivers t c origins taken frames)
    (aligned : t'.inbox.queue.length = origins'.length) (lossless : t'.Lossless → t.Lossless)
    (readers : t'.readersOf c ≠ [] → t.readersOf c ≠ [])
    (same : t'.passedOn c origins' taken' = t.passedOn c origins taken) :
    Delivers t' c origins' taken' frames :=
  h.of_passedOn aligned lossless (same ▸ List.Sublist.refl _) (fun _ => same ▸ List.prefix_rfl)
    fun _ reading => ⟨readers reading, same⟩

/-- The reader hands out more messages, and they are passed on or dropped by a lossy socket. -/
theorem Delivers.extend (h : Delivers t c origins taken frames)
    (aligned : t'.inbox.queue.length = origins'.length) (lossless : t'.Lossless → t.Lossless)
    (reading : t.readersOf c ≠ [])
    (step : t'.passedOn c origins' taken = t.passedOn c origins taken ++ more.map Prod.fst ∨
      ¬t'.Lossless ∧ t'.passedOn c origins' taken = t.passedOn c origins taken) :
    Delivers t' c origins' taken (frames ++ more) := by
  obtain all | ⟨lossy, same⟩ := step
  · have whole : t'.Lossless →
        t'.passedOn c origins' taken = (frames ++ more).map Prod.fst := by
      intro strict
      rw [all, h.whole (lossless strict) reading, List.map_append]
    refine ⟨aligned, ?_, fun strict => whole strict ▸ List.prefix_rfl, fun strict _ => whole strict⟩
    rw [all, List.map_append]
    exact h.ordered.append_right _
  · refine ⟨aligned, ?_, fun strict => absurd strict lossy, fun strict => absurd strict lossy⟩
    rw [same, List.map_append]
    exact h.ordered.trans (List.sublist_append_left _ _)

/-! ### Steps -/

theorem readersOf_eq_or_nil (one : (t.readersOf c).length ≤ 1)
    (fewer : (t'.readersOf c).Sublist (t.readersOf c)) :
    t'.readersOf c = t.readersOf c ∨ t'.readersOf c = [] := by
  match ht : t'.readersOf c with
  | [] => exact Or.inr rfl
  | r :: rest =>
      refine Or.inl (ht ▸ fewer.eq_of_length_le ?_)
      rw [ht, List.length_cons]
      omega

theorem Delivers.releases (h : Delivers t c origins taken frames)
    (one : (t.readersOf c).length ≤ 1) (r : Releases c t t') :
    Delivers t' c origins taken frames := by
  have lossless : t'.Lossless → t.Lossless := by
    rintro ⟨role, filter⟩
    rw [r.role] at role
    exact ⟨role, (r.filter role).symm.trans filter⟩
  have aligned : t'.inbox.queue.length = origins.length := r.inbox ▸ h.aligned
  obtain same | none := readersOf_eq_or_nil one r.readers
  · exact h.of_eq aligned lossless (same ▸ id) (by simp only [passedOn, heldBy, same, r.inbox])
  · have lost : t'.passedOn c origins taken = taken ++ own t.inbox.queue origins := by
      simp [passedOn, heldBy, none, r.inbox]
    refine h.of_passedOn aligned lossless ?_ ?_ fun _ reading => absurd none reading
    · rw [lost]
      exact List.sublist_append_left _ _
    · intro _
      rw [lost]
      exact List.prefix_append _ _

theorem Delivers.mapReaders (h : Delivers t c origins taken frames) {f : Reader → Reader}
    (same : ∀ r, r.connection = c → (f r).connection = c) (held : ∀ r, (f r).held = r.held) :
    Delivers (t.mapReaders c f) c origins taken frames := by
  have readers := readersOf_mapReaders (t := t) (c := c) same
  refine h.of_eq h.aligned id ?_ ?_
  · rw [readers]
    exact fun some none => some (by simp [none])
  · simp only [passedOn, heldBy, readers, List.flatMap_map, held]
    rfl

/-- Before there is a reader nothing has been handed out. -/
theorem Delivers.attach (h : Delivers t c origins taken []) (none : t.readersOf c = [])
    (key : String) : Delivers (t.attachReader key c) c origins taken [] := by
  have nothing : (t.attachReader key c).passedOn c origins taken = [] := by
    have before := List.sublist_nil.mp h.ordered
    rw [passedOn, heldBy, none] at before
    rw [passedOn, heldBy, readersOf_attachReader none]
    exact before
  exact ⟨h.aligned, nothing ▸ List.Sublist.refl _, fun _ => nothing ▸ List.prefix_rfl,
    fun _ _ => nothing⟩

theorem Delivers.elsewhere (h : Delivers t c origins taken frames) (m : Inbound) :
    Delivers { t with inbox := t.inbox.push m } c (origins ++ [false]) taken frames := by
  refine h.of_eq ?_ id id ?_
  · simp [h.aligned]
  · simp [passedOn, own_push h.aligned, heldBy, readersOf]

theorem Lossless.wants (h : t.Lossless) (m : Inbound) : t.wants m = true := by
  rw [Socket.wants, h.2]
  rfl

theorem Delivers.skip (h : Delivers t c origins taken frames) {skipped rest : List Inbound}
    (split : t.inbox.queue = skipped ++ rest) (unwanted : ∀ m ∈ skipped, t.wants m = false) :
    Delivers (t.withQueue rest) c (origins.drop skipped.length) taken frames := by
  have length := h.aligned
  rw [split, List.length_append] at length
  have parts : own t.inbox.queue origins =
      own skipped (origins.take skipped.length) ++ own rest (origins.drop skipped.length) := by
    rw [← own_append, ← split, List.take_append_drop]
    rw [List.length_take]
    omega
  refine h.of_passedOn ?_ id ?_ ?_ ?_
  · simp only [withQueue, List.length_drop]
    omega
  · simp only [passedOn, parts, withQueue]
    exact ((List.sublist_append_right _ _).append_left _).append_right _
  all_goals
    intro strict
    have none : skipped = [] := by
      refine List.eq_nil_iff_forall_not_mem.mpr fun m hm => ?_
      have := unwanted m hm
      rw [Lossless.wants (t := t) strict m] at this
      cases this
    have same : (t.withQueue rest).passedOn c (origins.drop skipped.length) taken =
        t.passedOn c origins taken := by
      simp only [passedOn, parts, withQueue, none]
      rfl
  · exact same ▸ List.prefix_rfl
  · exact fun reading => ⟨reading, same⟩

theorem Delivers.pop {m : Inbound} {rest : List Inbound} {mine : Bool}
    (h : Delivers (t.withQueue (m :: rest)) c (mine :: origins) taken frames) :
    Delivers (t.withQueue rest) c origins (if mine then taken ++ [m.message] else taken)
      frames := by
  refine h.of_eq (Nat.succ.inj h.aligned) id id ?_
  cases mine <;> simp [passedOn, withQueue, own_cons, heldBy, readersOf]

theorem Delivers.take (h : Delivers t c origins taken frames) {skipped rest : List Inbound}
    {m : Inbound} (split : t.inbox.queue = skipped ++ m :: rest)
    (unwanted : ∀ m ∈ skipped, t.wants m = false) :
    Delivers (t.withQueue rest) c (origins.drop (skipped.length + 1))
      (if origins[skipped.length]? = some true then taken ++ [m.message] else taken) frames := by
  have skip := h.skip split unwanted
  cases ho : origins.drop skipped.length with
  | nil =>
      rw [ho] at skip
      exact absurd skip.aligned (by simp [withQueue])
  | cons mine more =>
      rw [ho] at skip
      have tail : origins.drop (skipped.length + 1) = more := by
        rw [← List.drop_drop, ho]
        rfl
      have head : origins[skipped.length]? = some mine := by
        rw [← List.head?_drop, ho]
        rfl
      rw [tail, head]
      simpa using skip.pop

/-- What the reader hands out comes behind what it has passed on before. -/
theorem Delivers.forward (h : Delivers t c origins taken frames) {arrived : Bytes}
    (reads : Reads t c arrived frames) {r r' : Reader} (mine : r ∈ t.readersOf c)
    (step : r.Forwarded (t.role = .subscriber) t.inbox r' t'.inbox)
    (alone : t'.readersOf c = [r']) (role : t'.role = t.role) (filter : t'.filter = t.filter) :
    ∃ more, Reads t' c arrived (frames ++ more) ∧
      Delivers t' c
        (origins ++ List.replicate (t'.inbox.queue.length - t.inbox.queue.length) true) taken
        (frames ++ more) := by
  have only := reads.eq_singleton mine
  have some : t.readersOf c ≠ [] := by simp [only]
  have lossless : t'.Lossless → t.Lossless := by
    rw [Lossless, Lossless, role, filter]
    exact id
  have before : t.passedOn c origins taken =
      taken ++ own t.inbox.queue origins ++ r.held.toList.map (·.message) := by
    simp [passedOn, heldBy, only]
  have after : ∀ origins', t'.passedOn c origins' taken =
      taken ++ own t'.inbox.queue origins' ++ r'.held.toList.map (·.message) := by
    intro origins'
    simp [passedOn, heldBy, alone]
  have still : r.buffer.Keeps [] [] r.buffer := FrameBuffer.keeps_run (reads.consistent mine) []
  have next := FrameBuffer.keeps_next (reads.consistent mine)
  generalize hi : t'.inbox = inbox at step after
  -- what is passed on is longer by what is handed out, unless that is dropped
  cases step with
  | blocked held =>
      refine ⟨[], by simpa using reads.of_keeps mine alone still,
        h.extend ?_ lossless some (Or.inl ?_)⟩
      · simp [hi, h.aligned]
      · simp [before, after]
  | released held =>
      refine ⟨[], by simpa using reads.of_keeps mine alone still,
        h.extend ?_ lossless some (Or.inl ?_)⟩
      · simp [hi, h.aligned]
      · simp [before, after, held, own_push h.aligned]
  | idle held hn silent =>
      rw [hn] at next
      obtain ⟨frame, handed, -⟩ | ⟨-, step⟩ := next
      · exact absurd handed (silent frame)
      · refine ⟨[], by simpa using reads.of_keeps mine alone step,
          h.extend ?_ lossless some (Or.inl ?_)⟩
        · simp [hi, h.aligned]
        · simp [before, after]
  | passed held hn =>
      rw [hn] at next
      obtain ⟨frame, handed, step⟩ | ⟨silent, -⟩ := next
      · obtain rfl := Option.some.inj (Except.ok.inj handed)
        refine ⟨_, by simpa using reads.of_keeps mine alone step,
          h.extend ?_ lossless some (Or.inl ?_)⟩
        · simp [hi, h.aligned]
        · simp [before, after, held, own_push h.aligned]
      · exact absurd rfl (silent _)
  | dropped lossy held hn =>
      rw [hn] at next
      obtain ⟨frame, handed, step⟩ | ⟨silent, -⟩ := next
      · refine ⟨_, by simpa using reads.of_keeps mine alone step,
          h.extend ?_ lossless some (Or.inr ⟨?_, ?_⟩)⟩
        · simp [hi, h.aligned]
        · exact fun strict => (lossless strict).1 (of_decide_eq_true lossy)
        · simp [before, after]
      · exact absurd rfl (silent _)
  | kept held hn =>
      rw [hn] at next
      obtain ⟨frame, handed, step⟩ | ⟨silent, -⟩ := next
      · obtain rfl := Option.some.inj (Except.ok.inj handed)
        refine ⟨_, by simpa using reads.of_keeps mine alone step,
          h.extend ?_ lossless some (Or.inl ?_)⟩
        · simp [hi, h.aligned]
        · simp [before, after, held]
      · exact absurd rfl (silent _)

end Socket
end TreeCluster
