import TreeCluster.Proofs.Transport.Delivery

/-! # What a connection brings, whoever writes to it

A step of a reader takes messages from its buffer and passes on or holds all that it had, unless
the inbox is full and the reader is lossy (`Connection.Reader.forward_account`).  So the messages
that were split off are on their way to those who receive: in the inbox, or held by the reader
(`Socket.inTransit`).

Those that calls have taken and those in transit are some of the messages that were split off, in
their order.  In steady times, when the inbox has room and the filter stays as it is, no wanted
message gets lost (`Socket.Conveys`).  Every step of the reading socket keeps this. -/

namespace TreeCluster

open Connection Wire

namespace Connection

/-- A received message with its bytes. -/
def Inbound.frame (m : Inbound) : Message × Bytes :=
  (m.message, m.raw)

namespace Reader

/-- The message that waits for a place in the inbox. -/
def waiting (r : Reader) : List (Message × Bytes) :=
  r.held.toList.map Inbound.frame

theorem Forwarded.account {r r' : Reader} {lossy : Bool} {inbox inbox' : Inbox}
    (step : Forwarded r lossy inbox r' inbox') (consistent : r.buffer.Consistent) :
    ∃ more passed, r.buffer.Keeps [] more r'.buffer ∧ inbox'.queue = inbox.queue ++ passed ∧
      (passed.map Inbound.frame ++ r'.waiting).Sublist (r.waiting ++ more) ∧
      (lossy = false → passed.map Inbound.frame ++ r'.waiting = r.waiting ++ more) := by
  have still : r.buffer.Keeps [] [] r.buffer := FrameBuffer.keeps_run consistent []
  have next := FrameBuffer.keeps_next consistent
  cases step with
  | blocked held => exact ⟨[], [], still, by simp, by simp, by simp⟩
  | @released m held => exact ⟨[], [m], still, rfl, by simp [waiting, held], by simp [waiting, held]⟩
  | idle held hn silent =>
      rw [hn] at next
      obtain ⟨frame, handed, -⟩ | ⟨-, keeps⟩ := next
      · exact absurd handed (silent frame)
      · exact ⟨[], [], keeps, by simp, by simp [waiting], by simp [waiting]⟩
  | @passed m raw buffer held hn =>
      rw [hn] at next
      obtain ⟨frame, handed, keeps⟩ | ⟨silent, -⟩ := next
      · obtain rfl := Option.some.inj (Except.ok.inj handed)
        refine ⟨_, [⟨m, raw⟩], keeps, rfl, ?_, fun _ => ?_⟩ <;> simp [waiting, held, Inbound.frame]
      · exact absurd rfl (silent _)
  | dropped lossy held hn =>
      rw [hn] at next
      obtain ⟨frame, handed, keeps⟩ | ⟨silent, -⟩ := next
      · exact ⟨_, [], keeps, by simp, by simp [waiting, held], by simp [lossy]⟩
      · exact absurd rfl (silent _)
  | kept held hn =>
      rw [hn] at next
      obtain ⟨frame, handed, keeps⟩ | ⟨silent, -⟩ := next
      · obtain rfl := Option.some.inj (Except.ok.inj handed)
        refine ⟨_, [], keeps, by simp, ?_, fun _ => ?_⟩ <;> simp [waiting, held, Inbound.frame]
      · exact absurd rfl (silent _)

/-- **What a reader does with the messages**: it takes `more` from its buffer and puts `passed`
into the inbox.  What it puts there and what it holds then are some of what it held before and of
what it took, in this order, and they are all of it if the inbox has room. -/
theorem forward_account {r : Reader} (consistent : r.buffer.Consistent) (lossy : Bool)
    (inbox : Inbox) :
    let r' := (r.forward lossy inbox).1
    ∃ more passed, r.buffer.Keeps [] more r'.buffer ∧
      (r.forward lossy inbox).2.1.queue = inbox.queue ++ passed ∧
      (passed.map Inbound.frame ++ r'.waiting).Sublist (r.waiting ++ more) ∧
      (inbox.isFull = false → passed.map Inbound.frame ++ r'.waiting = r.waiting ++ more) := by
  intro r'
  cases full : inbox.isFull with
  | true =>
      obtain ⟨more, passed, keeps, queue, some, -⟩ :=
        (r.forward_forwarded lossy inbox).account consistent
      exact ⟨more, passed, keeps, queue, some, nofun⟩
  | false =>
      -- with room a lossy reader does what any other does
      have same : r.forward lossy inbox = r.forward false inbox := by simp [forward, full]
      obtain ⟨more, passed, keeps, queue, some, all⟩ :=
        (r.forward_forwarded false inbox).account consistent
      rw [← same] at keeps queue some all
      exact ⟨more, passed, keeps, queue, some, fun _ => all rfl⟩

end Reader
end Connection

namespace Socket

variable {steady : Prop} {f : Bytes} {t t' : Socket} {c : ℕ} {origins origins' : List Bool}
  {handed handed' frames : List (Message × Bytes)}

/-- The messages of a queue that came over the connection, with their bytes. -/
def ownFrames (queue : List Inbound) (origins : List Bool) : List (Message × Bytes) :=
  (queue.zip origins).filterMap fun (m, mine) => if mine then some m.frame else none

theorem ownFrames_append {queue queue' : List Inbound} (h : queue.length = origins.length) :
    ownFrames (queue ++ queue') (origins ++ origins') =
      ownFrames queue origins ++ ownFrames queue' origins' := by
  rw [ownFrames, List.zip_append h, List.filterMap_append]
  rfl

theorem ownFrames_cons (m : Inbound) (queue : List Inbound) (mine : Bool) :
    ownFrames (m :: queue) (mine :: origins) =
      (if mine then [m.frame] else []) ++ ownFrames queue origins := by
  cases mine <;> rfl

theorem ownFrames_mine (queue : List Inbound) :
    ownFrames queue (List.replicate queue.length true) = queue.map Inbound.frame := by
  induction queue with
  | nil => rfl
  | cons m queue ih => exact congrArg (m.frame :: ·) ih

theorem ownFrames_others (queue : List Inbound) :
    ownFrames queue (List.replicate queue.length false) = [] := by
  induction queue with
  | nil => rfl
  | cons m queue ih => exact ih

/-- The messages of the connection that were split off the stream and that no call has taken. -/
def inTransit (t : Socket) (c : ℕ) (origins : List Bool) : List (Message × Bytes) :=
  ownFrames t.inbox.queue origins ++ (t.readersOf c).flatMap Reader.waiting

/-- The bytes of a message begin with those of the filter. -/
def wanted (f : Bytes) (frame : Message × Bytes) : Bool :=
  f.isPrefixOf frame.2

theorem filter_ownFrames {queue : List Inbound} (unwanted : ∀ m ∈ queue, t.wants m = false)
    (origins : List Bool) : (ownFrames queue origins).filter (wanted t.filter) = [] := by
  rw [List.filter_eq_nil_iff]
  intro frame inside
  obtain ⟨⟨m, mine⟩, zipped, found⟩ := List.mem_filterMap.mp inside
  obtain rfl : m.frame = frame := by
    cases mine with
    | true => exact Option.some.inj found
    | false => cases found
  rw [show wanted t.filter m.frame = t.wants m from rfl, unwanted m (List.of_mem_zip zipped).1]
  nofun

/-- Of the messages `frames` that the reader has split off, those `handed` to calls and those in
transit are some, in their order.  In steady times the filter is `f`, every wanted message is still
there as long as there is a reader, and later the first ones are. -/
structure Conveys (steady : Prop) (f : Bytes) (t : Socket) (c : ℕ) (origins : List Bool)
    (handed frames : List (Message × Bytes)) : Prop where
  aligned : t.inbox.queue.length = origins.length
  ordered : (handed ++ t.inTransit c origins).Sublist frames
  filter : steady → t.filter = f
  front : steady →
    handed ++ (t.inTransit c origins).filter (wanted f) <+: frames.filter (wanted f)
  whole : steady → t.readersOf c ≠ [] →
    handed ++ (t.inTransit c origins).filter (wanted f) = frames.filter (wanted f)

/-- Messages move on, and some may get lost at the end when there is no reader any more. -/
theorem Conveys.of_inTransit (h : Conveys steady f t c origins handed frames)
    (aligned : t'.inbox.queue.length = origins'.length) (filter : steady → t'.filter = t.filter)
    (ordered : (handed' ++ t'.inTransit c origins').Sublist (handed ++ t.inTransit c origins))
    (front : steady → handed' ++ (t'.inTransit c origins').filter (wanted f) <+:
      handed ++ (t.inTransit c origins).filter (wanted f))
    (whole : steady → t'.readersOf c ≠ [] → t.readersOf c ≠ [] ∧
      handed' ++ (t'.inTransit c origins').filter (wanted f) =
        handed ++ (t.inTransit c origins).filter (wanted f)) :
    Conveys steady f t' c origins' handed' frames where
  aligned := aligned
  ordered := ordered.trans h.ordered
  filter calm := (filter calm).trans (h.filter calm)
  front calm := (front calm).trans (h.front calm)
  whole calm reading := (whole calm reading).2.trans (h.whole calm (whole calm reading).1)

theorem Conveys.of_eq (h : Conveys steady f t c origins handed frames)
    (aligned : t'.inbox.queue.length = origins'.length) (filter : steady → t'.filter = t.filter)
    (readers : t'.readersOf c ≠ [] → t.readersOf c ≠ [])
    (same : t'.inTransit c origins' = t.inTransit c origins) :
    Conveys steady f t' c origins' handed frames :=
  h.of_inTransit aligned filter (same ▸ List.Sublist.refl _) (fun _ => same ▸ List.prefix_rfl)
    fun _ reading => ⟨readers reading, by rw [same]⟩

theorem Conveys.releases (h : Conveys steady f t c origins handed frames)
    (one : (t.readersOf c).length ≤ 1) (r : Releases c t t')
    (filter : steady → t'.filter = t.filter) : Conveys steady f t' c origins handed frames := by
  have aligned : t'.inbox.queue.length = origins.length := r.inbox ▸ h.aligned
  obtain same | none := readersOf_eq_or_nil one r.readers
  · exact h.of_eq aligned filter (same ▸ id) (by simp only [inTransit, same, r.inbox])
  · -- the reader goes, with the message that it held
    have before : t.inTransit c origins =
        t'.inTransit c origins ++ (t.readersOf c).flatMap Reader.waiting := by
      simp [inTransit, none, r.inbox]
    refine h.of_inTransit aligned filter ?_ (fun _ => ?_) fun _ reading => absurd none reading
    · rw [before]
      exact (List.sublist_append_left _ _).append_left _
    · rw [before, List.filter_append]
      exact (List.prefix_append_right_inj _).mpr (List.prefix_append _ _)

theorem Conveys.mapReaders (h : Conveys steady f t c origins handed frames) {g : Reader → Reader}
    (same : ∀ r, r.connection = c → (g r).connection = c) (held : ∀ r, (g r).held = r.held) :
    Conveys steady f (t.mapReaders c g) c origins handed frames := by
  have readers := readersOf_mapReaders (t := t) (c := c) same
  refine h.of_eq h.aligned (fun _ => rfl) ?_ ?_
  · rw [readers]
    exact fun some none => some (by simp [none])
  · simp only [inTransit, readers, List.flatMap_map, Reader.waiting, held]
    rfl

theorem Conveys.attach (h : Conveys steady f t c origins handed []) (none : t.readersOf c = [])
    (key : String) : Conveys steady f (t.attachReader key c) c origins handed [] := by
  have same : (t.attachReader key c).inTransit c origins = t.inTransit c origins := by
    rw [inTransit, inTransit, none, readersOf_attachReader none]
    rfl
  obtain ⟨rfl, nothing⟩ := List.append_eq_nil_iff.mp (List.sublist_nil.mp h.ordered)
  refine ⟨h.aligned, ?_, h.filter, ?_, ?_⟩ <;> rw [same, nothing] <;> simp

theorem Conveys.elsewhere (h : Conveys steady f t c origins handed frames) (m : Inbound) :
    Conveys steady f { t with inbox := t.inbox.push m } c (origins ++ [false]) handed frames := by
  refine h.of_eq (by simp [h.aligned]) (fun _ => rfl) id ?_
  have queue : ownFrames (t.inbox.push m).queue (origins ++ [false]) =
      ownFrames t.inbox.queue origins :=
    (ownFrames_append h.aligned).trans (List.append_nil _)
  rw [inTransit, queue]
  rfl

theorem Conveys.skip (h : Conveys steady f t c origins handed frames) {skipped rest : List Inbound}
    (split : t.inbox.queue = skipped ++ rest) (unwanted : ∀ m ∈ skipped, t.wants m = false) :
    Conveys steady f (t.withQueue rest) c (origins.drop skipped.length) handed frames := by
  have length := h.aligned
  rw [split, List.length_append] at length
  have parts : t.inTransit c origins = ownFrames skipped (origins.take skipped.length) ++
      (t.withQueue rest).inTransit c (origins.drop skipped.length) := by
    have cut : ownFrames t.inbox.queue origins =
        ownFrames skipped (origins.take skipped.length) ++
          ownFrames rest (origins.drop skipped.length) := by
      rw [← ownFrames_append, ← split, List.take_append_drop]
      rw [List.length_take]
      omega
    rw [inTransit, cut, List.append_assoc]
    rfl
  have same : steady → (t.inTransit c origins).filter (wanted f) =
      ((t.withQueue rest).inTransit c (origins.drop skipped.length)).filter (wanted f) := by
    intro calm
    rw [parts, List.filter_append, ← h.filter calm, filter_ownFrames unwanted, List.nil_append]
  refine h.of_inTransit ?_ (fun _ => rfl) ?_ (fun calm => ?_) fun calm reading => ⟨reading, ?_⟩
  · simp only [withQueue, List.length_drop]
    omega
  · rw [parts]
    exact (List.sublist_append_right _ _).append_left _
  · rw [same calm]
  · rw [same calm]

theorem Conveys.pop {m : Inbound} {rest : List Inbound} {mine : Bool}
    (h : Conveys steady f (t.withQueue (m :: rest)) c (mine :: origins) handed frames)
    (want : t.wants m = true) :
    Conveys steady f (t.withQueue rest) c origins
      (handed ++ if mine then [m.frame] else []) frames := by
  have first : (t.withQueue (m :: rest)).inTransit c (mine :: origins) =
      (if mine then [m.frame] else []) ++ (t.withQueue rest).inTransit c origins := by
    simp [inTransit, withQueue, ownFrames_cons, readersOf]
  have kept : steady → (if mine then [m.frame] else []).filter (wanted f) =
      if mine then [m.frame] else [] := by
    intro calm
    have chosen : wanted f m.frame = true := (h.filter calm).symm ▸ want
    cases mine <;> simp [chosen]
  refine h.of_inTransit (Nat.succ.inj h.aligned) (fun _ => rfl) ?_ (fun calm => ?_)
    fun calm reading => ⟨reading, ?_⟩
  · rw [first, List.append_assoc]
  · rw [first, List.filter_append, kept calm, List.append_assoc]
  · rw [first, List.filter_append, kept calm, List.append_assoc]

theorem Conveys.take (h : Conveys steady f t c origins handed frames)
    {skipped rest : List Inbound} {m : Inbound} (split : t.inbox.queue = skipped ++ m :: rest)
    (unwanted : ∀ m ∈ skipped, t.wants m = false) (want : t.wants m = true) :
    Conveys steady f (t.withQueue rest) c (origins.drop (skipped.length + 1))
      (handed ++ if origins[skipped.length]? = some true then [m.frame] else []) frames := by
  have skip := h.skip split unwanted
  cases ho : origins.drop skipped.length with
  | nil =>
      rw [ho] at skip
      exact absurd skip.aligned (by simp [withQueue])
  | cons mine more =>
      rw [ho] at skip
      have tail : origins.drop (skipped.length + 1) = more := by
        rw [← List.drop_drop, ho]
        rfl
      have head : origins[skipped.length]? = some mine := by
        rw [← List.head?_drop, ho]
        rfl
      rw [tail, head]
      simpa using skip.pop want

/-- The reader splits off `more`, and passes on or holds what it has, all of it in steady times. -/
theorem Conveys.forward (h : Conveys steady f t c origins handed frames) {r r' : Reader}
    {more : List (Message × Bytes)} {passed : List Inbound} (before : t.readersOf c = [r])
    (after : t'.readersOf c = [r']) (filter : t'.filter = t.filter)
    (queue : t'.inbox.queue = t.inbox.queue ++ passed)
    (some : (passed.map Inbound.frame ++ r'.waiting).Sublist (r.waiting ++ more))
    (all : steady → passed.map Inbound.frame ++ r'.waiting = r.waiting ++ more) :
    Conveys steady f t' c (origins ++ List.replicate passed.length true) handed
      (frames ++ more) := by
  have was : t.inTransit c origins = ownFrames t.inbox.queue origins ++ r.waiting := by
    simp [inTransit, before]
  have is : t'.inTransit c (origins ++ List.replicate passed.length true) =
      ownFrames t.inbox.queue origins ++ (passed.map Inbound.frame ++ r'.waiting) := by
    simp [inTransit, after, queue, ownFrames_append h.aligned, ownFrames_mine]
  have whole : steady →
      handed ++ (t'.inTransit c (origins ++ List.replicate passed.length true)).filter (wanted f) =
        (frames ++ more).filter (wanted f) := by
    intro calm
    rw [is, all calm, ← List.append_assoc, ← was, List.filter_append, ← List.append_assoc,
      h.whole calm (by simp [before]), List.filter_append]
  refine ⟨?_, ?_, fun calm => filter.trans (h.filter calm), fun calm => whole calm ▸ List.prefix_rfl,
    fun calm _ => whole calm⟩
  · simp [queue, h.aligned]
  · have ordered := h.ordered
    rw [was] at ordered
    rw [is]
    refine ((some.append_left _).append_left _).trans ?_
    simpa only [List.append_assoc] using ordered.append_right more

end Socket
end TreeCluster
