import TreeCluster.Proofs.Transport.Link

/-! # The reading end of a link

The reader of a connection has split the bytes that arrived into messages and keeps the rest
(`Reads`).  It passes each message on to the inbox, waits with it, or, if it is lossy and the inbox
is full, drops it (`Forwarded`, `forward_forwarded`). -/

namespace TreeCluster

open Connection Wire

namespace Connection.Reader

/-- What a step of a reader does, to the reader and to the inbox. -/
inductive Forwarded (r : Reader) (lossy : Bool) (inbox : Inbox) : Reader → Inbox → Prop
  /-- A message goes on waiting. -/
  | blocked {m : Inbound} : r.held = some m → Forwarded r lossy inbox r inbox
  /-- The message that waited finds a place. -/
  | released {m : Inbound} :
      r.held = some m → Forwarded r lossy inbox { r with held := none } (inbox.push m)
  /-- There is no message to pass on. -/
  | idle {answer : Answer} {buffer : FrameBuffer} {finished : Bool} :
      r.held = none → r.buffer.next = (answer, buffer) → (∀ frame, answer ≠ .ok (some frame)) →
        Forwarded r lossy inbox { r with buffer, finished } inbox
  /-- The next message is passed on. -/
  | passed {m : Message} {raw : Bytes} {buffer : FrameBuffer} :
      r.held = none → r.buffer.next = (.ok (some (m, raw)), buffer) →
        Forwarded r lossy inbox { r with buffer } (inbox.push ⟨m, raw⟩)
  /-- The next message is dropped. -/
  | dropped {m : Message} {raw : Bytes} {buffer : FrameBuffer} :
      lossy = true → r.held = none → r.buffer.next = (.ok (some (m, raw)), buffer) →
        Forwarded r lossy inbox { r with buffer } inbox
  /-- The next message has to wait. -/
  | kept {m : Message} {raw : Bytes} {buffer : FrameBuffer} :
      r.held = none → r.buffer.next = (.ok (some (m, raw)), buffer) →
        Forwarded r lossy inbox { r with buffer, held := some ⟨m, raw⟩ } inbox

theorem forward_forwarded (r : Reader) (lossy : Bool) (inbox : Inbox) :
    Forwarded r lossy inbox (r.forward lossy inbox).1 (r.forward lossy inbox).2.1 := by
  obtain ⟨key, connection, buffer, held, finished⟩ := r
  cases held with
  | some m =>
      simp only [forward]
      split_ifs
      · exact .blocked rfl
      · exact .released rfl
  | none =>
      cases hn : buffer.next with
      | mk answer rest =>
          match answer with
          | .error e =>
              simp only [forward, hn]
              exact .idle rfl hn (by simp)
          | .ok none =>
              simp only [forward, hn]
              exact .idle rfl hn (by simp)
          | .ok (some (m, raw)) =>
              simp only [forward, hn]
              split_ifs with room drops
              · exact .passed rfl hn
              · exact .dropped drops rfl hn
              · exact .kept rfl hn

theorem forward_link (r : Reader) (lossy : Bool) (inbox : Inbox) :
    ((r.forward lossy inbox).1.key, (r.forward lossy inbox).1.connection) =
      (r.key, r.connection) := by
  have h := r.forward_forwarded lossy inbox
  generalize (r.forward lossy inbox).1 = r', (r.forward lossy inbox).2.1 = inbox' at h
  cases h <;> rfl

theorem forward_connection (r : Reader) (lossy : Bool) (inbox : Inbox) :
    (r.forward lossy inbox).1.connection = r.connection :=
  congrArg Prod.snd (r.forward_link lossy inbox)

end Connection.Reader

namespace Socket

variable {t t' : Socket} {c : ℕ} {arrived : Bytes} {frames : List (Message × Bytes)}

theorem readersOf_mapReaders {f : Reader → Reader}
    (same : ∀ r, r.connection = c → (f r).connection = c) :
    (t.mapReaders c f).readersOf c = (t.readersOf c).map f := by
  simp only [readersOf, mapReaders]
  induction t.readers with
  | nil => rfl
  | cons r rest ih =>
      by_cases h : r.connection = c
      · simp [h, same, ih]
      · simp [h, ih]

/-- The connection `c` has at most one reader.  It has split `arrived` into `frames` and the bytes
that it keeps, and these are the first messages of every stream that begins so. -/
structure Reads (t : Socket) (c : ℕ) (arrived : Bytes) (frames : List (Message × Bytes)) :
    Prop where
  one : (t.readersOf c).length ≤ 1
  kept : ∀ r ∈ t.readersOf c, ∃ limit, (FrameBuffer.new limit).Keeps arrived frames r.buffer
  front : ∀ later, frames <+: messages (arrived ++ later)

theorem Reads.of_sublist (h : Reads t c arrived frames)
    (fewer : (t'.readersOf c).Sublist (t.readersOf c)) : Reads t' c arrived frames where
  one := fewer.length_le.trans h.one
  kept r hr := h.kept r (fewer.subset hr)
  front := h.front

theorem readersOf_attachReader (none : t.readersOf c = []) (key : String) :
    (t.attachReader key c).readersOf c =
      [⟨key, c, .new t.options.maxFrameBytes, .none, false⟩] := by
  have gone : (t.readers.filter fun r => !r.finished && r.key ≠ key).filter
      (fun r => r.connection = c) = [] := by
    rw [List.filter_comm, show t.readers.filter (fun r => r.connection = c) = [] from none]
    rfl
  simp only [readersOf, attachReader, List.filter_append, gone]
  simp

theorem Reads.attach (none : t.readersOf c = []) (key : String) :
    Reads (t.attachReader key c) c [] [] := by
  refine ⟨?_, ?_, fun later => List.nil_prefix⟩ <;> rw [readersOf_attachReader none]
  · exact Nat.le_refl 1
  · rintro r hr
    obtain rfl := List.mem_singleton.mp hr
    exact ⟨_, FrameBuffer.keeps_run (FrameBuffer.consistent_new _) []⟩

theorem Reads.mapReaders (h : Reads t c arrived frames) {f : Reader → Reader}
    (same : ∀ r, r.connection = c → (f r).connection = c) (buffer : ∀ r, (f r).buffer = r.buffer) :
    Reads (t.mapReaders c f) c arrived frames := by
  refine ⟨?_, ?_, h.front⟩ <;> rw [readersOf_mapReaders same]
  · rw [List.length_map]
    exact h.one
  · intro r hr
    obtain ⟨r, mine, rfl⟩ := List.mem_map.mp hr
    rw [buffer]
    exact h.kept r mine

theorem Reads.consistent {r : Reader} (h : Reads t c arrived frames) (mine : r ∈ t.readersOf c) :
    r.buffer.Consistent := by
  obtain ⟨limit, kept⟩ := h.kept r mine
  exact kept.consistent

/-- Where a reader goes on from `frames` to more of them, the reader that is left has split what
arrived into these. -/
theorem Reads.of_keeps {r r' : Reader} {chunk : Bytes} {more : List (Message × Bytes)}
    (h : Reads t c arrived frames) (mine : r ∈ t.readersOf c) (alone : t'.readersOf c = [r'])
    (step : r.buffer.Keeps chunk more r'.buffer) :
    Reads t' c (arrived ++ chunk) (frames ++ more) := by
  obtain ⟨limit, kept⟩ := h.kept r mine
  have all := kept.trans step
  refine ⟨?_, ?_, fun later => ⟨_, (all.split later).symm⟩⟩
  · rw [alone]
    exact Nat.le_refl 1
  · rw [alone]
    rintro r'' hr
    obtain rfl := List.mem_singleton.mp hr
    exact ⟨limit, all⟩

theorem Reads.eq_singleton {r : Reader} (h : Reads t c arrived frames) (mine : r ∈ t.readersOf c) :
    t.readersOf c = [r] := by
  have one := h.one
  match hl : t.readersOf c with
  | [] => rw [hl] at mine; cases mine
  | r' :: rest =>
      rw [hl] at one mine
      obtain rfl : rest = [] := by simpa using one
      rw [List.mem_singleton.mp mine]

theorem Reads.receive {r : Reader} (h : Reads t c arrived frames) (mine : r ∈ t.readersOf c)
    (chunk : Bytes) :
    Reads (t.mapReaders c (·.receive chunk)) c (arrived ++ chunk) frames := by
  have step := FrameBuffer.keeps_extend (h.consistent mine) chunk
  have alone : (t.mapReaders c (·.receive chunk)).readersOf c = [r.receive chunk] := by
    rw [readersOf_mapReaders (f := (·.receive chunk)) fun _ same => same, h.eq_singleton mine]
    rfl
  simpa using h.of_keeps mine alone step

end Socket
end TreeCluster
