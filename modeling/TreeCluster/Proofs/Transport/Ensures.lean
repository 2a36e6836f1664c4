import TreeCluster.Proofs.Transport.Listed
import TreeCluster.Transport.Waiting

/-! # What a call ensures when nobody else acts

`Call.Ensures Q c s` says that the call `c` on the value `s` ends with a result and a value that
`Q` allows, whatever it is answered when it dials or listens, as long as nobody else changes the
value.  It goes along with calls one after another (`Ensures.bind`) and on a part of a value
(`Ensures.within`), and it holds of runs among dials with known answers (`Ensures.run`).

So a call to connect keeps the current peers, and unless the socket is closed none is stale
afterwards and every connection goes to a listed endpoint (`connectWithRetry_ensures`). -/

namespace TreeCluster

namespace Call

variable {σ τ α β : Type}

/-- Whatever the answers are, the call ends, and does so as `Q` says.  Nobody else brings about a
condition that it waits for. -/
def Ensures (Q : α → σ → Prop) : Call σ α → σ → Prop
  | .done a, s => Q a s
  | .look next, s => (next s).Ensures Q s
  | .change f next, s => next.Ensures Q (f s)
  | .report _ _ next, s => next.Ensures Q s
  | .dial _ next, s => ∀ answer, (next answer).Ensures Q s
  | .listen _ next, s => ∀ place, (next place).Ensures Q s
  | .sleep _ next, s => next.Ensures Q s
  | .await prepare ready next, s => ready (prepare s) = true ∧ next.Ensures Q (prepare s)

theorem Ensures.mono {Q R : α → σ → Prop} {call : Call σ α} {s : σ} (h : call.Ensures Q s)
    (weaker : ∀ a s, Q a s → R a s) : call.Ensures R s := by
  induction call generalizing s with
  | done a => exact weaker a s h
  | look next ih => exact ih s h
  | change f next ih => exact ih h
  | report context message next ih => exact ih h
  | dial peer next ih => exact fun answer => ih answer (h answer)
  | listen address next ih => exact fun place => ih place (h place)
  | sleep time next ih => exact ih h
  | await prepare ready next ih => exact ⟨h.1, ih h.2⟩

theorem Ensures.bind {Q : β → σ → Prop} {call : Call σ α} {next : α → Call σ β} {s : σ}
    (h : call.Ensures (fun a s => (next a).Ensures Q s) s) : (call.bind next).Ensures Q s := by
  induction call generalizing s with
  | done a => exact h
  | look f ih => exact ih s h
  | change f call ih => exact ih h
  | report context message call ih => exact ih h
  | dial peer f ih => exact fun answer => ih answer (h answer)
  | listen address f ih => exact fun place => ih place (h place)
  | sleep time call ih => exact ih h
  | await prepare ready call ih => exact ⟨h.1, ih h.2⟩

/-- A part of a value that can be read and replaced. -/
structure Part (get : τ → σ) (set : σ → τ → τ) : Prop where
  get_set : ∀ s t, get (set s t) = s
  set_set : ∀ s s' t, set s (set s' t) = set s t
  set_get : ∀ t, set (get t) t = t

theorem Ensures.within {get : τ → σ} {set : σ → τ → τ} (part : Part get set) {Q : α → τ → Prop}
    {call : Call σ α} {t : τ} (h : call.Ensures (fun a s => Q a (set s t)) (get t)) :
    (call.within get set).Ensures Q t := by
  induction call generalizing t with
  | done a => exact part.set_get t ▸ h
  | look next ih => exact ih _ h
  | change f next ih =>
      refine ih ?_
      have h : next.Ensures (fun a s => Q a (set s t)) (f (get t)) := h
      rw [part.get_set]
      simpa only [part.set_set] using h
  | report context message next ih => exact ih h
  | dial peer next ih => exact fun answer => ih answer (h answer)
  | listen address next ih => exact fun place => ih place (h place)
  | sleep time next ih => exact ih h
  | await prepare ready next ih =>
      obtain ⟨holds, h⟩ := h
      refine ⟨(congrArg ready (part.get_set _ t)).trans holds, ih ?_⟩
      rw [part.get_set]
      simpa only [part.set_set] using h

/-! ### Runs -/

/-- A value that nobody else changes, and the answers to the dials to come; when there are no
more, dials fail.  There is no place to listen at. -/
structure Alone (σ : Type) where
  value : σ
  sink : Sink
  answers : List (Option ℕ)

/-- How calls on the value see it. -/
def alone : Surroundings σ (Alone σ) where
  value w := w.value
  change f w := { w with value := f w.value }
  report context message w := { w with sink := w.sink.report context message }
  dial _ w := ({ w with answers := w.answers.tail }, w.answers.head?.join)
  listen _ w := (w, none)
  pause _ w := w

/-- What a call ensures holds after its run. -/
theorem Ensures.run {Q : α → σ → Prop} {call : Call σ α} {w : Alone σ}
    (h : call.Ensures Q w.value) :
    ∃ a, (call.run alone w).2.result? = some a ∧ Q a (call.run alone w).1.value := by
  induction call generalizing w with
  | done a => exact ⟨a, rfl, h⟩
  | look next ih => exact ih _ h
  | change f next ih => exact ih h
  | report context message next ih => exact ih h
  | dial peer next ih => exact ih _ (h _)
  | listen address next ih => exact ih _ (h _)
  | sleep time next ih => exact ih h
  | await prepare ready next ih =>
      obtain ⟨holds, h⟩ := h
      rw [Call.run]
      simp only [alone, holds, if_true]
      exact ih h

end Call

namespace Socket

variable {s : Socket}

/-- What a call to connect leaves: the current peers, the listed connections, and unless the
socket is closed no stale peer. -/
structure Connected (s : Socket) (answer : Except TransportError ℕ) (s' : Socket) : Prop where
  current : s'.peers.current = s.peers.current
  listed : s.Listed [] → s'.Listed []
  stale : answer = .error .closed ∨ s'.peers.stale = []

theorem dialAll_ensures (targets : List NodeAddress) (made : ℕ) (failed : Option TransportError)
    (current : ∀ peer ∈ targets, peer ∈ s.peers.current) :
    (dialAll made failed targets).Ensures
      (fun _ s' => s'.peers = s.peers ∧ (s.Listed [] → s'.Listed [])) s := by
  induction targets generalizing s made failed with
  | nil => cases failed <;> exact ⟨rfl, id⟩
  | cons peer rest ih =>
      obtain ⟨first, others⟩ := List.forall_mem_cons.mp current
      rw [dialAll, Call.Ensures]
      split
      · exact ih _ _ others
      · rintro (_ | connection)
        · cases failed with
          | none => exact ih _ _ others
          | some e => exact ih _ _ others
        · have known : s.lists peer.endpoint = true := lists_iff.mpr ⟨peer, Or.inl first, rfl⟩
          have peers := peers_attachDialled s peer.endpoint connection
          refine (ih (s := s.attachDialled peer.endpoint connection) _ _ (peers ▸ others)).mono ?_
          rintro _ s' ⟨same, listed⟩
          exact ⟨same.trans peers, fun h => listed (h.attachDialled (Or.inl known))⟩

theorem connect_ensures (s : Socket) : connect.Ensures (Connected s) s := by
  rw [connect, Call.Ensures]
  split
  · exact ⟨rfl, id, Or.inl rfl⟩
  · have peers := peers_dropStale s
    refine (dialAll_ensures (s := s.dropStale) _ _ _ fun _ => id).mono ?_
    rintro _ s' ⟨same, listed⟩
    rw [peers] at same
    exact ⟨by rw [same], fun h => listed h.dropStale, Or.inr (by rw [same])⟩

theorem retryFrom_ensures (s : Socket) (policy : Backoff) (number left : ℕ) :
    (policy.retryFrom (fun _ => connect) (fun time => .sleep time (.done ())) number left).Ensures
      (Connected s) s := by
  induction left generalizing s number with
  | zero => exact connect_ensures s
  | succ left ih =>
      refine Call.Ensures.bind ((connect_ensures s).mono ?_)
      rintro (e | made) s' connected
      · refine (ih s' (number + 1)).mono ?_
        rintro answer s'' again
        exact ⟨again.current.trans connected.current, fun h => again.listed (connected.listed h),
          again.stale⟩
      · exact connected

theorem connectWithRetry_ensures (s : Socket) (policy : Backoff) :
    (connectWithRetry policy).Ensures (Connected s) s :=
  retryFrom_ensures s policy _ _

end Socket
end TreeCluster
