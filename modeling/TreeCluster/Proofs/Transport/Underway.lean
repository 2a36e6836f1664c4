import TreeCluster.Proofs.Transport.Crowd
import TreeCluster.Proofs.Transport.Ensures

/-! # Calls that are under way at the same time

`Underway` is a value with the calls on it that have begun.  Each of them stands at a point where
it waits, or it has ended.  A call goes on when it gets the `Signal` that it waits for, and then up
to the next such point (`Underway.resume`); nothing else happens to the value in between.

So what holds between two such points follows from what a call guarantees of the changes that it
makes after each signal (`Guarantees`).  This goes along with calls one after another
(`Guarantees.bind`) and on a part of a value (`Guarantees.within`).  A call to connect makes two
changes only (`Dials.guarantees`). -/

namespace TreeCluster

namespace Call

variable {σ τ α β : Type}

/-- What makes a call go on. -/
inductive Signal where
  | begun
  /-- The dial is answered, or fails. -/
  | dialled (answer : Option ℕ)
  /-- There is a place to listen at, or none. -/
  | placed (place : Option NodeAddress)
  /-- The time is over. -/
  | rung
  /-- The condition may hold by now. -/
  | roused

/-- A waiting call after a signal, if it waits for that. -/
def resumed? : Call σ α → Signal → Option (Call σ α)
  | .dial _ next, .dialled answer => some (next answer)
  | .listen _ next, .placed place => some (next place)
  | .sleep _ next, .rung => some next
  | .await prepare ready next, .roused => some (.await prepare ready next)
  | _, _ => none

/-- Each change that the call makes, after a signal `g`, is one that `G g` allows.  The signal
that the call goes on with now is the given one. -/
def Guarantees (G : Signal → σ → σ → Prop) : Call σ α → Signal → Prop
  | .done _, _ => True
  | .look next, g => ∀ s, (next s).Guarantees G g
  | .change f next, g => (∀ s, G g s (f s)) ∧ next.Guarantees G g
  | .report _ _ next, g => next.Guarantees G g
  | .dial _ next, _ => ∀ answer, (next answer).Guarantees G (.dialled answer)
  | .listen _ next, _ => ∀ place, (next place).Guarantees G (.placed place)
  | .sleep _ next, _ => next.Guarantees G .rung
  | .await prepare _ next, _ => ∀ g, (∀ s, G g s (prepare s)) ∧ next.Guarantees G g

namespace Guarantees

variable {G H : Signal → σ → σ → Prop} {call : Call σ α} {g : Signal}

theorem mono (h : call.Guarantees G g) (weaker : ∀ g s s', G g s s' → H g s s') :
    call.Guarantees H g := by
  induction call generalizing g with
  | done a => exact trivial
  | look next ih => exact fun s => ih s (h s)
  | change f next ih => exact ⟨fun s => weaker g _ _ (h.1 s), ih h.2⟩
  | report context message next ih => exact ih h
  | dial peer next ih => exact fun answer => ih answer (h answer)
  | listen address next ih => exact fun place => ih place (h place)
  | sleep time next ih => exact ih h
  | await prepare ready next ih => exact fun g => ⟨fun s => weaker g _ _ ((h g).1 s), ih (h g).2⟩

theorem bind (h : call.Guarantees G g) {next : α → Call σ β}
    (h' : ∀ a g, (next a).Guarantees G g) : (call.bind next).Guarantees G g := by
  induction call generalizing g with
  | done a => exact h' a g
  | look f ih => exact fun s => ih s (h s)
  | change f call ih => exact ⟨h.1, ih h.2⟩
  | report context message call ih => exact ih h
  | dial peer f ih => exact fun answer => ih answer (h answer)
  | listen address f ih => exact fun place => ih place (h place)
  | sleep time call ih => exact ih h
  | await prepare ready call ih => exact fun g => ⟨(h g).1, ih (h g).2⟩

/-- A call on a part of a value guarantees what it does for any rest of that value. -/
theorem within {get : τ → σ} {set : σ → τ → τ} (part : Part get set)
    {G : Signal → τ → τ → Prop}
    (h : ∀ t, call.Guarantees (fun g s s' => G g (set s t) (set s' t)) g) :
    (call.within get set).Guarantees G g := by
  have changed : ∀ {g : Signal} {f : σ → σ},
      (∀ t s, G g (set s t) (set (f s) t)) → ∀ t, G g t (set (f (get t)) t) := by
    intro g f allowed t
    have here := allowed t (get t)
    rwa [part.set_get] at here
  induction call generalizing g with
  | done a => exact trivial
  | look next ih => exact fun t => ih (get t) fun t' => h t' (get t)
  | change f next ih => exact ⟨changed fun t => (h t).1, ih fun t => (h t).2⟩
  | report context message next ih => exact ih h
  | dial peer next ih => exact fun answer => ih answer fun t => h t answer
  | listen address next ih => exact fun place => ih place fun t => h t place
  | sleep time next ih => exact ih h
  | await prepare ready next ih =>
      exact fun g => ⟨changed fun t => (h t g).1, ih fun t => (h t g).2⟩

/-- Up to the next point where it waits, a call makes changes that are allowed after the signal,
and there it waits for any other. -/
theorem settle (refl : ∀ s, G g s s) (trans : ∀ s s' s'', G g s s' → G g s' s'' → G g s s'')
    (h : call.Guarantees G g) (scene : Scene σ) :
    G g scene.value (call.settle scene).1.value ∧
      ∀ g', (call.settle scene).2.Guarantees G g' := by
  induction call generalizing scene with
  | done a => exact ⟨refl _, fun _ => trivial⟩
  | look next ih => exact ih scene.value (h scene.value) scene
  | change f next ih =>
      obtain ⟨later, rest⟩ := ih h.2 { scene with value := f scene.value }
      exact ⟨trans _ _ _ (h.1 scene.value) later, rest⟩
  | report context message next ih =>
      exact ih h { scene with sink := scene.sink.report context message }
  | dial peer next ih => exact ⟨refl _, fun _ => h⟩
  | listen address next ih => exact ⟨refl _, fun _ => h⟩
  | sleep time next ih => exact ⟨refl _, fun _ => h⟩
  | await prepare ready next ih =>
      have prepared := (h g).1 scene.value
      rw [Call.settle]
      split
      · obtain ⟨later, rest⟩ := ih (h g).2 { scene with value := prepare scene.value }
        exact ⟨trans _ _ _ prepared later, rest⟩
      · exact ⟨prepared, fun _ => h⟩

theorem resumed (h : call.Guarantees G g) {signal : Signal} {next : Call σ α}
    (resumed : call.resumed? signal = some next) : next.Guarantees G signal := by
  cases call <;> cases signal <;> cases resumed
  case dial.dialled => exact h _
  case listen.placed => exact h _
  case sleep.rung => exact h
  case await.roused => exact h

end Guarantees

/-- A value with the calls that have begun, in the order in which they did. -/
structure Underway (σ α : Type) where
  scene : Scene σ
  calls : List (Call σ α)

namespace Underway

/-- A value on which no call has begun. -/
def start (s : σ) : Underway σ α :=
  ⟨⟨s, .empty⟩, []⟩

/-- The value. -/
abbrev value (u : Underway σ α) : σ :=
  u.scene.value

/-- After a change of the value. -/
def change (u : Underway σ α) (f : σ → σ) : Underway σ α :=
  { u with scene := { u.scene with value := f u.scene.value } }

/-- After a call has begun. -/
def begin (u : Underway σ α) (call : Call σ α) : Underway σ α :=
  let (scene, rest) := call.settle u.scene
  ⟨scene, u.calls ++ [rest]⟩

/-- After call number `i` has got a signal. -/
def resume (u : Underway σ α) (i : ℕ) (signal : Signal) : Underway σ α :=
  match u.calls[i]?.bind (·.resumed? signal) with
  | some call =>
    let (scene, rest) := call.settle u.scene
    ⟨scene, u.calls.set i rest⟩
  | none => u

theorem calls_begin {u : Underway σ α} {i : ℕ} {call : Call σ α} (h : u.calls[i]? = some call)
    (other : Call σ α) : (u.begin other).calls[i]? = some call := by
  obtain ⟨inside, -⟩ := List.getElem?_eq_some_iff.mp h
  exact (List.getElem?_append_left inside).trans h

/-- A call goes on when it gets a signal that it waits for, and else stays where it is. -/
theorem calls_resume {u : Underway σ α} {i : ℕ} {call : Call σ α} (h : u.calls[i]? = some call)
    (j : ℕ) (signal : Signal) :
    (u.resume j signal).calls[i]? = some call ∨
      i = j ∧ ∃ next, call.resumed? signal = some next ∧
        (u.resume j signal).calls[i]? = some (next.settle u.scene).2 := by
  unfold Underway.resume
  split
  · next next found =>
      by_cases same : i = j
      · subst same
        rw [h] at found
        obtain ⟨inside, -⟩ := List.getElem?_eq_some_iff.mp h
        exact Or.inr ⟨rfl, next, found, List.getElem?_set_self inside⟩
      · exact Or.inl ((List.getElem?_set_ne (Ne.symm same)).trans h)
  · exact Or.inl h

/-- The value is such that `P`, and so are the calls such that `C`. -/
structure Holds (P : σ → Prop) (C : Call σ α → Prop) (u : Underway σ α) : Prop where
  value : P u.value
  calls : ∀ call ∈ u.calls, C call

variable {P Q : σ → Prop} {C : Call σ α → Prop} {u : Underway σ α}

theorem holds_start {s : σ} (h : P s) : (start s : Underway σ α).Holds P C :=
  ⟨h, nofun⟩

theorem Holds.imp (h : u.Holds P C) (weaker : ∀ s, P s → Q s) : u.Holds Q C :=
  ⟨weaker _ h.value, h.calls⟩

theorem Holds.change (h : u.Holds P C) {f : σ → σ} (keeps : P u.value → P (f u.value)) :
    (u.change f).Holds P C :=
  ⟨keeps h.value, h.calls⟩

theorem Holds.begin (h : u.Holds P C) {call : Call σ α}
    (settled : P (call.settle u.scene).1.value ∧ C (call.settle u.scene).2) :
    (u.begin call).Holds P C := by
  refine ⟨settled.1, ?_⟩
  simpa [Underway.begin, or_imp, forall_and, settled.2] using h.calls

theorem Holds.resume (h : u.Holds P C) (i : ℕ) (signal : Signal)
    (settled : ∀ call ∈ u.calls, ∀ next, call.resumed? signal = some next →
      P (next.settle u.scene).1.value ∧ C (next.settle u.scene).2) :
    (u.resume i signal).Holds P C := by
  unfold Underway.resume
  split
  · next next found =>
      obtain ⟨call, inside, resumed⟩ := Option.bind_eq_some_iff.mp found
      obtain ⟨value, rest⟩ := settled call (List.mem_of_getElem? inside) next resumed
      refine ⟨value, fun call inside => ?_⟩
      rcases List.mem_or_eq_of_mem_set inside with inside | rfl
      · exact h.calls call inside
      · exact rest
  · exact h

end Underway
end Call

/-- A call to connect ends the connections to stale peers, and after an answer to a dial it takes
over that connection; it changes nothing else. -/
theorem Dials.guarantees {α : Type} {G : Call.Signal → Socket → Socket → Prop}
    {call : Call Socket α} (h : Dials call) (drop : ∀ g s, G g s s.dropStale)
    (attach : ∀ s key c, G (.dialled (some c)) s (s.attachDialled key c)) (g : Call.Signal) :
    call.Guarantees G g := by
  induction h generalizing g with
  | done => exact trivial
  | look _ ih => exact fun s => ih s g
  | dropStale _ ih => exact ⟨drop g, ih g⟩
  | report _ ih => exact ih g
  | dial _ attached _ refused answered =>
      rintro (_ | c)
      · exact refused _
      · rw [attached c]
        exact ⟨fun s => attach s _ c, answered c _⟩
  | sleep _ ih => exact ih _

end TreeCluster
