import TreeCluster.Proofs.Transport.Underway
import TreeCluster.Proofs.Transport.Workers

/-! # What a closed socket leaves behind

A call starts workers only right after its dial was answered, or after it got a place to listen at
(`Signal.gives`, `frugal_call`).  It looks whether the socket is closed before it dials or listens
for the first time, and again after each time that it has waited for something else
(`Call.Yields`).

A `Teardown` is a socket with its calls.  What runs some time after the socket was closed is what
had to be finished then, or was brought by calls that dialled or listened when it was closed
(`Teardown.survivors_of_close`). -/

namespace TreeCluster

open Connection Socket

namespace Call

variable {α β : Type}

/-- The workers that a call may start after a signal. -/
def Signal.gives : Signal → Worker → Prop
  | .dialled (some connection), t => t.IsOn connection
  | .placed (some _), t => t = .accept
  | _, _ => False

/-- The call starts nothing but what its signals give it. -/
abbrev Frugal (call : Call Socket α) (g : Signal) : Prop :=
  call.Guarantees (fun g => Starts g.gives) g

/-- Whether the call has asked for a connection or for a place to listen at. -/
def asks {σ : Type} : Call σ α → Bool
  | .dial _ _ => true
  | .listen _ _ => true
  | _ => false

/-- If `closed` says that the socket has been closed since the call last waited, the call neither
dials nor listens; and it never does either after it has waited for something else and finds the
socket closed. -/
def Yields : Call Socket α → Bool → Prop
  | .done _, _ => True
  | .look next, closed => ∀ s, (closed = true → s.closed = true) → (next s).Yields closed
  | .change _ next, closed => next.Yields closed
  | .report _ _ next, closed => next.Yields closed
  | .dial _ next, closed => closed = false ∧ ∀ answer, (next answer).Yields false
  | .listen _ next, closed => closed = false ∧ ∀ place, (next place).Yields false
  | .sleep _ next, _ => ∀ closed, next.Yields closed
  | .await _ _ next, _ => ∀ closed, next.Yields closed

variable {call next : Call Socket α} {closed : Bool} {g : Signal}

theorem Yields.bind (h : call.Yields closed) {next : α → Call Socket β}
    (h' : ∀ a closed, (next a).Yields closed) : (call.bind next).Yields closed := by
  induction call generalizing closed with
  | done a => exact h' a closed
  | look f ih => exact fun s look => ih s (h s look)
  | change f call ih => exact ih h
  | report context message call ih => exact ih h
  | dial peer f ih => exact ⟨h.1, fun answer => ih answer (h.2 answer)⟩
  | listen address f ih => exact ⟨h.1, fun place => ih place (h.2 place)⟩
  | sleep time call ih => exact fun closed => ih (h closed)
  | await prepare ready call ih => exact fun closed => ih (h closed)

/-- Where a call waits, it has asked for something, or it never asks again once the socket is
closed. -/
theorem Yields.settle (h : call.Yields closed) (frugal : call.Frugal g) (scene : Scene Socket)
    (known : closed = true → scene.value.closed = true) :
    (call.settle scene).2.Yields closed ∧
      ((call.settle scene).2.asks = true ∨ (call.settle scene).2.Yields true) := by
  induction call generalizing scene with
  | done a => exact ⟨trivial, Or.inr trivial⟩
  | look next ih => exact ih _ (h _ known) (frugal _) scene known
  | change f next ih => exact ih h frugal.2 _ fun e => (frugal.1 _).closed (known e)
  | report context message next ih => exact ih h frugal _ known
  | dial peer next ih => exact ⟨h, Or.inl rfl⟩
  | listen address next ih => exact ⟨h, Or.inl rfl⟩
  | sleep time next ih => exact ⟨h, Or.inr h⟩
  | await prepare ready next ih =>
      rw [Call.settle]
      split
      · exact ih (h closed) (frugal g).2 _ fun e => ((frugal g).1 _).closed (known e)
      · exact ⟨h, Or.inr h⟩

theorem Yields.resumed (h : call.Yields closed) {signal : Signal}
    (resumed : call.resumed? signal = some next) : next.Yields closed := by
  cases call <;> cases signal <;> cases resumed
  case dial.dialled => exact h.1 ▸ h.2 _
  case listen.placed => exact h.1 ▸ h.2 _
  case sleep.rung => exact h closed
  case await.roused => exact h

theorem asks_of_yields (h : call.Yields true) : call.asks = false := by
  cases call with
  | dial peer next => cases h.1
  | listen address next => cases h.1
  | _ => rfl

/-- A call gets a connection or a place only if it has asked for one. -/
theorem asks_of_gives {signal : Signal} (resumed : call.resumed? signal = some next) {t : Worker}
    (given : signal.gives t) : call.asks = true := by
  cases call <;> cases signal <;> cases resumed
  case dial.dialled => rfl
  case listen.placed => rfl
  case sleep.rung => cases given
  case await.roused => cases given

end Call

open Call

/-! ### The calls on a socket -/

/-- What a call on a socket came to. -/
inductive Outcome where
  | bound (answer : Except TransportError NodeAddress)
  | connected (answer : Except TransportError ℕ)
  | received (answer : Except TransportError Message)

/-- The calls that a socket offers and that may wait. -/
inductive Errand where
  | bind (address : NodeAddress)
  | connect
  | connectWithRetry (policy : Backoff)
  | receive

namespace Errand

/-- The call. -/
def call : Errand → Call Socket Outcome
  | .bind address => (Socket.bind address).bind fun answer => .done (.bound answer)
  | .connect => Socket.connect.bind fun answer => .done (.connected answer)
  | .connectWithRetry policy =>
    (Socket.connectWithRetry policy).bind fun answer => .done (.connected answer)
  | .receive => Socket.receive.bind fun answer => .done (.received answer)

theorem frugal_of_dials {α : Type} {call : Call Socket α} (h : Dials call) (g : Signal) :
    call.Frugal g := by
  refine h.guarantees (fun g s => ?_) (fun s key c => ?_) g
  · exact (starts_change s .dropStale).mono fun _ => False.elim
  · exact starts_change s (.attachDialled key c)

theorem frugal_call (errand : Errand) (g : Signal) : errand.call.Frugal g := by
  cases errand with
  | bind address =>
      refine Guarantees.bind (fun s => ?_) fun _ _ => trivial
      dsimp only
      split
      · exact trivial
      · rintro (_ | place)
        · exact trivial
        · exact ⟨fun s => starts_change s (.listenAt place), trivial⟩
  | connect => exact (frugal_of_dials .connect g).bind fun _ _ => trivial
  | connectWithRetry policy =>
      exact (frugal_of_dials (.connectWithRetry policy) g).bind fun _ _ => trivial
  | receive =>
      have quiet : ∀ (g : Signal) (s : Socket) (inbox : Inbox), Starts g.gives s { s with inbox } :=
        fun g s inbox => (startsNothing_inbox s inbox).mono fun _ => False.elim
      refine Guarantees.bind (fun s => ?_) fun _ _ => trivial
      dsimp only
      split_ifs
      · exact trivial
      · exact trivial
      · refine fun g => ⟨fun s => quiet g s _, fun s => ?_⟩
        dsimp only
        split
        · exact ⟨fun s => quiet g s _, trivial⟩
        · exact trivial

theorem yields_dialAll (targets : List NodeAddress) (made : ℕ) (failed : Option TransportError) :
    (dialAll made failed targets).Yields false := by
  induction targets generalizing made failed with
  | nil => cases failed <;> exact trivial
  | cons peer rest ih =>
      intro s _
      dsimp only
      split
      · exact ih _ _
      · refine ⟨rfl, ?_⟩
        rintro (_ | c)
        · cases failed with
          | none => exact ih _ _
          | some e => exact fun _ _ => ih _ _
        · exact ih _ _

theorem yields_connect (closed : Bool) : Socket.connect.Yields closed := by
  intro s known
  dsimp only
  split
  · exact trivial
  · next opened =>
      obtain rfl : closed = false := eq_false_of_ne_true fun e => opened (known e)
      exact fun s _ => yields_dialAll _ _ _

theorem yields_retryFrom (policy : Backoff) (number left : ℕ) (closed : Bool) :
    (policy.retryFrom (fun _ => Socket.connect) (fun time => .sleep time (.done ()))
      number left).Yields closed := by
  induction left generalizing number closed with
  | zero => exact yields_connect closed
  | succ left ih =>
      refine (yields_connect closed).bind fun answer closed => ?_
      cases answer with
      | ok a => exact trivial
      | error e => exact fun closed => ih (number + 1) closed

theorem yields_call (errand : Errand) (closed : Bool) : errand.call.Yields closed := by
  cases errand with
  | bind address =>
      refine Yields.bind (fun s known => ?_) fun _ _ => trivial
      dsimp only
      split
      · exact trivial
      · next opened =>
          refine ⟨eq_false_of_ne_true fun e => opened (known e), ?_⟩
          rintro (_ | place) <;> exact trivial
  | connect => exact (yields_connect closed).bind fun _ _ => trivial
  | connectWithRetry policy => exact (yields_retryFrom policy _ _ closed).bind fun _ _ => trivial
  | receive =>
      refine Yields.bind (fun s known => ?_) fun _ _ => trivial
      dsimp only
      split_ifs
      · exact trivial
      · exact trivial
      · intro closed s known
        dsimp only
        split <;> exact trivial

end Errand

/-- A call to receive that waits for a message. -/
def waiting : Call Socket Outcome :=
  Socket.awaitWanted.bind fun answer => .done (.received answer)

/-- A call to receive that has ended because the socket is closed. -/
def refused : Call Socket Outcome :=
  .done (.received (.error .closed))

theorem settle_receive {call : Call Socket Outcome}
    (h : call = Errand.receive.call ∨ call = waiting) (scene : Scene Socket) :
    (call.settle scene).2 = waiting ∨ ∃ answer, (call.settle scene).2 = .done (.received answer) := by
  have waits : ∀ scene : Scene Socket, (waiting.settle scene).2 = waiting ∨
      ∃ answer, (waiting.settle scene).2 = .done (.received answer) := by
    intro scene
    simp only [waiting, awaitWanted, Call.bind, Call.settle]
    split
    · split <;> exact Or.inr ⟨_, rfl⟩
    · exact Or.inl rfl
  rcases h with rfl | rfl
  · simp only [Errand.call, Socket.receive, Call.bind, Call.settle]
    split_ifs
    · exact Or.inr ⟨_, rfl⟩
    · exact Or.inr ⟨_, rfl⟩
    · exact waits scene
  · exact waits scene

theorem settle_waiting_of_closed {scene : Scene Socket} (closed : scene.value.closed = true) :
    (waiting.settle scene).2 = refused := by
  have closed : scene.value.skipUnwanted.closed = true := closed
  simp only [waiting, awaitWanted, Call.bind, Call.settle, closed]
  rfl

theorem settle_receive_of_closed {scene : Scene Socket} (closed : scene.value.closed = true) :
    Errand.receive.call.settle scene = (scene, refused) := by
  simp only [Errand.call, Socket.receive, Call.bind, Call.settle, closed]
  rfl

/-! ### A socket with its calls -/

/-- A socket with its calls, and how many connections it has got; each has a number below. -/
structure Teardown where
  underway : Underway Socket Outcome
  made : ℕ

namespace Teardown

/-- What happens to a socket and its calls. -/
inductive Event where
  | deed (deed : Deed)
  /-- The listener accepts a connection. -/
  | accept (key : String)
  | begin (errand : Errand)
  /-- The peer that a call waits for answers, or the dial fails. -/
  | answer (call : ℕ) (connected : Bool)
  /-- A call gets a place to listen at, or there is none. -/
  | place (call : ℕ) (place : Option NodeAddress)
  /-- The time is over that a call waits for. -/
  | wake (call : ℕ)
  /-- A call looks at its condition again. -/
  | rouse (call : ℕ)

/-- A socket on which no call has begun. -/
def start (s : Socket) : Teardown :=
  ⟨.start s, 0⟩

/-- The socket. -/
abbrev socket (c : Teardown) : Socket :=
  c.underway.value

/-- The calls that have begun. -/
abbrev calls (c : Teardown) : List (Call Socket Outcome) :=
  c.underway.calls

/-- The socket and its calls after an event. -/
def apply (c : Teardown) : Event → Teardown
  | .deed deed => { c with underway := c.underway.change (·.after deed) }
  | .accept key =>
    if c.socket.listening then
      ⟨c.underway.change (·.change (.attachAccepted key c.made)), c.made + 1⟩
    else c
  | .begin errand => { c with underway := c.underway.begin errand.call }
  | .answer i connected =>
    if connected then ⟨c.underway.resume i (.dialled (some c.made)), c.made + 1⟩
    else { c with underway := c.underway.resume i (.dialled none) }
  | .place i place => { c with underway := c.underway.resume i (.placed place) }
  | .wake i => { c with underway := c.underway.resume i .rung }
  | .rouse i => { c with underway := c.underway.resume i .roused }

/-- The socket and its calls after some events. -/
def run (c : Teardown) (events : List Event) : Teardown :=
  events.foldl apply c

/-- What an event does: it changes the socket, lets a call begin or gives a signal to one.
A change starts no worker but for a new connection that is accepted, and a signal gives none but
for a new connection or a listener. -/
inductive Step (c : Teardown) : Teardown → Prop
  | change {f : Socket → Socket} {given : Worker → Prop} {made : ℕ} :
      Starts given c.socket (f c.socket) →
      (∀ t, given t → c.socket.Runs .accept ∧ t.Within c.made made) → c.made ≤ made →
      Step c ⟨c.underway.change f, made⟩
  | begin (errand : Errand) : Step c ⟨c.underway.begin errand.call, c.made⟩
  | resume {signal : Signal} {made : ℕ} (i : ℕ) :
      (∀ t, signal.gives t → t.Within c.made made) → c.made ≤ made →
      Step c ⟨c.underway.resume i signal, made⟩

variable {c d : Teardown}

theorem step_apply (c : Teardown) (event : Event) : Step c (c.apply event) := by
  cases event with
  | deed deed => exact .change (startsNothing_after c.socket deed) nofun le_rfl
  | accept key =>
      rw [apply]
      split
      · next listening =>
          exact .change (starts_change c.socket (.attachAccepted key c.made))
            (fun t on => ⟨listening, Worker.IsOn.within on⟩) (Nat.le_succ _)
      · exact .change (f := id) (.refl (fun _ => False) _) nofun le_rfl
  | begin errand => exact .begin errand
  | answer i connected =>
      cases connected with
      | false => exact .resume i nofun le_rfl
      | true => exact .resume i (fun t on => Worker.IsOn.within on) (Nat.le_succ _)
  | place i place =>
      refine .resume i (fun t given => ?_) le_rfl
      cases place with
      | none => cases given
      | some place =>
          obtain rfl : t = .accept := given
          trivial
  | wake i => exact .resume i nofun le_rfl
  | rouse i => exact .resume i nofun le_rfl

/-! ### While the socket is open -/

/-- A call that waits or has ended starts nothing but what it will be given, and it has asked for
something, or never does again once the socket is closed. -/
structure Works (call : Call Socket Outcome) : Prop where
  frugal : ∀ g, call.Frugal g
  yields : call.Yields false
  asks : call.asks = true ∨ call.Yields true

theorem starts_settle {call : Call Socket Outcome} {g : Signal} (frugal : call.Frugal g)
    (scene : Scene Socket) :
    Starts g.gives scene.value (call.settle scene).1.value ∧
      ∀ g, (call.settle scene).2.Frugal g :=
  frugal.settle (.refl _) (fun _ _ _ => .trans) scene

theorem works_settle {call : Call Socket Outcome} {g : Signal} (frugal : call.Frugal g)
    (yields : call.Yields false) (scene : Scene Socket) : Works (call.settle scene).2 := by
  obtain ⟨yields, asks⟩ := yields.settle frugal scene nofun
  exact ⟨(starts_settle frugal scene).2, yields, asks⟩

/-- Every worker belongs to a connection that the socket has got, and every call works. -/
abbrev Sound (c : Teardown) : Prop :=
  c.underway.Holds (fun s => ∀ t, s.Runs t → t.Within 0 c.made) Works

theorem Sound.later (h : c.Sound) {made : ℕ} (more : c.made ≤ made) :
    c.underway.Holds (fun s => ∀ t, s.Runs t → t.Within 0 made) Works :=
  h.imp fun _ within t runs => (within t runs).mono le_rfl more

theorem Sound.step (h : c.Sound) (step : Step c d) : d.Sound := by
  have within : ∀ {s s' : Socket} {given : Worker → Prop} {made : ℕ}, Starts given s s' →
      (∀ t, given t → t.Within c.made made) → (∀ t, s.Runs t → t.Within 0 made) →
      ∀ t, s'.Runs t → t.Within 0 made :=
    fun starts given within t runs => (starts.runs t runs).elim (within t) fun new =>
      (given t new).mono (Nat.zero_le _) le_rfl
  cases step with
  | change starts given more =>
      exact (h.later more).change fun before => within starts (fun t new => (given t new).2) before
  | begin errand =>
      have frugal := errand.frugal_call .begun
      exact Underway.Holds.begin h ⟨within (starts_settle frugal _).1 nofun h.value,
        works_settle frugal (errand.yields_call false) _⟩
  | resume i given more =>
      have later := h.later more
      refine later.resume i _ fun call inside next resumed => ?_
      have works := h.calls call inside
      have frugal := (works.frugal .begun).resumed resumed
      exact ⟨within (starts_settle frugal _).1 given later.value,
        works_settle frugal (works.yields.resumed resumed) _⟩

theorem sound_run (role : Role) (options : SocketOptions) (events : List Event) :
    ((start (.new role options)).run events).Sound := by
  have kept : ∀ c : Teardown, c.Sound → (c.run events).Sound := by
    induction events with
    | nil => exact fun _ => id
    | cons event events ih => exact fun c h => ih _ (h.step (step_apply c event))
  refine kept _ (Underway.holds_start fun t runs => ?_)
  cases t with
  | accept => trivial
  | read c => obtain ⟨r, hr, -⟩ := runs; cases hr
  | write c => obtain ⟨w, hw, -⟩ | ⟨w, hw, -⟩ := runs <;> cases hw

/-! ### Once the socket is closed -/

/-- What runs for a closed socket: it is being finished, or it was brought later, with a number
from `low` on and below `high`, by calls that had asked for something. -/
structure Leaves (finishing : ℕ → Prop) (asked : Prop) (low high : ℕ) (s : Socket) : Prop where
  closed : s.closed = true
  runs : ∀ t, s.Runs t → (∃ n, t = .write n ∧ finishing n) ∨ asked ∧ t.Within low high

variable {finishing : ℕ → Prop} {asked : Prop} {low high : ℕ}

theorem Leaves.mono {s : Socket} {high' : ℕ} (h : Leaves finishing asked low high s)
    (more : high ≤ high') : Leaves finishing asked low high' s :=
  ⟨h.closed, fun t runs => (h.runs t runs).imp_right fun later =>
    ⟨later.1, later.2.mono le_rfl more⟩⟩

theorem Leaves.starts {s s' : Socket} {given : Worker → Prop}
    (h : Leaves finishing asked low high s) (starts : Starts given s s')
    (later : ∀ t, given t → asked ∧ t.Within low high) : Leaves finishing asked low high s' :=
  ⟨starts.closed h.closed, fun t runs => (starts.runs t runs).elim (h.runs t) fun given =>
    Or.inr (later t given)⟩

/-- Every call works, and if none had asked for something when the socket was closed, none does
now. -/
structure Closed (finishing : ℕ → Prop) (asked : Prop) (low : ℕ) (c : Teardown) : Prop where
  le : low ≤ c.made
  holds : c.underway.Holds (Leaves finishing asked low c.made) fun call =>
    Works call ∧ (call.asks = true → asked)

theorem Leaves.settle {scene : Scene Socket} (h : Leaves finishing asked low high scene.value)
    {call : Call Socket Outcome} {g : Signal} (frugal : call.Frugal g) (yields : call.Yields false)
    (given : ∀ t, g.gives t → asked ∧ t.Within low high) (quiet : ¬asked → call.Yields true) :
    Leaves finishing asked low high (call.settle scene).1.value ∧
      Works (call.settle scene).2 ∧ ((call.settle scene).2.asks = true → asked) := by
  refine ⟨h.starts (starts_settle frugal _).1 given, works_settle frugal yields _, ?_⟩
  intro asks
  by_contra none
  obtain ⟨yields, -⟩ := (quiet none).settle frugal scene fun _ => h.closed
  exact absurd (asks.symm.trans (asks_of_yields yields)) nofun

theorem Closed.step (h : c.Closed finishing asked low) (step : Step c d) :
    d.Closed finishing asked low := by
  cases step with
  | change starts given more =>
      have later := h.holds.imp fun _ leaves => leaves.mono more
      refine ⟨h.le.trans more, later.change fun leaves => leaves.starts starts fun t new => ?_⟩
      -- a listener that accepts anything now was itself brought later
      obtain ⟨accepts, within⟩ := given t new
      obtain ⟨n, other, -⟩ | ⟨asked, -⟩ := leaves.runs .accept accepts
      · cases other
      · exact ⟨asked, within.mono h.le le_rfl⟩
  | begin errand =>
      exact ⟨h.le, h.holds.begin (h.holds.value.settle (errand.frugal_call .begun)
        (errand.yields_call false) nofun fun _ => errand.yields_call true)⟩
  | resume i given more =>
      have later := h.holds.imp fun _ leaves => leaves.mono more
      refine ⟨h.le.trans more, later.resume i _ fun call inside next resumed => ?_⟩
      obtain ⟨works, asks⟩ := h.holds.calls call inside
      -- who is given something has asked for it, and who has not asked never does any more
      refine later.value.settle ((works.frugal .begun).resumed resumed)
        (works.yields.resumed resumed) (fun t new => ?_) fun none => ?_
      · exact ⟨asks (asks_of_gives resumed new), (given t new).mono h.le le_rfl⟩
      · exact (works.asks.resolve_left fun a => none (asks a)).resumed resumed

theorem Closed.run (h : c.Closed finishing asked low) (events : List Event) :
    (c.run events).Closed finishing asked low := by
  induction events generalizing c with
  | nil => exact h
  | cons event events ih => exact ih (h.step (step_apply c event))

/-- Closing an open socket ends all but what it has to finish. -/
theorem Sound.close (h : c.Sound) (opened : c.socket.closed = false) :
    (c.apply (.deed .close)).Closed c.socket.Finishes (∃ call ∈ c.calls, call.asks = true)
      c.made := by
  refine ⟨le_rfl, ⟨⟨?_, fun t runs => Or.inl ((runs_close opened t).mp runs)⟩, ?_⟩⟩
  · change c.socket.close.closed = true
    rw [Socket.close, if_neg (by simp [opened])]
  · exact fun call inside => ⟨h.calls call inside, fun asks => ⟨call, inside, asks⟩⟩

/-- A call to receive that waits in a closed socket stays, or it is refused. -/
def Waits (i : ℕ) (c : Teardown) : Prop :=
  c.calls[i]? = some waiting ∨ c.calls[i]? = some refused

theorem Waits.step {i : ℕ} (h : c.Waits i) (closed : c.socket.closed = true) (step : Step c d) :
    d.Waits i := by
  cases step with
  | change starts given more => exact h
  | begin errand => exact h.imp (Underway.calls_begin · _) (Underway.calls_begin · _)
  | @resume signal _ j given more =>
      rcases h with waits | ended
      · obtain stays | ⟨-, next, resumed, gone⟩ := Underway.calls_resume waits j signal
        · exact Or.inl stays
        · obtain rfl : waiting = next := by cases signal <;> cases resumed; rfl
          exact Or.inr (gone.trans (congrArg some (settle_waiting_of_closed closed)))
      · obtain stays | ⟨-, next, resumed, -⟩ := Underway.calls_resume ended j signal
        · exact Or.inr stays
        · cases signal <;> cases resumed

theorem Waits.run {i : ℕ} (h : c.Waits i) (closed : c.Closed finishing asked low)
    (events : List Event) : (c.run events).Waits i := by
  induction events generalizing c with
  | nil => exact h
  | cons event events ih =>
      have step := step_apply c event
      exact ih (h.step closed.holds.value.closed step) (closed.step step)

theorem Waits.rouse {i : ℕ} (h : c.Waits i) (closed : c.socket.closed = true) :
    (c.apply (.rouse i)).calls[i]? = some refused := by
  change (c.underway.resume i .roused).calls[i]? = some refused
  rcases h with waits | ended
  · simp only [Underway.resume, waits]
    obtain ⟨inside, -⟩ := List.getElem?_eq_some_iff.mp waits
    exact (List.getElem?_set_self inside).trans (congrArg some (settle_waiting_of_closed closed))
  · simp only [Underway.resume, ended]
    exact ended

/-- **What closing leaves**: when a socket is closed, nothing is alive any more but the writers of
connections that were dropped before, as long as they have something to finish.  Whatever happens
later, nothing else comes to life, unless a call had asked for a connection or for a place to
listen at when the socket was closed; and then it is nothing that was alive before, but a listener
or on new connections.  A call to receive ends or waits for a message, and one that waits when the
socket is closed or begins later is refused. -/
theorem survivors_of_close (role : Role) (options : SocketOptions) (before after : List Event) :
    let c := (start (.new role options)).run before
    let d := (c.apply (.deed .close)).run after
    c.socket.closed = false →
      (∀ t, c.socket.Runs t → t.Within 0 c.made) ∧
      (∀ t, (c.apply (.deed .close)).socket.Runs t ↔ ∃ n, t = .write n ∧ c.socket.Finishes n) ∧
      (∀ t, d.socket.Runs t → (∃ n, t = .write n ∧ c.socket.Finishes n) ∨
        (∃ call ∈ c.calls, call.asks = true) ∧ t.Within c.made d.made) ∧
      (∀ call scene, call = Errand.receive.call ∨ call = waiting →
        (call.settle scene).2 = waiting ∨ ∃ r, (call.settle scene).2 = .done (.received r)) ∧
      (∀ i, c.calls[i]? = some waiting →
        (d.calls[i]? = some waiting ∨ d.calls[i]? = some refused) ∧
          (d.apply (.rouse i)).calls[i]? = some refused) ∧
      d.apply (.begin .receive) = ⟨⟨d.underway.scene, d.calls ++ [refused]⟩, d.made⟩ := by
  intro c d opened
  have sound : c.Sound := sound_run role options before
  have start := sound.close opened
  have closed := start.run after
  have shut : d.socket.closed = true := closed.holds.value.closed
  refine ⟨sound.value, runs_close opened, closed.holds.value.runs, fun call scene h => settle_receive h scene,
    fun i waits => ?_, ?_⟩
  · have kept : d.Waits i :=
      Waits.run (c := c.apply (.deed .close)) (Or.inl waits) start after
    exact ⟨kept, kept.rouse shut⟩
  · have settled : Errand.receive.call.settle d.underway.scene = (d.underway.scene, refused) :=
      settle_receive_of_closed shut
    simp only [apply, Underway.begin, settled]

/-- A subscriber is closed while a call waits before it connects again, and another for a message.
When they go on, nothing comes to life. -/
theorem survivors_of_close_of_retry :
    let before : List Event :=
      [.deed (.addPeer ⟨"p", "h", 1⟩), .begin (.connectWithRetry .standard), .answer 0 false,
        .begin .receive]
    let d := (((start (.new .subscriber {})).run before).apply (.deed .close)).run [.wake 0]
    (∀ t, ¬d.socket.Runs t) ∧ (d.apply (.rouse 1)).calls[1]? = some refused := by
  intro before d
  let c := (start (.new .subscriber {})).run before
  have opened : c.socket.closed = false := by cbv
  have waits : c.calls[1]? = some waiting := rfl
  have quiet : ¬∃ call ∈ c.calls, call.asks = true := by decide +kernel
  have dropped : c.socket.draining = [] := by cbv
  -- what happened before matters no more, and is not to be run again
  clear_value before
  obtain ⟨-, -, runs, -, receives, -⟩ := survivors_of_close .subscriber {} before [.wake 0] opened
  refine ⟨fun t alive => ?_, (receives 1 waits).2⟩
  obtain ⟨n, -, w, hw, -⟩ | ⟨asks, -⟩ := runs t alive
  · rw [drainingOf, dropped] at hw
    cases hw
  · exact quiet asks

/-- A connection that is dropped while a message is queued on it is still written to when the
socket is closed and every call has ended.  And a call that dials or listens when the socket is
closed starts a writer or a listener all the same. -/
theorem exists_survivor :
    let peer : NodeAddress := ⟨"p", "h", 1⟩
    let m := Message.new .undefined .probe 0
    let dropped := (start (.new .sender {})).run
      [.deed (.addPeer peer), .begin .connect, .answer 0 true, .deed (.send m),
        .deed (.removePeer peer), .deed (.disconnect false), .deed .close]
    let dialled := (start (.new .sender {})).run
      [.deed (.addPeer peer), .begin .connect, .deed .close, .answer 0 true]
    let listened := (start (.new .receiver {})).run
      [.begin (.bind peer), .deed .close, .place 0 (some peer)]
    (∀ c ∈ [dropped, dialled, listened],
      c.socket.closed = true ∧ c.calls.all (·.result?.isSome) = true) ∧
      dropped.socket.Runs (.write 0) ∧ dialled.socket.Runs (.write 0) ∧
      listened.socket.Runs .accept := by
  decide +kernel

end Teardown
end TreeCluster
