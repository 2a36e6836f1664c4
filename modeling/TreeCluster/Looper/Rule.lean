import TreeCluster.Looper.Program
import TreeCluster.Message.Display
import TreeCluster.Path

/-! # Handlers by rules

A handler that is given as a list of rules.  It notes each message that it gets, and then does the
deeds of the first rule that fits the message. -/

namespace TreeCluster.Looper

/-- Something that a rule does. -/
inductive Deed where
  | sleep (millis : Nat)
  /-- Pushes the message in another state. -/
  | transition (state : State)
  | push (m : Message)
  | tryPush (m : Message)
  | fail (failure : Failure)
  /-- Reads the first frame as an address. -/
  | parseAddress
  /-- Reads the first frame as a path. -/
  | parsePath
  | term
  | removeHandler (action : Action)
  | runLoop

/-- What came of a deed. -/
inductive Remark where
  | outcome (r : Outcome)
  | found (answer : Bool)
  | address (form : AddressForm)
  | depth (n : Nat)

/-- What is done with messages in a state, with a number of visits and with a first frame, each as
far as it is given. -/
structure Rule where
  state : State
  visits : Option Nat
  content : Option String
  deeds : List Deed

/-- A message that a handler was called with, and what it remarked on it. -/
structure Heard where
  message : Message
  remark : Option Remark

/-- The failure of a handler that stumbles over an address. -/
def Failure.ofAddressError (e : AddressError) : Failure :=
  ⟨e.message, e.message⟩

namespace Deed

variable {ν : Type}

/-- The work of a deed on a message, in front of `next`. -/
def program (heard : Heard → ν) (m : Message) (next : Program ν) : Deed → Program ν
  | .sleep millis => .sleep millis next
  | .transition state => .pushOrFail (m.transition state) next
  | .push other => .pushOrFail other next
  | .tryPush other => .tryPush other fun r => .note (heard ⟨m, some (.outcome r)⟩) next
  | .fail failure => .fail failure
  | .parseAddress =>
    match m.contentText 0 with
    | none => .fail ⟨"join without address", "join without address"⟩
    | some text =>
      match AddressForm.parse text with
      | .error e => .fail (.ofAddressError e)
      | .ok form => .note (heard ⟨m, some (.address form)⟩) next
  | .parsePath =>
    match NodePath.parse ((m.contentText 0).getD "") with
    | .error e => .fail (.ofAddressError e)
    | .ok path => .note (heard ⟨m, some (.depth path.depth)⟩) next
  | .term => .term next
  | .removeHandler action =>
    .removeHandler action fun answer => .note (heard ⟨m, some (.found answer)⟩) next
  | .runLoop => .serve none fun r => .note (heard ⟨m, r.map .outcome⟩) next

end Deed

/-- Whether a rule is meant for a message. -/
def Rule.fits (rule : Rule) (m : Message) : Bool :=
  rule.state = m.state && rule.visits.all (· = m.visits.toNat) &&
    rule.content.all (some · = m.contentText 0)

/-- What a handler does with a message. -/
def Rule.body {ν : Type} (rules : List Rule) (heard : Heard → ν) (m : Message) : Program ν :=
  let deeds := ((rules.find? (·.fits m)).map Rule.deeds).getD []
  .note (heard ⟨m, none⟩) (deeds.foldr (fun deed next => deed.program heard m next)
    (.done (.ok ())))

/-- The handler of an action, by rules. -/
structure RuleHandler where
  action : Action
  /-- In milliseconds; 0 is none. -/
  deadline : Nat
  rules : List Rule

/-- Registers a handler. -/
def RuleHandler.register {ν : Type} (h : RuleHandler) (heard : Heard → ν) (next : Program ν) :
    Program ν :=
  .addHandler h.action (.ofMillis h.deadline) (Rule.body h.rules heard) next

end TreeCluster.Looper
