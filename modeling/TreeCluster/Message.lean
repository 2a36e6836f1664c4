/-! # Messages

A message is an action, a state and a time with an ordered list of opaque content frames.  Its
visit count says how often it went through the retry path; it stays within 32 bits.

Actions and states travel as one byte each.  Every byte has a reading: unknown action bytes are
`undefined`, unknown state bytes are `probe`. -/

namespace TreeCluster

/-- A frame or a stream of bytes. -/
abbrev Bytes := List UInt8

/-- The verb of a message. -/
inductive Action where
  | undefined
  | init
  | refer
  | checkin
  | checkout
  | join
  | invite
  | heartbeat
  | crash
  | vote
  | upgrade
  | update
  | terminate
  | lock
  | unlock
  | userRequest
  deriving DecidableEq, Inhabited

namespace Action

/-- Every action, in the order of their bytes. -/
def all : List Action :=
  [undefined, init, refer, checkin, checkout, join, invite, heartbeat, crash, vote, upgrade,
    update, terminate, lock, unlock, userRequest]

/-- The byte of an action, from 1 to 16. -/
def byte : Action → UInt8
  | undefined => 1
  | init => 2
  | refer => 3
  | checkin => 4
  | checkout => 5
  | join => 6
  | invite => 7
  | heartbeat => 8
  | crash => 9
  | vote => 10
  | upgrade => 11
  | update => 12
  | terminate => 13
  | lock => 14
  | unlock => 15
  | userRequest => 16

/-- The action of a byte; an unknown byte is `undefined`. -/
def ofByte (b : UInt8) : Action :=
  (all.find? fun a => a.byte = b).getD undefined

@[simp] theorem ofByte_byte (a : Action) : ofByte a.byte = a := by
  cases a <;> decide

/-- The lower-case name. -/
def text : Action → String
  | undefined => "undefined"
  | init => "init"
  | refer => "refer"
  | checkin => "checkin"
  | checkout => "checkout"
  | join => "join"
  | invite => "invite"
  | heartbeat => "heartbeat"
  | crash => "crash"
  | vote => "vote"
  | upgrade => "upgrade"
  | update => "update"
  | terminate => "terminate"
  | lock => "lock"
  | unlock => "unlock"
  | userRequest => "user_request"

/-- The name in structured data. -/
def label : Action → String
  | undefined => "Undefined"
  | init => "Init"
  | refer => "Refer"
  | checkin => "Checkin"
  | checkout => "Checkout"
  | join => "Join"
  | invite => "Invite"
  | heartbeat => "Heartbeat"
  | crash => "Crash"
  | vote => "Vote"
  | upgrade => "Upgrade"
  | update => "Update"
  | terminate => "Terminate"
  | lock => "Lock"
  | unlock => "Unlock"
  | userRequest => "UserRequest"

/-- Actions are ordered by their bytes. -/
def compare (a b : Action) : Ordering :=
  compareOfLessAndEq a.byte b.byte

end Action

/-- The phase of a message's life. -/
inductive State where
  | probe
  | ask
  | succeed
  | failed
  | error
  /-- Never leaves the process; it seeds a probe from a timer. -/
  | localOnly
  deriving DecidableEq, Inhabited

namespace State

/-- Every state, in the order of their bytes. -/
def all : List State :=
  [probe, ask, succeed, failed, error, localOnly]

/-- The byte of a state, from 1 to 6. -/
def byte : State → UInt8
  | probe => 1
  | ask => 2
  | succeed => 3
  | failed => 4
  | error => 5
  | localOnly => 6

/-- The state of a byte; an unknown byte is `probe`. -/
def ofByte (b : UInt8) : State :=
  (all.find? fun s => s.byte = b).getD probe

@[simp] theorem ofByte_byte (s : State) : ofByte s.byte = s := by
  cases s <;> decide

/-- The lower-case name. -/
def text : State → String
  | probe => "probe"
  | ask => "ask"
  | succeed => "succeed"
  | failed => "failed"
  | error => "error"
  | localOnly => "local"

/-- The name in structured data. -/
def label : State → String
  | probe => "Probe"
  | ask => "Ask"
  | succeed => "Succeed"
  | failed => "Failed"
  | error => "Error"
  | localOnly => "Local"

end State

/-- One message. -/
structure Message where
  action : Action
  state : State
  /-- Nanoseconds since 1970 began, in UTC. -/
  time : Int64
  contents : List Bytes
  /-- Passes through the retry path, at most `2 ^ 32 - 1`. -/
  visits : UInt32
  deriving DecidableEq, Inhabited

namespace Message

/-- A message without contents, at a given time. -/
def new (action : Action) (state : State) (time : Int64) : Message :=
  ⟨action, state, time, [], 0⟩

/-- The message with one more frame at the end. -/
def append (m : Message) (frame : Bytes) : Message :=
  { m with contents := m.contents ++ [frame] }

/-- The message after `n` more passes through the retry path. -/
def visitTimes (m : Message) (n : Nat) : Message :=
  { m with visits := UInt32.ofNat (min (m.visits.toNat + n) 0xffffffff) }

/-- The message after one more pass through the retry path. -/
def visit (m : Message) : Message :=
  m.visitTimes 1

/-- The message in another state; its visits are kept. -/
def transition (m : Message) (state : State) : Message :=
  { m with state := state }

/-- The frame at an index. -/
def content (m : Message) (index : Nat) : Option Bytes :=
  m.contents[index]?

end Message
end TreeCluster
