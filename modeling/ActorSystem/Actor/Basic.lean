import ActorSystem.Actor.Program
import ActorSystem.Actor.Watch
import ActorSystem.Config
import ActorSystem.Queue.EventQueue
import ActorSystem.Table

/-!
An actor: its mailbox, its handlers, what it owns, and the description of what it is running for.
-/

set_option autoImplicit false

namespace ActorSystem

structure Task (κ : Type) where
  callback : κ
  args : Args

/-- What the current handler is run for. Between two dispatches all of it is absent. -/
structure Dispatch where
  sender : Option Agent
  senderActor : Option ActorId
  component : Option Component
  attachment : Option Value
  reply : Option CallRef
  hand : Replies

namespace Dispatch

def idle : Dispatch := ⟨none, none, none, none, none, .empty⟩

def replies (d : Dispatch) : List CallRef := d.hand.values ++ d.reply.toList

end Dispatch

structure Actor (κ : Type) where
  id : ActorId
  name : String
  phase : Phase
  dormant : Bool
  closing : Bool
  stirred : Bool
  mailbox : EventQueue (Event κ)
  batch : List (Event κ)
  onMessage : Table UInt32 κ
  onRpc : Table String κ
  restarts : Nat
  processed : Nat
  timers : Timer.Wheel (Task κ)
  /-- What the callbacks of pending timers own, in the order in which the timers were set. -/
  purses : List (Timer.TimerId × Replies)
  agents : Table AgentId Agent
  components : Table ComponentId Component
  managers : Table ComponentId κ
  store : Table Int32 Value
  kept : Replies
  dispatch : Dispatch
  stage : Stage
  watch : Watch

namespace Actor

variable {κ : Type}

def new (id : ActorId) (name : String) (config : Config) : Actor κ where
  id := id
  name := name
  phase := .created
  dormant := true
  closing := false
  stirred := false
  mailbox := .new config.wakeCapacity
  batch := []
  onMessage := .empty
  onRpc := .empty
  restarts := 0
  processed := 0
  timers := .new 0
  purses := []
  agents := .empty
  components := .empty
  managers := .empty
  store := .empty
  kept := .empty
  dispatch := .idle
  stage := .batch
  watch := {}

def refuses (a : Actor κ) : Bool := a.closing || a.phase == .closed

def alive (a : Actor κ) : Bool := !a.dormant && a.phase != .closed

def status (a : Actor κ) : Status := ⟨a.id, a.name, a.phase, a.restarts, a.processed⟩

def glimpse (a : Actor κ) : Glimpse where
  status := a.status
  sender := a.dispatch.sender
  senderActor := a.dispatch.senderActor
  component := a.dispatch.component.map Component.id
  attachment := a.dispatch.attachment
  agents := a.agents.values.mergeSort fun x y => decide (x.id ≤ y.id)
  components := a.components.size
  pendingTimers := a.timers.len

def enqueue (a : Actor κ) (e : Event κ) : Actor κ :=
  { a with mailbox := a.mailbox.push e, stirred := true }

/-- The timers are lined up with the clock at the start; it runs from its first turn on. -/
def start (a : Actor κ) (now maxDelay : UInt64) : Except Error Unit × Actor κ :=
  if a.dormant then (.ok (), { a with dormant := false, timers := .withMaxDelay now maxDelay })
  else (.error (.alreadyStarted a.name), a)

def registerMessage (a : Actor κ) (proto : UInt32) (handler : κ) : Except Error Unit × Actor κ :=
  if a.onMessage.contains proto then (.error (.duplicateHandler (messageKey proto)), a)
  else (.ok (), { a with onMessage := a.onMessage.insert proto handler })

def registerRpc (a : Actor κ) (name : String) (handler : κ) : Except Error Unit × Actor κ :=
  if a.onRpc.contains name then (.error (.duplicateHandler (rpcKey name)), a)
  else (.ok (), { a with onRpc := a.onRpc.insert name handler })

/-- A session that comes in under the number of another takes its place. -/
def connect (a : Actor κ) (agent : Agent) : Actor κ :=
  { a with agents := a.agents.insert agent.id agent }

def disconnect (a : Actor κ) (id : AgentId) : Actor κ := { a with agents := a.agents.erase id }

def purse (a : Actor κ) (id : Timer.TimerId) : Replies :=
  ((a.purses.find? fun p => p.1 == id).map Prod.snd).getD .empty

def schedule (a : Actor κ) (now delay : UInt64) (task : Task κ) (owned : List String) :
    Timer.TimerId × Actor κ :=
  let (id, timers) := a.timers.add now delay task
  (id, { a with
    timers, purses := a.purses ++ [(id, a.dispatch.hand.only owned)],
    dispatch.hand := a.dispatch.hand.without owned })

def expire (a : Actor κ) (now : UInt64) : Option (Timer.Expired (Task κ)) × Actor κ :=
  match a.timers.poll now with
  | (none, timers) => (none, { a with timers })
  | (some e, timers) =>
    (some e, { a with
      timers, purses := a.purses.eraseP fun p => p.1 == e.id, dispatch.hand := a.purse e.id })

/-- Cancels a timer, and with one that is pending all that its callback owns. -/
def cancel (a : Actor κ) (id : Timer.TimerId) : (Bool × List CallRef) × Actor κ :=
  let (b, timers) := a.timers.delete id
  if b && a.timers.running != some id then
    ((b, (a.purse id).values),
      { a with timers, purses := a.purses.eraseP fun p => p.1 == id })
  else ((b, []), { a with timers })

end Actor

end ActorSystem
