import ActorSystem.Error
import ActorSystem.Event
import ActorSystem.Timer.Wheel

set_option autoImplicit false

namespace ActorSystem

/-- Position of an actor in the order of creation. -/
abbrev ActorRef := Nat

inductive Invocation where
  | message (payload : Value)
  | rpc (args : Args)
  | timer (args : Args)
  | action
  | componentCreated (id : ComponentId)
  | componentFailed (e : ComponentError)
  | linkerConnected (agent : Agent)
  | linkerClosed (agent : Agent) (e : Option ComponentError)
  deriving Repr

inductive Phase where
  | created
  | running
  | restarting
  | closed
  deriving DecidableEq, Repr

def Phase.shown : Phase → String
  | created => "Created"
  | running => "Running"
  | restarting => "Restarting"
  | closed => "Closed"

/-- What everybody may see of an actor. -/
structure Status where
  id : ActorId
  name : String
  phase : Phase
  restarts : Nat
  processed : Nat
  deriving DecidableEq, Repr

def Status.closed (s : Status) : Bool := s.phase == .closed

def Status.shown (s : Status) : String :=
  "Module \x7b id: " ++ toString s.id.toNat ++ ", name: " ++ Text.quoted s.name ++
    ", state: " ++ s.phase.shown ++ " \x7d"

/-- What code sees of its own actor and of what it is run for. -/
structure Glimpse where
  status : Status
  sender : Option Agent
  senderActor : Option ActorId
  component : Option ComponentId
  attachment : Option Value
  agents : List Agent
  components : Nat
  pendingTimers : Nat
  deriving Repr

def Glimpse.shown (g : Glimpse) : String :=
  "ModuleContext \x7b module: " ++ g.status.shown ++
    ", pending_timers: " ++ toString g.pendingTimers ++
    ", agents: " ++ toString g.agents.length ++
    ", components: " ++ toString g.components ++ " \x7d"

inductive Finding where
  | nothing
  | flag (b : Bool)
  | count (n : Nat)
  | handle (id : Timer.TimerId)
  | text (s : String)
  | values (vs : List Value)
  | stored (v : Option Value)
  | timers (s : Timer.Wheel.Stats)
  | glimpse (g : Glimpse)
  | agent (id : Option AgentId)
  | component (found : Option (ComponentId × ComponentKind))
  | failure (e : ComponentError)
  | linkClosed (agent : AgentId) (e : Option ComponentError)
  | reading (r : Except ArgError Reading)
  | outcome (r : Except Error Unit)
  | reply (r : Except Error (List Value))
  | status (s : Status) (pending : Int)

inductive Op (κ : Type) where
  | report (what : String) (finding : Finding)
  | look
  | now
  | put (key : Int32) (v : Value)
  | lookup (key : Int32)
  | erase (key : Int32)
  | answer (vs : List Value)
  | keepReply (slot : String)
  | answerKept (slot : String) (vs : List Value)
  | dropKept (slot : String)
  /-- Takes a kept reply out of its slot; if nothing else becomes of it, it ends with the code. -/
  | unshelve (slot : String)
  | shelve (slot : String)
  | release (slot : String)
  | setTimer (delay : UInt64) (callback : κ) (args : Args) (owned : List String)
  | cancelTimer (id : Timer.TimerId)
  | timerStats
  | agent (id : AgentId)
  | component (id : ComponentId)
  | find (name : String)
  | post (target : ActorRef) (p : Post κ)
  | execute (target : ActorRef) (action : κ) (owned : List String)
  | call (target : ActorRef) (name : String) (args : Args)
  | await (target : ActorRef) (name : String) (args : Args)
  | registerMessage (target : ActorRef) (proto : UInt32) (handler : κ)
  | registerRpc (target : ActorRef) (name : String) (handler : κ)
  | start (target : ActorRef)
  | close (target : ActorRef)
  | inspect (target : ActorRef)
  | backlog (target : ActorRef)

abbrev Op.Answer {κ : Type} : Op κ → Type
  | report .. => Unit
  | look => Option Glimpse
  | now => UInt64
  | put .. => Unit
  | lookup _ => Option Value
  | erase _ => Option Value
  | answer _ => Bool
  | keepReply _ => Bool
  | answerKept .. => Option Bool
  | dropKept _ => Bool
  | unshelve _ => Bool
  | shelve _ => Bool
  | release _ => Bool
  | setTimer .. => Timer.TimerId
  | cancelTimer _ => Bool
  | timerStats => Option Timer.Wheel.Stats
  | agent _ => Option Agent
  | component _ => Option Component
  | find _ => Option ActorRef
  | post .. => Unit
  | execute .. => Unit
  | call .. => Unit
  | await .. => Except Error (List Value)
  | registerMessage .. => Except Error Unit
  | registerRpc .. => Except Error Unit
  | start _ => Except Error Unit
  | close _ => Unit
  | inspect _ => Option Status
  | backlog _ => Int

inductive Prog (κ α : Type) where
  | pure (a : α)
  | panic
  | op (o : Op κ) (next : o.Answer → Prog κ α)

namespace Prog

variable {κ α β : Type}

def bind : Prog κ α → (α → Prog κ β) → Prog κ β
  | pure a, f => f a
  | panic, _ => panic
  | op o next, f => op o fun x => (next x).bind f

instance : Monad (Prog κ) where
  pure := pure
  bind := bind

def perform (o : Op κ) : Prog κ o.Answer := op o pure

@[simp] theorem bind_pure (p : Prog κ α) : p.bind pure = p := by
  induction p with
  | pure => rfl
  | panic => rfl
  | op o next ih => simp [bind, ih]

theorem bind_assoc {γ : Type} (p : Prog κ α) (f : α → Prog κ β) (g : β → Prog κ γ) :
    (p.bind f).bind g = p.bind fun a => (f a).bind g := by
  induction p with
  | pure => rfl
  | panic => rfl
  | op o next ih => simp [bind, ih]

end Prog

end ActorSystem
