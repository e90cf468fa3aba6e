import ActorSystem.Script.Basic
import ActorSystem.System.Basic

set_option autoImplicit false

namespace ActorSystem.Scenario

open Script (Action Manager Code)

/-- An actor or a pool, by name. -/
inductive Target where
  | actor (name : String)
  | pool (name : String)
  deriving DecidableEq, Repr

inductive ComponentSource where
  | fresh (c : Component)
  | known (id : ComponentId)

inductive Step where
  | actor (name : String)
  | pool (name : String) (size : Nat)
  | start
  | startOne (name : String)
  | run
  | advance (ms : UInt64)
  | setClock (ms : UInt64)
  | onRpc (target : Target) (name : String) (script : List Action)
  | onMessage (target : Target) (proto : UInt32) (script : List Action)
  | hasRpc (actor name : String)
  | rpc (target : Target) (name : String) (args : Args)
  | call (id : String) (target : Target) (name : String) (args : Args)
  | expire (id : String)
  | dropCall (id : String)
  | await (target : Target) (name : String) (args : Args)
  | awaitInside (name : String)
  | post (actor : String) (kind : EventKind) (agent : Option AgentId) (via : ComponentId)
      (extra : Args)
  | data (actor : String) (kind : EventKind) (proto : UInt32) (agent : Option AgentId)
      (payload : Value)
  | manager (name : String) (m : Manager)
  | addComponent (actor : String) (c : ComponentSource) (manager : String)
  | componentError (actor : String) (c : ComponentSource) (e : ComponentError)
  | pushComponent (actor : String) (kind : EventKind) (c : ComponentSource)
      (manager : Option String) (e : Option ComponentError)
  | exec (actor : String) (script : List Action)
  | close (target : Target)
  | closeAll
  | inspect (actor : String)
  | inspectAll
  | debug (actor : String)
  | find (name : String)
  | require (name : String)
  | findPool (name : String)
  | actors
  | started
  | nextId
  | route (pool name : String)
  | console (line : String)
  | consoleRead (bytes : List UInt8)

inductive Answer where
  | nothing
  | pending
  | flag (b : Bool)
  | number (n : Nat)
  | text (s : String)
  | members (ids : List (ActorId × String))
  | status (s : Status) (pending : Int)
  | statuses (all : List (Status × Int))
  | outcome (r : Except Error Unit)
  | reply (r : Except Error (List Value))
  | failed (e : Error)

/-- What a step shows: its answer, what happened during it, and the calls that ended. -/
structure Result where
  answer : Answer
  trace : List Entry
  ended : List (String × Except Error (List Value))

structure State where
  system : System Code
  calls : Table String CallRef
  managers : Table String Manager
  components : Table ComponentId Component

def State.new (config : Config) (clock : UInt64) : State :=
  ⟨.new config ⟨clock⟩, .empty, .empty, .empty⟩

end ActorSystem.Scenario
