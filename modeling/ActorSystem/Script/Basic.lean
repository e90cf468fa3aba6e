import ActorSystem.Actor.Program

set_option autoImplicit false

namespace ActorSystem.Script

/-- A value in a script: fixed, an argument, or what is stored under a key. -/
inductive Expr where
  | value (v : Value)
  | arg (n : Nat)
  | stored (key : Int32)
  deriving Repr

inductive Action where
  | note (text : String)
  | args
  | done (values : List Expr)
  | echo
  | takeReply (slot : String)
  | reply (slot : String) (values : List Expr)
  | dropReply (slot : String)
  | store (key : Int32) (value : Expr)
  | get (key : Int32)
  | remove (key : Int32)
  | incr (key : Int32)
  | timer (delay : UInt64) (args : List Expr) (script : List Action) (save : Option Int32)
  | rearm (delay : UInt64)
  | cancel (key : Int32)
  | cancelId (id : UInt64)
  | stats
  | now
  | context
  | debug
  | agent (id : AgentId)
  | component (id : ComponentId)
  | read (kind : ReadKind) (index : Nat)
  | call (target name : String) (args : List Expr)
  | rpc (target name : String) (args : List Expr)
  | exec (target : String) (script : List Action)
  | close (target : String)
  | await (target name : String)
  | onRpc (target name : String) (script : List Action)
  | join
  | inspect (target : String)
  | panic

structure Manager where
  onCreate : List Action
  onError : List Action
  onConnected : List Action
  onClosed : List Action

inductive Code where
  | script (actions : List Action)
  | manager (m : Manager)
  | passive

end ActorSystem.Script
