import ActorSystem.Text.Quoted
import ActorSystem.Value

set_option autoImplicit false

namespace ActorSystem

abbrev AgentId := UInt64
abbrev ComponentId := UInt64

/-- A session. Several may come one after the other under one number. -/
structure Agent where
  id : AgentId
  serial : Nat
  deriving DecidableEq, Repr

inductive ComponentKind where
  | tcpServer
  | tcpClient
  | mongoDb
  | mySql
  | custom (n : UInt16)
  deriving DecidableEq, Repr

def ComponentKind.shown : ComponentKind → String
  | tcpServer => "TcpServer"
  | tcpClient => "TcpClient"
  | mongoDb => "MongoDb"
  | mySql => "MySql"
  | custom n => "Custom(" ++ toString n.toNat ++ ")"

inductive ComponentError where
  | startFailed (id : ComponentId) (reason : String)
  | connectFailed (id : ComponentId) (reason : String)
  | closed (id : ComponentId) (reason : String)
  deriving DecidableEq, Repr

namespace ComponentError

def component : ComponentError → ComponentId
  | startFailed id _ | connectFailed id _ | closed id _ => id

def message : ComponentError → String
  | startFailed id reason => "component " ++ toString id.toNat ++ " failed to start: " ++ reason
  | connectFailed id reason => "component " ++ toString id.toNat ++ " failed to connect: " ++ reason
  | closed id reason => "component " ++ toString id.toNat ++ " closed: " ++ reason

def shown (e : ComponentError) : String :=
  let fields (id : ComponentId) (reason : String) :=
    " \x7b component_id: " ++ toString id.toNat ++ ", reason: " ++ Text.quoted reason ++ " \x7d"
  match e with
  | startFailed id reason => "StartFailed" ++ fields id reason
  | connectFailed id reason => "ConnectFailed" ++ fields id reason
  | closed id reason => "Closed" ++ fields id reason

end ComponentError

/-- What happens when a component is started. -/
inductive StartResult where
  | started
  | failed (e : ComponentError)
  | panicked
  deriving DecidableEq, Repr

structure Component where
  id : ComponentId
  label : Value
  kind : ComponentKind
  start : StartResult
  deriving Repr

end ActorSystem
