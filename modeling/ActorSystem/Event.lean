import ActorSystem.Component
import ActorSystem.Table
import ActorSystem.Value.Shown

/-!
Events: all that an actor reacts to. An event that somebody posts is a `Post`; the other ones carry
the references of calls that wait for a reply, which no poster can make up.
-/

set_option autoImplicit false

namespace ActorSystem

inductive EventKind where
  | none
  | tcpConnected
  | tcpConnectFailed
  | tcpAccepted
  | tcpReadMsg
  | tcpClosed
  | rpc
  | awaitRpc
  | componentCreate
  | componentError
  | componentCustom
  deriving DecidableEq, Repr

namespace EventKind

def all : List EventKind :=
  [none, tcpConnected, tcpConnectFailed, tcpAccepted, tcpReadMsg, tcpClosed, rpc,
    awaitRpc, componentCreate, componentError, componentCustom]

def ofNumber? (n : UInt8) : Option EventKind := all[n.toNat]?

def number : EventKind → UInt8
  | none => 0
  | tcpConnected => 1
  | tcpConnectFailed => 2
  | tcpAccepted => 3
  | tcpReadMsg => 4
  | tcpClosed => 5
  | rpc => 6
  | awaitRpc => 7
  | componentCreate => 8
  | componentError => 9
  | componentCustom => 10

theorem ofNumber?_number (k : EventKind) : ofNumber? k.number = some k := by
  cases k <;> rfl

def name : EventKind → String
  | none => "none"
  | tcpConnected => "tcp_connected"
  | tcpConnectFailed => "tcp_connect_failed"
  | tcpAccepted => "tcp_accepted"
  | tcpReadMsg => "tcp_read_msg"
  | tcpClosed => "tcp_closed"
  | rpc => "module_rpc"
  | awaitRpc => "module_await_rpc"
  | componentCreate => "component_create"
  | componentError => "component_error"
  | componentCustom => "component_custom"

def shown : EventKind → String
  | none => "None"
  | tcpConnected => "TcpConnected"
  | tcpConnectFailed => "TcpConnectFailed"
  | tcpAccepted => "TcpAccepted"
  | tcpReadMsg => "TcpReadMsg"
  | tcpClosed => "TcpClosed"
  | rpc => "ModuleRpc"
  | awaitRpc => "ModuleAwaitRpc"
  | componentCreate => "ComponentCreate"
  | componentError => "ComponentError"
  | componentCustom => "ComponentCustom"

end EventKind

abbrev ActorId := UInt64

/-- Position of an awaited call among all calls ever accepted. -/
abbrev CallRef := Nat

/-- Replies that are to be sent later, by name. Whoever has one can send it or throw it away. -/
abbrev Replies := Table String CallRef

structure Request where
  sender : Option ActorId
  name : String
  args : Args
  deriving Repr, Inhabited

/-- What anybody may post to an actor; `κ` is the type of code. -/
inductive Post (κ : Type) where
  | session (kind : EventKind) (agent : Option Agent) (via : ComponentId) (extra : Args)
  | data (kind : EventKind) (agent : Option Agent) (proto : UInt32) (payload : Value)
  | rpc (request : Request)
  | component (kind : EventKind) (component : Component) (manager : Option κ)
      (error : Option ComponentError)
  | custom (action : κ)

inductive Event (κ : Type) where
  | post (p : Post κ)
  | awaitRpc (request : Request) (call : CallRef)
  | errand (action : κ) (replies : Replies)

def Post.kind {κ : Type} : Post κ → EventKind
  | session kind .. | data kind .. | component kind .. => kind
  | rpc _ => .rpc
  | custom _ => .componentCustom

def Event.kind {κ : Type} : Event κ → EventKind
  | post p => p.kind
  | awaitRpc .. => .awaitRpc
  | errand .. => .componentCustom

/-- The call that the event has been made by. -/
def Event.call? {κ : Type} : Event κ → Option CallRef
  | awaitRpc _ call => some call
  | _ => none

def Event.calls {κ : Type} : Event κ → List CallRef
  | post _ => []
  | awaitRpc _ call => [call]
  | errand _ replies => replies.values

def Request.shown (r : Request) : String :=
  "RpcRequest \x7b sender: " ++ shownOption (r.sender.map fun n => toString n.toNat) ++
    ", name: " ++ Text.quoted r.name ++ ", args: " ++ r.args.shown ++ " \x7d"

def Post.shown {κ : Type} : Post κ → String
  | session kind agent via extra =>
    "Session \x7b kind: " ++ kind.shown ++
      ", agent: " ++ shownOption (agent.map fun a => toString a.id.toNat) ++
      ", component_id: " ++ toString via.toNat ++ ", extra: " ++ extra.shown ++ " \x7d"
  | data kind agent proto payload =>
    "Data \x7b kind: " ++ kind.shown ++
      ", agent: " ++ shownOption (agent.map fun a => toString a.id.toNat) ++
      ", proto_type_id: " ++ toString proto.toNat ++ ", payload: " ++ payload.shown ++ " \x7d"
  | rpc request => "Rpc(" ++ request.shown ++ ")"
  | component kind c _ error =>
    "Component \x7b kind: " ++ kind.shown ++ ", component: " ++ toString c.id.toNat ++
      ", error: " ++ shownOption (error.map ComponentError.shown) ++ " \x7d"
  | custom _ => "Custom"

def Event.shown {κ : Type} : Event κ → String
  | post p => p.shown
  | awaitRpc request _ => "AwaitRpc(" ++ request.shown ++ ")"
  | errand .. => "Custom"

end ActorSystem
