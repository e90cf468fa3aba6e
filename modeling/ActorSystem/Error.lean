import ActorSystem.Value.Args

set_option autoImplicit false

namespace ActorSystem

inductive Error where
  | io (text : String)
  | duplicateHandler (key : String)
  | handlerNotFound (key : String)
  | actorClosed (name : String)
  | actorNotFound (name : String)
  | alreadyStarted (name : String)
  | rpcTimeout (rpc : String)
  | rpcDropped (rpc : String)
  | blockingInside (rpc : String)
  | emptyPool (name : String)
  | argument (e : ArgError)
  deriving DecidableEq, Repr

def Error.message : Error → String
  | io text => "I/O error: " ++ text
  | duplicateHandler key => "handler for " ++ key ++ " has already been registered"
  | handlerNotFound key => "no handler registered for " ++ key
  | actorClosed name => "module `" ++ name ++ "` is closed"
  | actorNotFound name => "module `" ++ name ++ "` not found"
  | alreadyStarted name => "module `" ++ name ++ "` has already been started"
  | rpcTimeout rpc => "await rpc `" ++ rpc ++ "` timed out"
  | rpcDropped rpc => "await rpc `" ++ rpc ++ "` finished without a reply"
  | blockingInside rpc => "blocking call `" ++ rpc ++ "` issued from inside an async runtime"
  | emptyPool name => "worker pool `" ++ name ++ "` has no members"
  | argument e => "argument error: " ++ e.message

/-- How a handler key is named in an error: by message type or by RPC name. -/
def messageKey (proto : UInt32) : String := "message type " ++ toString proto.toNat

def rpcKey (name : String) : String := "rpc `" ++ name ++ "`"

end ActorSystem
