import ActorSystem.Hash.Route
import ActorSystem.Timer.Handle

set_option autoImplicit false

namespace ActorSystem

/-- What a panic does to the events of the current batch behind the one that panicked. -/
inductive RestartPolicy where
  | dropBatch
  | requeueRemaining
  deriving DecidableEq, Repr

def RestartPolicy.shown : RestartPolicy → String
  | dropBatch => "DropBatch"
  | requeueRemaining => "RequeueRemaining"

structure Config where
  batchSize : Nat := 128
  wakeCapacity : Nat := 128
  idleTickMs : Nat := 15
  maxTimers : Nat := 100
  restartPolicy : RestartPolicy := .dropBatch
  stackSize : Option Nat := none
  maxDelayMs : UInt64 := UInt64.ofNat Timer.maxDelay
  routeHash : RouteHash := .default
  deriving DecidableEq, Repr

end ActorSystem
