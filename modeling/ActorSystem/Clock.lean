set_option autoImplicit false

namespace ActorSystem

structure Clock where
  now : UInt64
  deriving DecidableEq, Repr

namespace Clock

def advance (c : Clock) (ms : UInt64) : Clock := ⟨c.now + ms⟩

def set (c : Clock) (ms : UInt64) : Clock := ⟨max c.now ms⟩

end Clock

end ActorSystem
