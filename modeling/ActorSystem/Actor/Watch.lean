set_option autoImplicit false

namespace ActorSystem

/-- Where a loop goes on: with a batch, or with the timers after a batch of so many events. -/
inductive Stage where
  | batch
  | timers (taken : Nat)
  deriving DecidableEq, Repr

structure Watch where
  idle : Bool := false
  fired : Bool := false
  panicked : Bool := false
  processed : Nat := 0
  deriving DecidableEq, Repr

namespace Watch

def sawBatch (w : Watch) (panicked : Bool) : Watch := { w with panicked := w.panicked || panicked }

def sawTimers (w : Watch) (fired : Nat) : Watch := { w with fired := w.fired || decide (0 < fired) }

def read (w : Watch) (processed : Nat) : Bool × Watch :=
  if w.idle then (!w.fired, { w with idle := false })
  else if w.panicked then (false, { w with panicked := false })
  else (false, { w with idle := processed == w.processed, fired := false, processed })

end Watch

end ActorSystem
