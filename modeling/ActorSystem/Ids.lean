set_option autoImplicit false

namespace ActorSystem

structure IdSource where
  upcoming : UInt64
  deriving DecidableEq, Repr

namespace IdSource

def new : IdSource := ⟨1⟩

def fresh (s : IdSource) : UInt64 × IdSource :=
  if s.upcoming = 0 then (1, ⟨2⟩) else (s.upcoming, ⟨s.upcoming + 1⟩)

def freshList (s : IdSource) : Nat → List UInt64 × IdSource
  | 0 => ([], s)
  | n + 1 =>
    let (id, s) := s.fresh
    let (ids, s) := s.freshList n
    (id :: ids, s)

theorem fresh_ne_zero (s : IdSource) : s.fresh.1 ≠ 0 := by
  unfold fresh
  split <;> simp_all

end IdSource

end ActorSystem
