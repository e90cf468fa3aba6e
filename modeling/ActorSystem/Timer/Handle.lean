set_option autoImplicit false

namespace ActorSystem.Timer

/-- Handle of a timer; zero means no timer. -/
abbrev TimerId := UInt64

def levelCount : Nat := 5

def slotCount : Nat := 256

def tickRange : Nat := 1 <<< 40

def seqRange : Nat := 1 <<< 24

/-- Sequence numbers are below this. -/
def seqLimit : Nat := seqRange - 1

/-- The span of the coarsest level. -/
def maxDelay : Nat := 255 <<< 32

def tickOf (now : UInt64) : Nat := now.toNat % tickRange

def pack (due seq : Nat) : TimerId := UInt64.ofNat (due % tickRange * seqRange + seq % seqRange)

def unpack (id : TimerId) : Nat × Nat := (id.toNat / seqRange, id.toNat % seqRange)

def nextSeq (seq : Nat) : Nat := if seqLimit ≤ seq + 1 then 1 else seq + 1

theorem toNat_pack (due seq : Nat) :
    (pack due seq).toNat = due % tickRange * seqRange + seq % seqRange := by
  have : due % tickRange * seqRange + seq % seqRange < 2 ^ 64 := by
    have := Nat.mod_lt due (by decide : 0 < tickRange)
    simp only [tickRange, seqRange, Nat.reduceShiftLeft] at this ⊢
    omega
  simpa [pack] using Nat.mod_eq_of_lt this

theorem unpack_pack (due seq : Nat) : unpack (pack due seq) = (due % tickRange, seq % seqRange) := by
  simp only [unpack, toNat_pack, tickRange, seqRange, Nat.reduceShiftLeft, Prod.mk.injEq]
  omega

theorem nextSeq_pos (seq : Nat) : 0 < nextSeq seq := by
  unfold nextSeq
  split <;> omega

theorem nextSeq_lt (seq : Nat) : nextSeq seq < seqLimit := by
  unfold nextSeq
  split
  · decide
  · omega

end ActorSystem.Timer
