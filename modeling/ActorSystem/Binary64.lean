/-!
Double-precision numbers held as their 64 bits: equality, the conversions into them that never
fail, and the magnitude of a finite one as an integer times a power of two.
-/

set_option autoImplicit false

namespace ActorSystem

structure Binary64 where
  bits : UInt64
  deriving DecidableEq, Repr

namespace Binary64

def negative (x : Binary64) : Bool := decide (1 <<< 63 ≤ x.bits.toNat)

def exponent (x : Binary64) : Nat := x.bits.toNat / (1 <<< 52) % (1 <<< 11)

def fraction (x : Binary64) : Nat := x.bits.toNat % (1 <<< 52)

def isNaN (x : Binary64) : Bool := x.exponent == 2047 && x.fraction != 0

def isInfinite (x : Binary64) : Bool := x.exponent == 2047 && x.fraction == 0

def isZero (x : Binary64) : Bool := x.bits.toNat % (1 <<< 63) == 0

/-- Numeric equality: the two zeros are equal, and a NaN equals nothing. -/
def eq (x y : Binary64) : Bool :=
  !x.isNaN && !y.isNaN && (x.bits == y.bits || x.isZero && y.isZero)

theorem eq_self (x : Binary64) : x.eq x = !x.isNaN := by
  simp [eq]

/-- The magnitude of a finite number is the first part times two to the second. -/
def scaled (x : Binary64) : Nat × Int :=
  if x.exponent = 0 then (x.fraction, -1074)
  else (x.fraction + (1 <<< 52), (x.exponent : Int) - 1075)

def flipSign (x : Binary64) : Binary64 := ⟨x.bits ^^^ 0x8000000000000000⟩

/-- The nearest double, a tie going to the even neighbour. A carry out
of the fraction lands in the exponent, where it belongs. -/
def ofNat (n : Nat) : Binary64 :=
  if n = 0 then ⟨0⟩
  else
    let e := n.log2
    let significand :=
      if e ≤ 52 then n <<< (52 - e)
      else
        let unit := 1 <<< (e - 52)
        let q := n / unit
        let r := n % unit
        if unit < 2 * r ∨ unit = 2 * r ∧ q % 2 = 1 then q + 1 else q
    ⟨UInt64.ofNat ((e + 1022) * (1 <<< 52) + significand)⟩

def ofInt (n : Int) : Binary64 :=
  if n < 0 then (ofNat n.natAbs).flipSign else ofNat n.natAbs

end Binary64

structure Binary32 where
  bits : UInt32
  deriving DecidableEq, Repr

def Binary32.widen (x : Binary32) : Binary64 :=
  let n := x.bits.toNat
  let sign := n / (1 <<< 31) * (1 <<< 63)
  let e := n / (1 <<< 23) % (1 <<< 8)
  let f := n % (1 <<< 23)
  let magnitude :=
    if e = 255 then 2047 * (1 <<< 52) + f * (1 <<< 29)
    else if 0 < e then (e + 896) * (1 <<< 52) + f * (1 <<< 29)
    else if f = 0 then 0
    else (f.log2 + 873) * (1 <<< 52) + f <<< (52 - f.log2)
  ⟨UInt64.ofNat (sign + magnitude)⟩

end ActorSystem
