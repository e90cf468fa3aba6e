import ActorSystem.Binary64

/-!
Decimal text of a double: the fewest digits that read back as the same number, and of those the
nearest to it, always in positional notation.

All comparisons are made exactly. A finite magnitude is `m * 2 ^ q`; the numbers that read back as
it lie between its two midpoints, which are kept as fractions over one denominator.
-/

set_option autoImplicit false

namespace ActorSystem.Decimal

/-- The value and the two ends of the interval that reads back as it, over `den`. -/
structure Bracket where
  low : Nat
  value : Nat
  high : Nat
  den : Nat
  closed : Bool

/-- The lower midpoint is nearer where the number below has half the spacing. -/
def bracket (x : Binary64) : Bracket :=
  let (m, q) := x.scaled
  let narrow := x.fraction == 0 && decide (1 < x.exponent)
  let up := 1 <<< q.toNat
  let den := 4 <<< (-q).toNat
  ⟨(4 * m - if narrow then 1 else 2) * up, 4 * m * up, (4 * m + 2) * up, den, m % 2 == 0⟩

def Bracket.holds (b : Bracket) (num den : Nat) : Bool :=
  let n := num * b.den
  if b.closed then decide (b.low * den ≤ n ∧ n ≤ b.high * den)
  else decide (b.low * den < n ∧ n < b.high * den)

structure Digits where
  digits : Nat
  count : Nat
  point : Int

/-- The least `p` with the value below `10 ^ p`, for a positive value; the search starts from an
estimate by the number of bits and looks at a few places around it. -/
def magnitude (b : Bracket) : Int :=
  let estimate := ((b.value.log2 : Int) - (b.den.log2 : Int)) * 30103 / 100000
  let below (p : Int) : Bool := decide (b.value * Nat.pow 10 (-p).toNat < b.den * Nat.pow 10 p.toNat)
  ((List.range 5).map fun (k : Nat) => estimate - 1 + (k : Int)).find? below |>.getD (estimate + 4)

/-- The neighbours of the value on the grid of `count` digits, if they read back: the nearer one,
a tie going up. -/
def onGrid (b : Bracket) (p : Int) (count : Nat) : Option Digits :=
  let e := (count : Int) - p
  let num := b.value * Nat.pow 10 e.toNat
  let den := b.den * Nat.pow 10 (-e).toNat
  let d := num / den
  let inside (k : Nat) := b.holds (k * Nat.pow 10 (-e).toNat) (Nat.pow 10 e.toNat)
  let pick (k : Nat) : Digits := ⟨k, count, p⟩
  match inside d, inside (d + 1) with
  | true, true => some (pick (if 2 * (num % den) < den then d else d + 1))
  | true, false => some (pick d)
  | false, true => some (pick (d + 1))
  | false, false => none

def shortest (x : Binary64) : Digits :=
  let b := bracket x
  let p := magnitude b
  ((List.range 17).findSome? fun k => onGrid b p (k + 1)).getD ⟨0, 1, 1⟩

/-- Writes `digits * 10 ^ e` without an exponent; zeros that carry nothing after the point go. -/
def positional (digits : Nat) (e : Int) : String :=
  if 0 ≤ e then toString (digits * Nat.pow 10 e.toNat)
  else
    let places := (-e).toNat
    let whole := digits / Nat.pow 10 places
    let rest := (Nat.toDigits 10 (digits % Nat.pow 10 places))
    let padded := List.replicate (places - rest.length) '0' ++ rest
    let kept := (padded.reverse.dropWhile (· == '0')).reverse
    if kept.isEmpty then toString whole else toString whole ++ "." ++ String.ofList kept

def ofBinary64 (x : Binary64) : String :=
  if x.isNaN then "NaN"
  else
    let sign := if x.negative then "-" else ""
    if x.isInfinite then sign ++ "inf"
    else if x.isZero then sign ++ "0"
    else
      let s := shortest x
      sign ++ positional s.digits (s.point - s.count)

end ActorSystem.Decimal
