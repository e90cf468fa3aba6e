import ActorSystem.Timer.Level

/-!
A hierarchical timer wheel. A timer waits in the coarsest level whose base is not after its due
tick; when a level has gone round, the next one moves on by a slot and the timers of that slot go
down to finer levels. A timer added behind the finest level waits in a chain of its own.

The wheel calls nothing: its owner polls for due timers and runs them. From a poll until `finish`
the timer counts as running, and cancelling it has no effect.
-/

set_option autoImplicit false

namespace ActorSystem.Timer

structure Wheel (α : Type) where
  levels : Vector Level 5
  overdue : Chain
  arena : Arena α
  seq : Nat
  len : Nat
  running : Option TimerId
  maxDelay : Nat
  fired : Nat
  cancelled : Nat

structure Expired (α : Type) where
  id : TimerId
  due : Nat
  payload : α

inductive Place where
  | overdue
  | slot (level : Fin 5) (slot : Fin 256)
  deriving DecidableEq, Repr

namespace Wheel

variable {α : Type}

def withMaxDelay (now : UInt64) (limit : UInt64) : Wheel α where
  levels := Vector.ofFn fun k => Level.new k (tickOf now)
  overdue := .empty
  arena := .empty
  seq := 0
  len := 0
  running := none
  maxDelay := min limit.toNat Timer.maxDelay
  fired := 0
  cancelled := 0

def new (now : UInt64) : Wheel α := withMaxDelay now (UInt64.ofNat Timer.maxDelay)

def isEmpty (w : Wheel α) : Bool := w.len == 0

def finest (w : Wheel α) : Level := w.levels.get 0

def coarsest (w : Wheel α) : Level := w.levels.get 4

def currentTick (w : Wheel α) : Nat := w.finest.base

def modifyLevel (w : Wheel α) (k : Fin 5) (f : Level → Level) : Wheel α :=
  { w with levels := ⟨w.levels.toArray.modify k f, by simp⟩ }

/-- Where a timer with this due tick belongs now: the coarsest level that has not gone past it. -/
def locate (w : Wheel α) (due : Nat) : Place :=
  match ([4, 3, 2, 1, 0] : List (Fin 5)).find? fun k => decide ((w.levels.get k).base ≤ due) with
  | some k => .slot k ((w.levels.get k).slotFor k due)
  | none => .overdue

def insert (w : Wheel α) (i : Nat) : Wheel α :=
  match w.locate (w.arena.due i) with
  | .overdue =>
    let (overdue, arena) := w.arena.pushBack w.overdue i
    { w with overdue, arena }
  | .slot k s =>
    let (c, arena) := w.arena.pushBack ((w.levels.get k).slots.get s) i
    { w with arena }.modifyLevel k fun l => l.setSlot s c (l.count + 1)

/-- With nothing pending the levels start over at `now`, which spares the wheel the idle time. -/
def align (w : Wheel α) (now : Nat) : Wheel α :=
  if w.len = 0 ∧ w.currentTick ≠ now then
    { w with levels := w.levels.mapFinIdx fun k l _ => l.reset k now }
  else w

/-- The tick at which a timer added now is due: it is cut to the delay allowed, to the last window
of the coarsest level and to the last tick. -/
def dueTick (w : Wheel α) (now : Nat) (delay : UInt64) : Nat :=
  min (min (now + min delay.toNat w.maxDelay) (w.coarsest.base + 255 * Level.unit 4))
    (tickRange - 1)

def add (w : Wheel α) (now delay : UInt64) (payload : α) : TimerId × Wheel α :=
  let now := tickOf now
  let w := w.align now
  let due := w.dueTick now delay
  let seq := nextSeq w.seq
  let (i, arena) := w.arena.acquire seq due payload
  let w := { w with seq, arena }.insert i
  (pack due seq, { w with len := w.len + 1 })

def unlink (w : Wheel α) (due seq : Nat) : Option (Nat × Wheel α) :=
  match w.locate due with
  | .overdue =>
    (w.arena.unlink w.overdue tickRange due seq).map fun (i, overdue, arena) =>
      (i, { w with overdue, arena })
  | .slot k s =>
    (w.arena.unlink ((w.levels.get k).slots.get s) tickRange due seq).map fun (i, c, arena) =>
      (i, { w with arena }.modifyLevel k fun l => l.setSlot s c (l.count - 1))

/-- Cancels a pending timer; true also for the running one, which is left alone. -/
def delete (w : Wheel α) (id : TimerId) : Bool × Wheel α :=
  if id = 0 then (false, w)
  else if w.running = some id then (true, w)
  else
    let (due, seq) := unpack id
    match w.unlink due seq with
    | some (i, w) =>
      (true,
        { w with arena := (w.arena.release i).2, len := w.len - 1, cancelled := w.cancelled + 1 })
    | none => (false, w)

def scatter : Nat → Chain → Wheel α → Wheel α
  | 0, _, w => w
  | n + 1, c, w =>
    match w.arena.popFront c with
    | none => w
    | some (i, c, arena) => scatter n c ({ w with arena }.insert i)

/-- Moves level `k` on by a slot and scatters the timers of the slot it leaves. -/
def turn (w : Wheel α) (k : Fin 5) : Wheel α :=
  let (turned, left) := (w.levels.get k).current.take
  let w := w.modifyLevel k fun l => (l.setSlot l.index left (l.count - turned.len)).skip k 1
  scatter turned.len turned w

def cascade (w : Wheel α) : List (Fin 5) → Wheel α
  | [] => w
  | k :: ks =>
    let w := w.turn k
    if (w.levels.get k).index = 0 then w.cascade ks else w

/-- Moves the finest level past its empty current slot. With no timer in it, it goes straight to
the end of its ring, or to just after `now` if that comes first. -/
def advance (w : Wheel α) (now : Nat) : Wheel α :=
  let l := w.finest
  let steps := if l.count = 0 then min l.untilWrap (now + 1 - l.base) else 1
  let wrapped := steps == l.untilWrap
  let w := w.modifyLevel 0 fun l => l.skip 0 steps
  if wrapped then w.cascade [1, 2, 3, 4] else w

def fire (w : Wheel α) (i : Nat) : Option (Expired α) × Wheel α :=
  let due := w.arena.due i
  let seq := ((w.arena.node? i).map Node.seq).getD 0
  match w.arena.release i with
  | (none, arena) => (none, { w with arena })
  | (some payload, arena) =>
    let id := pack due seq
    (some ⟨id, due, payload⟩,
      { w with arena, len := w.len - 1, fired := w.fired + 1, running := some id })

def popOverdue (w : Wheel α) : Option (Nat × Wheel α) :=
  (w.arena.popFront w.overdue).map fun (i, overdue, arena) => (i, { w with overdue, arena })

def popCurrent (w : Wheel α) : Option (Nat × Wheel α) :=
  (w.arena.popFront w.finest.current).map fun (i, c, arena) =>
    (i, { w with arena }.modifyLevel 0 fun l => l.setSlot l.index c (l.count - 1))

/-- Every round but the last moves the finest level on, so that the ticks up to `now` bound them. -/
def pollRounds (now : Nat) : Nat → Wheel α → Option (Expired α) × Wheel α
  | 0, w => (none, w)
  | n + 1, w =>
    if w.len = 0 ∨ now < w.currentTick then (none, w)
    else
      match w.popCurrent with
      | some (i, w) => w.fire i
      | none => pollRounds now n (w.advance now)

/-- Takes the next timer that is due at `now`. -/
def poll (w : Wheel α) (now : UInt64) : Option (Expired α) × Wheel α :=
  match w.popOverdue with
  | some (i, w) => w.fire i
  | none =>
    let now := tickOf now
    pollRounds now (now + 1 - w.currentTick) w

def finish (w : Wheel α) : Wheel α := { w with running := none }

def execute (w : Wheel α) (now : UInt64) : Nat → List (Expired α) × Wheel α
  | 0 => ([], w)
  | max + 1 =>
    match w.poll now with
    | (none, w) => ([], w)
    | (some e, w) =>
      let (es, w) := w.finish.execute now max
      (e :: es, w)

/-- How long the owner may sleep: until a timer of the finest level, or until it goes round. -/
def nextWake (w : Wheel α) (now : UInt64) : Option Nat :=
  if !w.overdue.isEmpty then some 0
  else if w.len = 0 then none
  else
    let l := w.finest
    let offset :=
      if l.count = 0 then l.untilWrap
      else
        ((List.range l.untilWrap).find? fun k =>
          !(l.slots.get (Fin.ofNat 256 (l.index.val + k))).isEmpty).getD l.untilWrap
    some (l.base + offset - tickOf now)

structure Stats where
  pending : Nat
  levels : List Nat
  nonEmptySlots : List Nat
  overdue : Nat
  fired : Nat
  cancelled : Nat
  pooled : Nat
  tick : Nat
  deriving DecidableEq, Repr

def stats (w : Wheel α) : Stats where
  pending := w.len
  levels := w.levels.toList.map Level.count
  nonEmptySlots := w.levels.toList.map Level.nonEmptySlots
  overdue := w.overdue.len
  fired := w.fired
  cancelled := w.cancelled
  pooled := w.arena.pooled
  tick := w.currentTick

def Stats.shown (s : Stats) : String :=
  "TimerStats \x7b pending: " ++ toString s.pending ++
    ", levels: [" ++ ", ".intercalate (s.levels.map toString) ++
    "], overdue: " ++ toString s.overdue ++ ", fired: " ++ toString s.fired ++
    ", cancelled: " ++ toString s.cancelled ++ ", pooled: " ++ toString s.pooled ++
    ", tick: " ++ toString s.tick ++ " \x7d"

end Wheel

end ActorSystem.Timer
