import ActorSystem.Proofs.Calls

set_option autoImplicit false

namespace ActorSystem.Timer

def minus? (x y : Nat) : Option Nat := if y ≤ x then some (x - y) else none

def plus? (x y : Nat) : Option Nat := if x + y < 2 ^ 64 then some (x + y) else none

namespace Arena

variable {α : Type}

def setNext? (a : Arena α) (i : Nat) (next : Option Nat) : Option (Arena α) :=
  if i < a.capacity then some (a.setNext i next) else none

def acquire? (a : Arena α) (seq due : Nat) (payload : α) : Option (Nat × Arena α) :=
  match a.free with
  | i :: _ => if i < a.capacity then some (a.acquire seq due payload) else none
  | [] => some (a.acquire seq due payload)

def release? (a : Arena α) (i : Nat) : Option (Option α × Arena α) :=
  if i < a.capacity then some (a.release i) else none

def pushBack? (a : Arena α) (c : Chain) (i : Nat) : Option (Chain × Arena α) := do
  let a ← a.setNext? i none
  match c.tail with
  | some t =>
    let a ← a.setNext? t (some i)
    some ({ c with tail := some i, len := c.len + 1 }, a)
  | none => some (⟨some i, some i, c.len + 1⟩, a)

def popFront? (a : Arena α) (c : Chain) : Option (Option (Nat × Chain × Arena α)) :=
  match c.head with
  | none => some none
  | some h => do
    let next := a.next? h
    let a ← a.setNext? h none
    let len ← minus? c.len 1
    some (some (h, ⟨next, if next.isNone then none else c.tail, len⟩, a))

def search? (a : Arena α) (due seq : Nat) :
    Nat → Option Nat → Option Nat → Option (Option (Option Nat × Nat))
  | _, _, none => some none
  | 0, _, some _ => none
  | n + 1, prev, some i => do
    let node ← a.node? i
    if node.seq = seq ∧ node.due % tickRange = due then some (some (prev, i))
    else search? a due seq n (some i) node.next

def unlink? (a : Arena α) (c : Chain) (due seq : Nat) :
    Option (Option (Nat × Chain × Arena α)) := do
  match ← a.search? due seq c.len none c.head with
  | none => some none
  | some (prev, i) =>
    let next := a.next? i
    let tail := if c.tail = some i then prev else c.tail
    let len ← minus? c.len 1
    match prev with
    | some p =>
      let a ← a.setNext? p next
      let a ← a.setNext? i none
      some (some (i, { c with tail, len }, a))
    | none =>
      let a ← a.setNext? i none
      some (some (i, ⟨next, tail, len⟩, a))

end Arena

/-- The distance in slots must fit a byte, lest two windows share a slot. -/
def Level.slotFor? (l : Level) (k due : Nat) : Option (Fin 256) := do
  let delta ← minus? due l.base
  if delta / unit k < 256 then some (Fin.ofNat 256 (l.index.val + delta / unit k)) else none

namespace Wheel

variable {α : Type}

def locate? (w : Wheel α) (due : Nat) : Option Place :=
  match ([4, 3, 2, 1, 0] : List (Fin 5)).find? fun k => decide ((w.levels.get k).base ≤ due) with
  | some k => ((w.levels.get k).slotFor? k due).map (.slot k)
  | none => some .overdue

def insert? (w : Wheel α) (i : Nat) : Option (Wheel α) := do
  let node ← w.arena.node? i
  match ← w.locate? node.due with
  | .overdue =>
    let (overdue, arena) ← w.arena.pushBack? w.overdue i
    some { w with overdue, arena }
  | .slot k s =>
    let (c, arena) ← w.arena.pushBack? ((w.levels.get k).slots.get s) i
    some ({ w with arena }.modifyLevel k fun l => l.setSlot s c (l.count + 1))

def align? (w : Wheel α) (now : Nat) : Option (Wheel α) :=
  if w.len = 0 ∧ w.currentTick ≠ now then
    if ∀ k : Fin 5, (w.levels.get k).count = 0 ∧ Level.start k now < 2 ^ 64 then some (w.align now)
    else none
  else some w

def dueTick? (w : Wheel α) (now : Nat) (delay : UInt64) : Option Nat := do
  let horizon ← plus? w.coarsest.base (255 * Level.unit 4)
  let due ← plus? now (min delay.toNat w.maxDelay)
  some (min (min due horizon) (tickRange - 1))

def file? (w : Wheel α) (seq due : Nat) (payload : α) : Option (Wheel α) := do
  let (i, arena) ← w.arena.acquire? seq due payload
  { w with seq, arena }.insert? i

def add? (w : Wheel α) (now delay : UInt64) (payload : α) : Option (TimerId × Wheel α) := do
  let w ← w.align? (tickOf now)
  let due ← w.dueTick? (tickOf now) delay
  let v ← w.file? (nextSeq w.seq) due payload
  some (pack due (nextSeq w.seq), { v with len := v.len + 1 })

def unlink? (w : Wheel α) (due seq : Nat) : Option (Option (Nat × Wheel α)) := do
  match ← w.locate? due with
  | .overdue =>
    match ← w.arena.unlink? w.overdue due seq with
    | none => some none
    | some (i, overdue, arena) => some (some (i, { w with overdue, arena }))
  | .slot k s =>
    match ← w.arena.unlink? ((w.levels.get k).slots.get s) due seq with
    | none => some none
    | some (i, c, arena) =>
      let _ ← minus? (w.levels.get k).count 1
      some (some (i, { w with arena }.modifyLevel k fun l => l.setSlot s c (l.count - 1)))

def delete? (w : Wheel α) (id : TimerId) : Option (Bool × Wheel α) :=
  if id = 0 then some (false, w)
  else if w.running = some id then some (true, w)
  else do
    match ← w.unlink? (unpack id).1 (unpack id).2 with
    | some (i, w) =>
      let (_, arena) ← w.arena.release? i
      let len ← minus? w.len 1
      some (true, { w with arena, len, cancelled := w.cancelled + 1 })
    | none => some (false, w)

def scatter? : Nat → Chain → Wheel α → Option (Wheel α)
  | 0, c, w => if c.isEmpty then some w else none
  | n + 1, c, w => do
    match ← w.arena.popFront? c with
    | none => some w
    | some (i, c, arena) =>
      let w ← { w with arena }.insert? i
      scatter? n c w

def turn? (w : Wheel α) (k : Fin 5) : Option (Wheel α) := do
  let turned := (w.levels.get k).current
  let _ ← minus? (w.levels.get k).count turned.len
  let _ ← plus? (w.levels.get k).base (Level.unit k)
  scatter? turned.len turned
    (w.modifyLevel k fun l => (l.setSlot l.index .empty (l.count - turned.len)).skip k 1)

def cascade? (w : Wheel α) : List (Fin 5) → Option (Wheel α)
  | [] => some w
  | k :: ks => do
    let w ← w.turn? k
    if (w.levels.get k).index = 0 then w.cascade? ks else some w

def stride? (w : Wheel α) (now : Nat) : Option Nat :=
  if w.finest.count = 0 then (minus? (now + 1) w.finest.base).map (min w.finest.untilWrap)
  else some 1

def advance? (w : Wheel α) (now : Nat) : Option (Wheel α) := do
  let steps ← w.stride? now
  let _ ← plus? w.finest.base steps
  let v := w.modifyLevel 0 fun l => l.skip 0 steps
  if steps == w.finest.untilWrap then v.cascade? [1, 2, 3, 4] else some v

def fire? (w : Wheel α) (i : Nat) : Option (Option (Expired α) × Wheel α) := do
  let node ← w.arena.node? i
  let (payload, arena) ← w.arena.release? i
  let payload ← payload
  let len ← minus? w.len 1
  let id := pack node.due node.seq
  some (some ⟨id, node.due, payload⟩,
    { w with arena, len, fired := w.fired + 1, running := some id })

def popOverdue? (w : Wheel α) : Option (Option (Nat × Wheel α)) := do
  match ← w.arena.popFront? w.overdue with
  | none => some none
  | some (i, overdue, arena) => some (some (i, { w with overdue, arena }))

def popCurrent? (w : Wheel α) : Option (Option (Nat × Wheel α)) := do
  match ← w.arena.popFront? w.finest.current with
  | none => some none
  | some (i, c, arena) =>
    let _ ← minus? w.finest.count 1
    some (some (i, { w with arena }.modifyLevel 0 fun l => l.setSlot l.index c (l.count - 1)))

def pollRounds? (now : Nat) : Nat → Wheel α → Option (Option (Expired α) × Wheel α)
  | 0, w => if w.len = 0 ∨ now < w.currentTick then some (none, w) else none
  | n + 1, w =>
    if w.len = 0 ∨ now < w.currentTick then some (none, w)
    else do
      match ← w.popCurrent? with
      | some (i, w) => w.fire? i
      | none => pollRounds? now n (← w.advance? now)

def poll? (w : Wheel α) (now : UInt64) : Option (Option (Expired α) × Wheel α) := do
  match ← w.popOverdue? with
  | some (i, w) => w.fire? i
  | none => pollRounds? (tickOf now) (tickOf now + 1 - w.currentTick) w

def execute? (w : Wheel α) (now : UInt64) : Nat → Option (List (Expired α) × Wheel α)
  | 0 => some ([], w)
  | max + 1 => do
    match ← w.poll? now with
    | (none, w) => some ([], w)
    | (some e, w) =>
      let (es, w) ← w.finish.execute? now max
      some (e :: es, w)

/-- The slots up to the next timer of the finest level, or to the end of its ring. -/
def lookahead (w : Wheel α) : Nat :=
  if w.finest.count = 0 then w.finest.untilWrap
  else
    ((List.range w.finest.untilWrap).find? fun k =>
      !(w.finest.slots.get (Fin.ofNat 256 (w.finest.index.val + k))).isEmpty).getD w.finest.untilWrap

def nextWake? (w : Wheel α) (now : UInt64) : Option (Option Nat) :=
  if !w.overdue.isEmpty then some (some 0)
  else if w.len = 0 then some none
  else do
    let _ ← minus? 256 (w.finest.index.val + w.finest.untilWrap)
    let wake ← plus? w.finest.base w.lookahead
    some (some (wake - tickOf now))

def call? (w : Wheel α) : Call α → Option (Answer α × Wheel α)
  | .add now delay payload => (w.add? now delay payload).map (Prod.map .handle id)
  | .delete id => (w.delete? id).map (Prod.map .deleted fun w => w)
  | .poll now => (w.poll? now).map (Prod.map .polled id)
  | .finish => some (.finished, w.finish)
  | .execute now max => (w.execute? now max).map (Prod.map .executed id)

def serve? (w : Wheel α) : List (Call α) → Option (List (Answer α) × Wheel α)
  | [] => some ([], w)
  | c :: cs => do
    let (x, w) ← w.call? c
    let (xs, w) ← w.serve? cs
    some (x :: xs, w)

end Wheel

end ActorSystem.Timer
