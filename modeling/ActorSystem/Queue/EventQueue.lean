import ActorSystem.Queue.DoubleBuffer

/-!
A queue that its one consumer may sleep on. The consumer announces that it is about to wait; the
first push after that claims the announcement and leaves one signal in the wake channel. A consumer
that returns from its wait claims what is still unclaimed, so that the two counters meet again.
-/

set_option autoImplicit false

namespace ActorSystem

/-- The signals not yet received. A signal that finds the channel full is lost: one that the
consumer will see is there already. -/
structure WakeChannel where
  capacity : Nat
  signals : Nat
  producers : Bool

inductive Wake where
  | signal
  | gone
  | pending
  deriving DecidableEq, Repr

namespace WakeChannel

def new (capacity : Nat) : WakeChannel := ⟨max capacity 1, 0, true⟩

def send (c : WakeChannel) : WakeChannel :=
  if c.signals < c.capacity then { c with signals := c.signals + 1 } else c

def drain (c : WakeChannel) : Nat × WakeChannel := (c.signals, { c with signals := 0 })

def recv (c : WakeChannel) : Wake × WakeChannel :=
  if 0 < c.signals then (.signal, { c with signals := c.signals - 1 })
  else (if c.producers then .pending else .gone, c)

def close (c : WakeChannel) : WakeChannel := { c with producers := false }

end WakeChannel

structure EventQueue (α : Type) where
  buffer : DoubleBuffer α
  pending : Int
  announced : UInt32
  notified : UInt32
  channel : WakeChannel

namespace EventQueue

variable {α : Type}

def new (wakeCapacity : Nat) : EventQueue α := ⟨.empty, 0, 0, 0, .new wakeCapacity⟩

def toList (q : EventQueue α) : List α := q.buffer.toList

def hasWaiter (q : EventQueue α) : Bool := q.announced != q.notified

def claim (q : EventQueue α) : EventQueue α :=
  if q.hasWaiter then { q with notified := q.notified + 1 } else q

def put (q : EventQueue α) (x : α) : EventQueue α := { q with buffer := q.buffer.push x }

def count (q : EventQueue α) : EventQueue α := { q with pending := q.pending + 1 }

def notify (q : EventQueue α) : EventQueue α :=
  if q.hasWaiter then { q.claim with channel := q.channel.send } else q

def push (q : EventQueue α) (x : α) : EventQueue α := (q.put x).count.notify

def lift (q : EventQueue α) (max : Nat) : Taken α × EventQueue α :=
  let (taken, buffer) := q.buffer.take max
  (taken, { q with buffer })

def uncount (q : EventQueue α) (n : Nat) : EventQueue α := { q with pending := q.pending - n }

/-- While more items have been taken than were counted, nothing is handed out. -/
def take (q : EventQueue α) (max : Nat) : Taken α × EventQueue α :=
  if q.pending < 0 then (.nothing, q)
  else
    let (taken, q) := q.lift max
    (taken, q.uncount taken.items.length)

def unlimited : Nat := UInt64.size - 1

def sweep : Nat → EventQueue α → List α × EventQueue α
  | 0, q => ([], q)
  | n + 1, q =>
    match q.take unlimited with
    | (⟨[], _⟩, q) => ([], q)
    | (⟨x :: xs, _⟩, q) =>
      let (rest, q) := q.sweep n
      (x :: xs ++ rest, q)

def discard (q : EventQueue α) : List α × EventQueue α := q.sweep (q.toList.length + 1)

/-- Whether the consumer may block now. If work is there it claims its own announcement. -/
def announce (q : EventQueue α) : Bool × EventQueue α :=
  let q := { q with announced := q.announced + 1 }
  if 0 < q.pending then (false, q.claim) else (true, q)

def rearm (q : EventQueue α) : EventQueue α := q.claim

def drain (q : EventQueue α) : Nat × EventQueue α :=
  let (n, channel) := q.channel.drain
  (n, { q with channel })

def recv (q : EventQueue α) : Wake × EventQueue α :=
  let (w, channel) := q.channel.recv
  (w, { q with channel })

@[simp] theorem toList_claim (q : EventQueue α) : q.claim.toList = q.toList := by
  unfold claim
  split <;> rfl

@[simp] theorem toList_notify (q : EventQueue α) : q.notify.toList = q.toList := by
  unfold notify
  split
  · exact q.toList_claim
  · rfl

@[simp] theorem toList_put (q : EventQueue α) (x : α) : (q.put x).toList = q.toList ++ [x] :=
  q.buffer.toList_push x

@[simp] theorem toList_count (q : EventQueue α) : q.count.toList = q.toList := rfl

@[simp] theorem toList_push (q : EventQueue α) (x : α) : (q.push x).toList = q.toList ++ [x] := by
  simp [push]

@[simp] theorem pending_claim (q : EventQueue α) : q.claim.pending = q.pending := by
  unfold claim
  split <;> rfl

@[simp] theorem pending_notify (q : EventQueue α) : q.notify.pending = q.pending := by
  unfold notify
  split
  · exact q.pending_claim
  · rfl

@[simp] theorem pending_put (q : EventQueue α) (x : α) : (q.put x).pending = q.pending := rfl

@[simp] theorem pending_count (q : EventQueue α) : q.count.pending = q.pending + 1 := rfl

@[simp] theorem pending_push (q : EventQueue α) (x : α) : (q.push x).pending = q.pending + 1 := by
  simp [push]

end EventQueue

end ActorSystem
