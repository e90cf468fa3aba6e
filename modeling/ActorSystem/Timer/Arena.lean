/-!
The nodes of all pending timers, in one arena: released nodes are used again, the latest first.
A `Chain` links nodes by index; it is seen as the list of indices from head to tail.
-/

set_option autoImplicit false

namespace ActorSystem.Timer

structure Node (α : Type) where
  seq : Nat
  due : Nat
  payload : Option α
  next : Option Nat

structure Chain where
  head : Option Nat
  tail : Option Nat
  len : Nat
  deriving DecidableEq, Repr

namespace Chain

def empty : Chain := ⟨none, none, 0⟩

instance : Inhabited Chain := ⟨empty⟩

def isEmpty (c : Chain) : Bool := c.head.isNone

def take (c : Chain) : Chain × Chain := (c, empty)

end Chain

structure Arena (α : Type) where
  nodes : Array (Node α)
  free : List Nat

namespace Arena

variable {α : Type}

def empty : Arena α := ⟨#[], []⟩

def capacity (a : Arena α) : Nat := a.nodes.size

def pooled (a : Arena α) : Nat := a.free.length

def node? (a : Arena α) (i : Nat) : Option (Node α) := a.nodes[i]?

def next? (a : Arena α) (i : Nat) : Option Nat := (a.node? i).bind Node.next

def due (a : Arena α) (i : Nat) : Nat := ((a.node? i).map Node.due).getD 0

def setNext (a : Arena α) (i : Nat) (next : Option Nat) : Arena α :=
  { a with nodes := a.nodes.modify i fun n => { n with next } }

def acquire (a : Arena α) (seq due : Nat) (payload : α) : Nat × Arena α :=
  let node : Node α := ⟨seq, due, some payload, none⟩
  match a.free with
  | i :: free => (i, ⟨a.nodes.setIfInBounds i node, free⟩)
  | [] => (a.nodes.size, { a with nodes := a.nodes.push node })

def release (a : Arena α) (i : Nat) : Option α × Arena α :=
  ((a.node? i).bind Node.payload,
    ⟨a.nodes.modify i fun n => { n with seq := 0, payload := none, next := none }, i :: a.free⟩)

def pushBack (a : Arena α) (c : Chain) (i : Nat) : Chain × Arena α :=
  let a := a.setNext i none
  match c.tail with
  | some t => ({ c with tail := some i, len := c.len + 1 }, a.setNext t (some i))
  | none => (⟨some i, some i, c.len + 1⟩, a)

def popFront (a : Arena α) (c : Chain) : Option (Nat × Chain × Arena α) :=
  c.head.map fun h =>
    let next := a.next? h
    (h, ⟨next, if next.isNone then none else c.tail, c.len - 1⟩, a.setNext h none)

/-- The first node of the chain with this due tick and sequence number, after its predecessor. -/
def search (a : Arena α) (tickRange due seq : Nat) :
    Nat → Option Nat → Option Nat → Option (Option Nat × Nat)
  | 0, _, _ => none
  | _ + 1, _, none => none
  | n + 1, prev, some i =>
    match a.node? i with
    | none => none
    | some node =>
      if node.seq = seq ∧ node.due % tickRange = due then some (prev, i)
      else search a tickRange due seq n (some i) node.next

def unlink (a : Arena α) (c : Chain) (tickRange due seq : Nat) : Option (Nat × Chain × Arena α) :=
  (a.search tickRange due seq c.len none c.head).map fun (prev, i) =>
    let next := a.next? i
    let tail := if c.tail = some i then prev else c.tail
    match prev with
    | some p => (i, { c with tail, len := c.len - 1 }, (a.setNext p next).setNext i none)
    | none => (i, ⟨next, tail, c.len - 1⟩, a.setNext i none)

def follow (a : Arena α) : Nat → Option Nat → List Nat
  | _, none => []
  | 0, some _ => []
  | n + 1, some i => i :: follow a n (a.next? i)

def members (a : Arena α) (c : Chain) : List Nat := a.follow c.len c.head

end Arena

end ActorSystem.Timer
