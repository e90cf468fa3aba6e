set_option autoImplicit false

namespace ActorSystem

structure DoubleBuffer (α : Type) where
  read : List α
  write : Array α

/-- What one look at the queue hands out, and how many of the same side stay behind. -/
structure Taken (α : Type) where
  items : List α
  left : Nat

def Taken.nothing {α : Type} : Taken α := ⟨[], 0⟩

namespace DoubleBuffer

variable {α : Type}

def empty : DoubleBuffer α := ⟨[], #[]⟩

def toList (q : DoubleBuffer α) : List α := q.read ++ q.write.toList

def size (q : DoubleBuffer α) : Nat := q.read.length + q.write.size

def isReadEmpty (q : DoubleBuffer α) : Bool := q.read.isEmpty

def push (q : DoubleBuffer α) (x : α) : DoubleBuffer α := { q with write := q.write.push x }

def refill (q : DoubleBuffer α) : DoubleBuffer α :=
  if q.read.isEmpty then ⟨q.write.toList, #[]⟩ else q

/-- Takes at most `max` items of the read side, which is not topped up from the write side. -/
def take (q : DoubleBuffer α) (max : Nat) : Taken α × DoubleBuffer α :=
  if max = 0 then (.nothing, q)
  else
    let q := q.refill
    (⟨q.read.take max, q.read.length - max⟩, { q with read := q.read.drop max })

def takeOne (q : DoubleBuffer α) : Option α × DoubleBuffer α :=
  let q := q.refill
  (q.read.head?, { q with read := q.read.tail })

@[simp] theorem toList_empty : (empty : DoubleBuffer α).toList = [] := rfl

@[simp] theorem toList_push (q : DoubleBuffer α) (x : α) : (q.push x).toList = q.toList ++ [x] := by
  simp [toList, push]

@[simp] theorem toList_refill (q : DoubleBuffer α) : q.refill.toList = q.toList := by
  unfold refill
  split <;> simp_all [toList]

theorem take_append_toList (q : DoubleBuffer α) (max : Nat) :
    (q.take max).1.items ++ (q.take max).2.toList = q.toList := by
  unfold take
  split
  · rfl
  · rw [← toList_refill q]
    simp [toList, ← List.append_assoc]

theorem takeOne_append_toList (q : DoubleBuffer α) :
    q.takeOne.1.toList ++ q.takeOne.2.toList = q.toList := by
  rw [← toList_refill q]
  unfold takeOne
  cases h : q.refill.read <;> simp [toList, h]

theorem length_toList (q : DoubleBuffer α) : q.toList.length = q.size := by
  simp [toList, size]

end DoubleBuffer

end ActorSystem
