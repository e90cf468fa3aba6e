import ActorSystem.Binary64

/-!
Dynamic values: what calls, timers and messages carry. Reading one at a type succeeds only where
nothing is lost. Equality keeps the constructors apart and inherits from the floats that a NaN
equals nothing.
-/

set_option autoImplicit false

namespace ActorSystem

inductive Content where
  | u32 (n : UInt32)
  | i64 (n : Int64)
  deriving DecidableEq, Repr

structure Shared where
  identity : String
  content : Content
  deriving DecidableEq, Repr

inductive Value where
  | nil
  | bool (b : Bool)
  | int (n : Int64)
  | uint (n : UInt64)
  | float (x : Binary64)
  | str (s : String)
  | bytes (data : List UInt8)
  | list (items : List Value)
  | shared (object : Shared)
  deriving Repr, Inhabited

namespace Value

def typeName : Value → String
  | nil => "nil"
  | bool _ => "bool"
  | int _ => "int"
  | uint _ => "uint"
  | float _ => "float"
  | str _ => "string"
  | bytes _ => "bytes"
  | list _ => "list"
  | shared _ => "any"

def isNil : Value → Bool
  | nil => true
  | _ => false

def asBool : Value → Option Bool
  | bool b => some b
  | _ => none

/-- The number an integer value stands for, whichever constructor carries it. -/
def integer : Value → Option Int
  | int n => some n.toInt
  | uint n => some n.toNat
  | _ => none

def asInt64 : Value → Option Int64
  | int n => some n
  | uint n => if n.toNat < 1 <<< 63 then some n.toInt64 else none
  | _ => none

def asInt32 (v : Value) : Option Int32 :=
  v.asInt64.bind fun n =>
    if -0x80000000 ≤ n.toInt ∧ n.toInt < 0x80000000 then some n.toInt32 else none

def asUInt64 : Value → Option UInt64
  | uint n => some n
  | int n => if 0 ≤ n.toInt then some n.toUInt64 else none
  | _ => none

def asFloat : Value → Option Binary64
  | float x => some x
  | int n => some (.ofInt n.toInt)
  | uint n => some (.ofNat n.toNat)
  | _ => none

def asStr : Value → Option String
  | str s => some s
  | _ => none

def asBytes : Value → Option (List UInt8)
  | bytes data => some data
  | _ => none

def asList : Value → Option (List Value)
  | list items => some items
  | _ => none

def asShared : Value → Option Shared
  | shared object => some object
  | _ => none

def asSharedUInt32 (v : Value) : Option UInt32 :=
  v.asShared.bind fun
    | ⟨_, .u32 n⟩ => some n
    | _ => none

def asSharedInt64 (v : Value) : Option Int64 :=
  v.asShared.bind fun
    | ⟨_, .i64 n⟩ => some n
    | _ => none

mutual

def eq : Value → Value → Bool
  | nil, nil => true
  | bool a, bool b => a == b
  | int a, int b => a == b
  | uint a, uint b => a == b
  | float a, float b => a.eq b
  | str a, str b => a == b
  | bytes a, bytes b => a == b
  | list a, list b => eqList a b
  | shared a, shared b => a.identity == b.identity
  | _, _ => false

def eqList : List Value → List Value → Bool
  | [], [] => true
  | a :: as, b :: bs => eq a b && eqList as bs
  | _, _ => false

end

end Value

class ToValue (α : Type) where
  toValue : α → Value

export ToValue (toValue)

instance : ToValue Int8 := ⟨fun n => .int n.toInt64⟩
instance : ToValue Int16 := ⟨fun n => .int n.toInt64⟩
instance : ToValue Int32 := ⟨fun n => .int n.toInt64⟩
instance : ToValue Int64 := ⟨.int⟩
instance : ToValue UInt8 := ⟨fun n => .uint n.toUInt64⟩
instance : ToValue UInt16 := ⟨fun n => .uint n.toUInt64⟩
instance : ToValue UInt32 := ⟨fun n => .uint n.toUInt64⟩
instance : ToValue UInt64 := ⟨.uint⟩
instance : ToValue USize := ⟨fun n => .uint n.toUInt64⟩
instance : ToValue Binary32 := ⟨fun x => .float x.widen⟩
instance : ToValue Binary64 := ⟨.float⟩
instance : ToValue Bool := ⟨.bool⟩
instance : ToValue String := ⟨.str⟩
instance : ToValue (List UInt8) := ⟨.bytes⟩
instance : ToValue (List Value) := ⟨.list⟩

instance {α : Type} [ToValue α] : ToValue (Option α) := ⟨fun v => v.elim .nil toValue⟩

end ActorSystem
