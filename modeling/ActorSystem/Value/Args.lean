import ActorSystem.Value

set_option autoImplicit false

namespace ActorSystem

inductive ArgError where
  | missing (index len : Nat)
  | mismatch (index : Nat) (expected found : String)
  deriving DecidableEq, Repr

def ArgError.message : ArgError → String
  | missing index len =>
    "argument " ++ toString index ++ " is missing (only " ++ toString len ++ " given)"
  | mismatch index expected found =>
    "argument " ++ toString index ++ ": expected " ++ expected ++ ", found " ++ found

structure Args where
  values : List Value
  deriving Repr, Inhabited

namespace Args

def empty : Args := ⟨[]⟩

def size (a : Args) : Nat := a.values.length

def isEmpty (a : Args) : Bool := a.values.isEmpty

def push (a : Args) (v : Value) : Args := ⟨a.values ++ [v]⟩

def reverse (a : Args) : Args := ⟨a.values.reverse⟩

def eq (a b : Args) : Bool := Value.eqList a.values b.values

def get (a : Args) (index : Nat) : Except ArgError Value :=
  match a.values[index]? with
  | some v => .ok v
  | none => .error (.missing index a.size)

/-- Reads at a type: `expected` names it and `as` takes the values it has. -/
def read {α : Type} (a : Args) (index : Nat) (expected : String) (as : Value → Option α) :
    Except ArgError α :=
  match a.get index with
  | .error e => .error e
  | .ok v =>
    match as v with
    | some x => .ok x
    | none => .error (.mismatch index expected v.typeName)

def readBool (a : Args) (index : Nat) : Except ArgError Bool := a.read index "bool" Value.asBool

def readInt64 (a : Args) (index : Nat) : Except ArgError Int64 := a.read index "int" Value.asInt64

def readInt32 (a : Args) (index : Nat) : Except ArgError Int32 :=
  a.read index "int32" Value.asInt32

def readUInt64 (a : Args) (index : Nat) : Except ArgError UInt64 :=
  a.read index "uint" Value.asUInt64

def readFloat (a : Args) (index : Nat) : Except ArgError Binary64 :=
  a.read index "float" Value.asFloat

def readStr (a : Args) (index : Nat) : Except ArgError String := a.read index "string" Value.asStr

def readBytes (a : Args) (index : Nat) : Except ArgError (List UInt8) :=
  a.read index "bytes" Value.asBytes

def readSharedUInt32 (a : Args) (index : Nat) : Except ArgError UInt32 :=
  a.read index "u32" Value.asSharedUInt32

def readSharedInt64 (a : Args) (index : Nat) : Except ArgError Int64 :=
  a.read index "i64" Value.asSharedInt64

end Args

inductive ReadKind where
  | any | bool | int64 | int32 | uint64 | float | str | bytes | sharedUInt32 | sharedInt64
  deriving DecidableEq, Repr

inductive Reading where
  | value (v : Value)
  | flag (b : Bool)
  | integer (n : Int)
  | float (x : Binary64)
  | text (s : String)
  | bytes (data : List UInt8)
  deriving Repr

def Args.readAs (a : Args) (index : Nat) : ReadKind → Except ArgError Reading
  | .any => (a.get index).map .value
  | .bool => (a.readBool index).map .flag
  | .int64 => (a.readInt64 index).map fun n => .integer n.toInt
  | .int32 => (a.readInt32 index).map fun n => .integer n.toInt
  | .uint64 => (a.readUInt64 index).map fun n => .integer n.toNat
  | .float => (a.readFloat index).map .float
  | .str => (a.readStr index).map .text
  | .bytes => (a.readBytes index).map .bytes
  | .sharedUInt32 => (a.readSharedUInt32 index).map fun n => .integer n.toNat
  | .sharedInt64 => (a.readSharedInt64 index).map fun n => .integer n.toInt

end ActorSystem
