import ActorSystem.Hash.Xxh3

set_option autoImplicit false

namespace ActorSystem

inductive RouteHash where
  | xxh3
  | sampled
  deriving DecidableEq, Repr

namespace RouteHash

def default : RouteHash := xxh3

def shown : RouteHash → String
  | xxh3 => "Xxh3"
  | sampled => "Sampled"

/-- Weighs the first, the middle and the last byte and adds the length. -/
def sample (data : Array UInt8) : UInt64 :=
  if data.size = 0 then 0
  else
    Hash.byteAt data 0 * 961 + Hash.byteAt data (data.size / 2) * 31 +
      Hash.byteAt data (data.size - 1) + UInt64.ofNat data.size

def hash (h : RouteHash) (name : String) : UInt64 :=
  match h with
  | xxh3 => Hash.xxh3 name.toUTF8.data
  | sampled => sample name.toUTF8.data

def index (h : RouteHash) (name : String) (size : Nat) : Nat := (h.hash name).toNat % size

theorem index_lt (h : RouteHash) (name : String) {size : Nat} (hs : 0 < size) :
    h.index name size < size := Nat.mod_lt _ hs

end RouteHash

end ActorSystem
