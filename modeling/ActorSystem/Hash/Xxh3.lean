/-!
The 64-bit XXH3 hash of a byte string, with seed zero. Inputs of up to 16, 128 and 240 bytes have
their own mixing; longer ones are folded in stripes of 64 bytes into eight lanes.
-/

set_option autoImplicit false

namespace ActorSystem.Hash

def secretWords : List UInt64 := [
  0xbe4ba423396cfeb8, 0x1cad21f72c81017c, 0xdb979083e96dd4de, 0x1f67b3b7a4a44072,
  0x78e5c0cc4ee679cb, 0x2172ffcc7dd05a82, 0x8e2443f7744608b8, 0x4c263a81e69035e0,
  0xcb00c391bb52283c, 0xa32e531b8b65d088, 0x4ef90da297486471, 0xd8acdea946ef1938,
  0x3f349ce33f76faa8, 0x1d4f0bc7c7bbdcf9, 0x3159b4cd4be0518a, 0x647378d9c97e9fc8,
  0xc3ebd33483acc5ea, 0xeb6313faffa081c5, 0x49daf0b751dd0d17, 0x9e68d429265516d3,
  0xfca1477d58be162b, 0xce31d07ad1b8f88f, 0x280416958f3acb45, 0x7e404bbbcafbd7af]

def littleEndian (w : UInt64) : List UInt8 :=
  (List.range 8).map fun k => (w >>> (8 * UInt64.ofNat k)).toUInt8

def secret : Array UInt8 := (secretWords.flatMap littleEndian).toArray

def prime32 : UInt64 × UInt64 × UInt64 := (0x9e3779b1, 0x85ebca77, 0xc2b2ae3d)

def prime1 : UInt64 := 0x9e3779b185ebca87
def prime2 : UInt64 := 0xc2b2ae3d27d4eb4f
def prime3 : UInt64 := 0x165667b19e3779f9
def prime4 : UInt64 := 0x85ebca77c2b2ae63
def prime5 : UInt64 := 0x27d4eb2f165667c5

def byteAt (data : Array UInt8) (i : Nat) : UInt64 := (data[i]?.getD 0).toUInt64

def wordAt (data : Array UInt8) (i n : Nat) : UInt64 :=
  (List.range n).foldl (fun w k => w ||| byteAt data (i + k) <<< (8 * UInt64.ofNat k)) 0

def word32 (data : Array UInt8) (i : Nat) : UInt64 := wordAt data i 4

def word64 (data : Array UInt8) (i : Nat) : UInt64 := wordAt data i 8

def rotateLeft (w : UInt64) (n : UInt64) : UInt64 := w <<< n ||| w >>> (64 - n)

def swapBytes (w : UInt64) : UInt64 :=
  (littleEndian w).foldl (fun acc b => acc <<< 8 ||| b.toUInt64) 0

def mulFold (a b : UInt64) : UInt64 :=
  let p := a.toNat * b.toNat
  UInt64.ofNat p ^^^ UInt64.ofNat (p >>> 64)

def shiftMix (w : UInt64) (n : UInt64) : UInt64 := w ^^^ w >>> n

def avalanche (w : UInt64) : UInt64 := shiftMix (shiftMix w 37 * 0x165667919e3779f9) 32

def avalancheShort (w : UInt64) : UInt64 :=
  shiftMix (shiftMix (shiftMix w 33 * prime2) 29 * prime3) 32

def hashUpTo3 (data : Array UInt8) : UInt64 :=
  let n := data.size
  let combined := byteAt data 0 <<< 16 ||| byteAt data (n / 2) <<< 24 ||| byteAt data (n - 1) |||
    UInt64.ofNat n <<< 8
  avalancheShort (combined ^^^ (word32 secret 0 ^^^ word32 secret 4))

def hashUpTo8 (data : Array UInt8) : UInt64 :=
  let n := data.size
  let input := word32 data (n - 4) + word32 data 0 <<< 32
  let h := input ^^^ (word64 secret 8 ^^^ word64 secret 16)
  let h := (h ^^^ (rotateLeft h 49 ^^^ rotateLeft h 24)) * 0x9fb21c651e98df25
  let h := (h ^^^ (h >>> 35 + UInt64.ofNat n)) * 0x9fb21c651e98df25
  shiftMix h 28

def hashUpTo16 (data : Array UInt8) : UInt64 :=
  let n := data.size
  let lo := word64 data 0 ^^^ (word64 secret 24 ^^^ word64 secret 32)
  let hi := word64 data (n - 8) ^^^ (word64 secret 40 ^^^ word64 secret 48)
  avalanche (UInt64.ofNat n + swapBytes lo + hi + mulFold lo hi)

def mix16 (data : Array UInt8) (i s : Nat) : UInt64 :=
  mulFold (word64 data i ^^^ word64 secret s) (word64 data (i + 8) ^^^ word64 secret (s + 8))

def hashUpTo128 (data : Array UInt8) : UInt64 :=
  let n := data.size
  let acc := (List.range ((n - 1) / 32 + 1)).foldl
    (fun acc k => acc + mix16 data (16 * k) (32 * k) + mix16 data (n - 16 * (k + 1)) (32 * k + 16))
    (UInt64.ofNat n * prime1)
  avalanche acc

def hashUpTo240 (data : Array UInt8) : UInt64 :=
  let n := data.size
  let first := (List.range 8).foldl (fun acc k => acc + mix16 data (16 * k) (16 * k))
    (UInt64.ofNat n * prime1)
  let acc := (List.range (n / 16 - 8)).foldl
    (fun acc k => acc + mix16 data (16 * (k + 8)) (16 * k + 3)) (avalanche first)
  avalanche (acc + mix16 data (n - 16) 119)

/-- Eight lanes; each stripe adds every word to the neighbour of its lane. -/
def accumulate (data : Array UInt8) (i s : Nat) (acc : Array UInt64) : Array UInt64 :=
  (List.range 8).foldl
    (fun (acc : Array UInt64) k =>
      let value : UInt64 := word64 data (i + 8 * k)
      let key : UInt64 := value ^^^ word64 secret (s + 8 * k)
      let acc := acc.modify (k ^^^ 1) (· + value)
      let product : UInt64 := key.toUInt32.toUInt64 * (key >>> 32)
      acc.modify k (· + product))
    acc

def scramble (acc : Array UInt64) : Array UInt64 :=
  acc.mapIdx fun k lane => (shiftMix lane 47 ^^^ word64 secret (128 + 8 * k)) * prime32.1

def stripes (data : Array UInt8) (start count : Nat) (acc : Array UInt64) : Array UInt64 :=
  (List.range count).foldl (fun acc k => accumulate data (start + 64 * k) (8 * k) acc) acc

def mergeLanes (acc : Array UInt64) (s : Nat) (start : UInt64) : UInt64 :=
  let lane (k : Nat) := acc[k]?.getD 0
  avalanche ((List.range 4).foldl
    (fun r k => r + mulFold (lane (2 * k) ^^^ word64 secret (s + 16 * k))
      (lane (2 * k + 1) ^^^ word64 secret (s + 16 * k + 8)))
    start)

/-- Blocks of 16 stripes, each followed by a scramble; the last stripe ends with the input. -/
def hashLong (data : Array UInt8) : UInt64 :=
  let n := data.size
  let blocks := (n - 1) / 1024
  let lanes : Array UInt64 :=
    #[prime32.2.2, prime1, prime2, prime3, prime4, prime32.2.1, prime5, prime32.1]
  let acc := (List.range blocks).foldl
    (fun acc b => scramble (stripes data (1024 * b) 16 acc)) lanes
  let acc := stripes data (1024 * blocks) ((n - 1 - 1024 * blocks) / 64) acc
  let acc := accumulate data (n - 64) 121 acc
  mergeLanes acc 11 (UInt64.ofNat n * prime1)

def xxh3 (data : Array UInt8) : UInt64 :=
  let n := data.size
  if n = 0 then avalancheShort (word64 secret 56 ^^^ word64 secret 64)
  else if n ≤ 3 then hashUpTo3 data
  else if n ≤ 8 then hashUpTo8 data
  else if n ≤ 16 then hashUpTo16 data
  else if n ≤ 128 then hashUpTo128 data
  else if n ≤ 240 then hashUpTo240 data
  else hashLong data

end ActorSystem.Hash
