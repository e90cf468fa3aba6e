import ActorSystem.Value.Args

/-!
Typed reads of arguments. An integer is read as the number that it is, whichever constructor carries
it and from whichever type it came, or else it is refused: no read cuts it, wraps it or turns its
sign. A read that is refused says what is at the index.
-/

set_option autoImplicit false

namespace ActorSystem

inductive Width where
  | int32 | int64 | uint64
  deriving DecidableEq, Repr

namespace Width

def least : Width → Int
  | int32 => -0x80000000
  | int64 => -0x8000000000000000
  | uint64 => 0

def bound : Width → Int
  | int32 => 0x80000000
  | int64 => 0x8000000000000000
  | uint64 => 0x10000000000000000

def Fits (w : Width) (n : Int) : Prop := w.least ≤ n ∧ n < w.bound

instance (w : Width) (n : Int) : Decidable (w.Fits n) := inferInstanceAs (Decidable (_ ∧ _))

def name : Width → String
  | int32 => "int32"
  | int64 => "int"
  | uint64 => "uint"

def kind : Width → ReadKind
  | int32 => .int32
  | int64 => .int64
  | uint64 => .uint64

def checked (w : Width) (n : Int) : Option Int := if w.Fits n then some n else none

theorem checked_eq_some_iff {w : Width} {n m : Int} : w.checked n = some m ↔ n = m ∧ w.Fits m := by
  unfold checked
  split <;> grind

/-- A check of a word and a conversion of it make a check of the number. -/
theorem map_ite_eq_checked {β : Type} {w : Width} {n : Int} {p : Prop} [Decidable p] {x : β}
    {f : β → Int} (hp : p ↔ w.Fits n) (hx : p → f x = n) :
    (if p then some x else none).map f = w.checked n := by
  by_cases h : p
  · rw [if_pos h, Option.map_some, hx h, checked, if_pos (hp.1 h)]
  · rw [if_neg h, Option.map_none, checked, if_neg (mt hp.2 h)]

end Width

namespace Value

def asInteger (v : Value) : Width → Option Int
  | .int32 => v.asInt32.map Int32.toInt
  | .int64 => v.asInt64.map Int64.toInt
  | .uint64 => v.asUInt64.map fun n => n.toNat

theorem toInt_toInt64 {n : UInt64} (h : n.toNat < 1 <<< 63) : n.toInt64.toInt = n.toNat := by
  have hbits : n.toInt64.toInt = n.toBitVec.toInt := rfl
  have hnat : n.toBitVec.toNat = n.toNat := rfl
  simp only [Nat.reduceShiftLeft] at h
  rw [hbits, BitVec.toInt_eq_toNat_of_lt (by omega), hnat]

theorem toNat_toUInt64 {n : Int64} (h : 0 ≤ n.toInt) : (n.toUInt64.toNat : Int) = n.toInt := by
  have hbits : n.toInt = n.toBitVec.toInt := rfl
  have hnat : n.toUInt64.toNat = n.toBitVec.toNat := rfl
  have hlt := n.toBitVec.isLt
  rw [hbits, BitVec.toInt_eq_toNat_cond] at h ⊢
  rw [hnat]
  split <;> omega

theorem asInteger_int64 (v : Value) : v.asInteger .int64 = v.integer.bind Width.int64.checked := by
  cases v with
  | int n =>
    have hfits : Width.int64.Fits n.toInt := ⟨n.le_toInt, n.toInt_lt⟩
    rw [integer, Option.bind_some, Width.checked, if_pos hfits]
    rfl
  | uint n =>
    rw [asInteger, asInt64, integer, Option.bind_some]
    refine Width.map_ite_eq_checked ?_ toInt_toInt64
    simp only [Width.Fits, Width.least, Width.bound, Nat.reduceShiftLeft]
    omega
  | _ => rfl

theorem asInteger_uint64 (v : Value) :
    v.asInteger .uint64 = v.integer.bind Width.uint64.checked := by
  cases v with
  | int n =>
    rw [asInteger, asUInt64, integer, Option.bind_some]
    refine Width.map_ite_eq_checked ?_ toNat_toUInt64
    have hlt := n.toInt_lt
    simp only [Width.Fits, Width.least, Width.bound]
    omega
  | uint n =>
    have hlt := n.toNat_lt
    have hfits : Width.uint64.Fits n.toNat := by
      simp only [Width.Fits, Width.least, Width.bound]
      omega
    rw [integer, Option.bind_some, Width.checked, if_pos hfits]
    rfl
  | _ => rfl

/-- The narrow width is read through the wide one, which has all its numbers. -/
theorem asInteger_int32 (v : Value) : v.asInteger .int32 = v.integer.bind Width.int32.checked := by
  have hnarrow : ∀ n : Int64, (if -0x80000000 ≤ n.toInt ∧ n.toInt < 0x80000000 then
      some n.toInt32 else none).map Int32.toInt = Width.int32.checked n.toInt := fun n =>
    Width.map_ite_eq_checked Iff.rfl fun h => by
      rw [Int64.toInt_toInt32]
      exact Int.bmod_eq_of_le h.1 h.2
  have hwide : ∀ n, (Width.int64.checked n).bind Width.int32.checked = Width.int32.checked n := by
    intro n
    by_cases h : Width.int64.Fits n
    · rw [Width.checked, if_pos h, Option.bind_some]
    · have hnot : ¬Width.int32.Fits n := by
        simp only [Width.Fits, Width.least, Width.bound] at h ⊢
        omega
      simp [Width.checked, h, hnot]
  calc v.asInteger .int32
    _ = v.asInt64.bind fun n => Width.int32.checked n.toInt := by
      rw [asInteger, asInt32, Option.map_bind]
      exact congrArg _ (funext hnarrow)
    _ = (v.asInteger .int64).bind Width.int32.checked := by
      rw [asInteger, Option.bind_map]
      rfl
    _ = v.integer.bind Width.int32.checked := by
      rw [asInteger_int64, Option.bind_assoc]
      exact congrArg _ (funext hwide)

/-- A value is an integer of a width if it is an integer and fits. -/
theorem asInteger_eq_some_iff {v : Value} {w : Width} {n : Int} :
    v.asInteger w = some n ↔ v.integer = some n ∧ w.Fits n := by
  have hbind : v.asInteger w = v.integer.bind w.checked := by
    cases w with
    | int32 => exact v.asInteger_int32
    | int64 => exact v.asInteger_int64
    | uint64 => exact v.asInteger_uint64
  rw [hbind, Option.bind_eq_some_iff]
  constructor
  · rintro ⟨m, hm, hn⟩
    obtain ⟨rfl, hfits⟩ := Width.checked_eq_some_iff.1 hn
    exact ⟨hm, hfits⟩
  · rintro ⟨hn, hfits⟩
    exact ⟨n, hn, Width.checked_eq_some_iff.2 ⟨rfl, hfits⟩⟩

theorem asBool_eq_some_iff {v : Value} {b : Bool} : v.asBool = some b ↔ v = .bool b := by
  cases v <;> simp [asBool]

theorem asStr_eq_some_iff {v : Value} {s : String} : v.asStr = some s ↔ v = .str s := by
  cases v <;> simp [asStr]

theorem asBytes_eq_some_iff {v : Value} {data : List UInt8} :
    v.asBytes = some data ↔ v = .bytes data := by
  cases v <;> simp [asBytes]

inductive Says : Value → Reading → Prop where
  | flag (b : Bool) : Says (.bool b) (.flag b)
  | integer {v : Value} {n : Int} (h : v.integer = some n) : Says v (.integer n)
  | text (s : String) : Says (.str s) (.text s)
  | bytes (data : List UInt8) : Says (.bytes data) (.bytes data)

theorem Says.unique {v : Value} {x y : Reading} (hx : v.Says x) (hy : v.Says y) : x = y := by
  cases hx <;> cases hy <;> simp_all [Value.integer]

end Value

/-- The rule of a typed read: it yields what the value at the index is taken for. Where there is no
value, the error gives the index and the length; where the value is taken for nothing, it gives the
index and the names of the type and of the value's own. -/
structure ReadRule {β : Type} (a : Args) (read : Nat → Except ArgError β) (expected : String)
    (Takes : Value → β → Prop) : Prop where
  ok : ∀ i x, read i = .ok x ↔ ∃ v, a.values[i]? = some v ∧ Takes v x
  missing : ∀ i, a.size ≤ i → read i = .error (.missing i a.size)
  mismatch : ∀ i v, a.values[i]? = some v → (∀ x, ¬Takes v x) →
    read i = .error (.mismatch i expected v.typeName)

namespace Args

def readInteger (a : Args) (index : Nat) : Width → Except ArgError Int
  | .int32 => (a.readInt32 index).map Int32.toInt
  | .int64 => (a.readInt64 index).map Int64.toInt
  | .uint64 => (a.readUInt64 index).map fun n => n.toNat

/-- Pushed and read back at any width, an integer of the type is itself, or it does not fit and is
refused. -/
def Returns (a : Args) {α : Type} [ToValue α] (number : α → Int) : Prop :=
  ∀ (x : α) (w : Width), (a.push (toValue x)).readInteger a.size w =
    if w.Fits (number x) then .ok (number x)
    else .error (.mismatch a.size w.name (toValue x).typeName)

def exactKinds : List ReadKind := [.bool, .int32, .int64, .uint64, .str, .bytes]

structure ReadsExactly (a : Args) : Prop where
  integers : ∀ w, ReadRule a (a.readInteger · w) w.name fun v n => v.integer = some n ∧ w.Fits n
  bools : ReadRule a a.readBool "bool" fun v b => v = .bool b
  strs : ReadRule a a.readStr "string" fun v s => v = .str s
  bytes : ReadRule a a.readBytes "bytes" fun v data => v = .bytes data
  get : ∀ i, (∀ v, a.get i = .ok v ↔ a.values[i]? = some v) ∧
    ∀ e, a.get i = .error e ↔ a.size ≤ i ∧ e = .missing i a.size
  int8 : a.Returns Int8.toInt
  int16 : a.Returns Int16.toInt
  int32 : a.Returns Int32.toInt
  int64 : a.Returns Int64.toInt
  uint8 : a.Returns fun n : UInt8 => n.toNat
  uint16 : a.Returns fun n : UInt16 => n.toNat
  uint32 : a.Returns fun n : UInt32 => n.toNat
  uint64 : a.Returns fun n : UInt64 => n.toNat
  usize : a.Returns fun n : USize => n.toNat
  earlier : ∀ v i, i < a.size → (a.push v).get i = a.get i ∧
    ∀ {β : Type} (expected : String) (as : Value → Option β),
      (a.push v).read i expected as = a.read i expected as
  agree : ∀ i, ∀ k ∈ exactKinds, ∀ l ∈ exactKinds, ∀ x y,
    a.readAs i k = .ok x → a.readAs i l = .ok y → x = y

theorem get_of_some {a : Args} {i : Nat} {v : Value} (h : a.values[i]? = some v) :
    a.get i = .ok v := by
  rw [get, h]

theorem get_of_le {a : Args} {i : Nat} (h : a.size ≤ i) : a.get i = .error (.missing i a.size) := by
  rw [get, List.getElem?_eq_none h]

theorem some_or_missing (a : Args) (i : Nat) :
    (∃ v, a.values[i]? = some v ∧ ¬a.size ≤ i) ∨ a.values[i]? = none ∧ a.size ≤ i := by
  rcases Nat.lt_or_ge i a.values.length with hlt | hge
  · exact .inl ⟨_, List.getElem?_eq_getElem hlt, Nat.not_le.2 hlt⟩
  · exact .inr ⟨List.getElem?_eq_none hge, hge⟩

theorem map_read {α β : Type} (a : Args) (i : Nat) (expected : String) (as : Value → Option α)
    (f : α → β) :
    (a.read i expected as).map f = a.read i expected fun v => (as v).map f := by
  unfold read
  cases a.get i with
  | error e => rfl
  | ok v =>
    simp only
    cases as v <;> rfl

theorem readRule_read {β : Type} (a : Args) (expected : String) {as : Value → Option β}
    {Takes : Value → β → Prop} (h : ∀ v x, as v = some x ↔ Takes v x) :
    ReadRule a (a.read · expected as) expected Takes := by
  refine ⟨fun i x => ?_, fun i hi => ?_, fun i v hv hno => ?_⟩
  · rcases a.some_or_missing i with ⟨v, hv, -⟩ | ⟨hnone, hle⟩
    · simp only [read, get_of_some hv, hv, Option.some.injEq, exists_eq_left', ← h]
      cases as v <;> simp
    · simp [read, get_of_le hle, hnone]
  · simp only [read, get_of_le hi]
  · have hnone : as v = none := Option.eq_none_iff_forall_ne_some.2 fun x hx => hno x ((h v x).1 hx)
    simp only [read, get_of_some hv, hnone]

theorem readInteger_eq (a : Args) (i : Nat) (w : Width) :
    a.readInteger i w = a.read i w.name fun v => v.asInteger w := by
  cases w <;> exact a.map_read i _ _ _

theorem readRule_integer (a : Args) (w : Width) :
    ReadRule a (a.readInteger · w) w.name fun v n => v.integer = some n ∧ w.Fits n := by
  simp only [readInteger_eq]
  exact a.readRule_read w.name fun v n => Value.asInteger_eq_some_iff

theorem returns {α : Type} [ToValue α] {number : α → Int}
    (h : ∀ x : α, (toValue x).integer = some (number x)) (a : Args) : a.Returns number := by
  intro x w
  have hrule := (a.push (toValue x)).readRule_integer w
  have hlast : (a.push (toValue x)).values[a.size]? = some (toValue x) := by
    simp [push, size]
  split
  · rename_i hfits
    exact (hrule.ok _ _).2 ⟨_, hlast, h x, hfits⟩
  · rename_i hfits
    refine hrule.mismatch _ _ hlast fun n hn => hfits ?_
    obtain rfl := Option.some.inj ((h x).symm.trans hn.1)
    exact hn.2

theorem readAs_kind (a : Args) (i : Nat) (w : Width) :
    a.readAs i w.kind = a.read i w.name fun v => (v.asInteger w).map .integer := by
  rw [← map_read, ← readInteger_eq]
  cases w
  case int32 => cases h : a.readInt32 i <;> simp [readAs, Width.kind, readInteger, h, Except.map]
  case int64 => cases h : a.readInt64 i <;> simp [readAs, Width.kind, readInteger, h, Except.map]
  case uint64 => cases h : a.readUInt64 i <;> simp [readAs, Width.kind, readInteger, h, Except.map]

theorem says_of_readAs {a : Args} {i : Nat} {k : ReadKind} (hk : k ∈ exactKinds) {x : Reading}
    (h : a.readAs i k = .ok x) : ∃ v, a.values[i]? = some v ∧ v.Says x := by
  have hread : ∀ {as : Value → Option Reading} {expected : String},
      (∀ v x, as v = some x → v.Says x) → a.read i expected as = .ok x →
        ∃ v, a.values[i]? = some v ∧ v.Says x := by
    intro as expected has hok
    obtain ⟨v, hv, hx⟩ := ((a.readRule_read expected fun _ _ => Iff.rfl).ok i x).1 hok
    exact ⟨v, hv, has v x hx⟩
  have hinteger : ∀ w : Width, a.readAs i w.kind = .ok x → ∃ v, a.values[i]? = some v ∧ v.Says x := by
    intro w hw
    rw [readAs_kind] at hw
    refine hread (fun v y hy => ?_) hw
    obtain ⟨n, hn, rfl⟩ := Option.map_eq_some_iff.1 hy
    exact .integer (Value.asInteger_eq_some_iff.1 hn).1
  cases k with
  | any | float | sharedUInt32 | sharedInt64 => simp [exactKinds] at hk
  | int32 => exact hinteger .int32 h
  | int64 => exact hinteger .int64 h
  | uint64 => exact hinteger .uint64 h
  | bool =>
    rw [readAs, readBool, map_read] at h
    refine hread (fun v y hy => ?_) h
    obtain ⟨b, hb, rfl⟩ := Option.map_eq_some_iff.1 hy
    exact Value.asBool_eq_some_iff.1 hb ▸ .flag b
  | str =>
    rw [readAs, readStr, map_read] at h
    refine hread (fun v y hy => ?_) h
    obtain ⟨s, hs, rfl⟩ := Option.map_eq_some_iff.1 hy
    exact Value.asStr_eq_some_iff.1 hs ▸ .text s
  | bytes =>
    rw [readAs, readBytes, map_read] at h
    refine hread (fun v y hy => ?_) h
    obtain ⟨data, hdata, rfl⟩ := Option.map_eq_some_iff.1 hy
    exact Value.asBytes_eq_some_iff.1 hdata ▸ .bytes data

theorem get_push {a : Args} {i : Nat} (h : i < a.size) (v : Value) : (a.push v).get i = a.get i := by
  have hkeep : (a.push v).values[i]? = a.values[i]? := List.getElem?_append_left h
  rw [get, get, hkeep, List.getElem?_eq_getElem h]

/-- Every argument list reads exactly: an integer is had at a width if it is there and fits, and it
is the same integer at every width and from every type. -/
theorem reads_exactly (a : Args) : a.ReadsExactly where
  integers := a.readRule_integer
  bools := a.readRule_read "bool" fun _ _ => Value.asBool_eq_some_iff
  strs := a.readRule_read "string" fun _ _ => Value.asStr_eq_some_iff
  bytes := a.readRule_read "bytes" fun _ _ => Value.asBytes_eq_some_iff
  get i := by
    rcases a.some_or_missing i with ⟨v, hv, hlt⟩ | ⟨hnone, hle⟩
    · simp [get_of_some hv, hv, hlt]
    · simp [get_of_le hle, hnone, hle, eq_comm]
  int8 := returns (fun x => by simp [toValue, Value.integer]) a
  int16 := returns (fun x => by simp [toValue, Value.integer]) a
  int32 := returns (fun x => by simp [toValue, Value.integer]) a
  int64 := returns (fun _ => rfl) a
  uint8 := returns (fun x => by simp [toValue, Value.integer]) a
  uint16 := returns (fun x => by simp [toValue, Value.integer]) a
  uint32 := returns (fun x => by simp [toValue, Value.integer]) a
  uint64 := returns (fun _ => rfl) a
  usize := returns (fun x => by simp [toValue, Value.integer]) a
  earlier v i hi := by
    refine ⟨get_push hi v, fun expected as => ?_⟩
    rw [read, read, get_push hi]
  agree i k hk l hl x y hx hy := by
    obtain ⟨v, hv, hsays⟩ := says_of_readAs hk hx
    obtain ⟨u, hu, hsays'⟩ := says_of_readAs hl hy
    obtain rfl := Option.some.inj (hv.symm.trans hu)
    exact hsays.unique hsays'

/-- The first word that has no signed counterpart, and minus one. -/
example :
    (empty.push (toValue (0x8000000000000000 : UInt64))).readInteger 0 .int64 =
        .error (.mismatch 0 "int" "uint") ∧
      (empty.push (toValue (0x8000000000000000 : UInt64))).readInteger 0 .uint64 =
        .ok 0x8000000000000000 ∧
      (empty.push (toValue (-1 : Int8))).readInteger 0 .uint64 = .error (.mismatch 0 "uint" "int") ∧
      (empty.push (toValue (-1 : Int8))).readInteger 0 .int32 = .ok (-1) :=
  ⟨rfl, rfl, rfl, rfl⟩

end Args

end ActorSystem
