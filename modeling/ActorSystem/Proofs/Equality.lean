import ActorSystem.Value.Args
import Mathlib.Data.List.Forall2
import Mathlib.Order.Monotone.Basic

/-!
Equality of values. Two values are equal if they are built alike from equal parts, where floats are
compared as numbers and shared objects by identity. Since a NaN is no number, a value equals itself
only if it has none inside; on the values without one equality is an equivalence.
-/

set_option autoImplicit false

namespace ActorSystem

namespace Binary64

def raw (x : Binary64) : Nat := x.bits.toNat % (1 <<< 63)

/-- The magnitude in units of the least positive double; that of an infinity is beyond the
others. -/
def units (raw : Nat) : Nat :=
  if raw / (1 <<< 52) = 0 then raw % (1 <<< 52)
  else (raw % (1 <<< 52) + (1 <<< 52)) <<< (raw / (1 <<< 52) - 1)

def number? (x : Binary64) : Option Int :=
  if x.isNaN then none else if x.negative then some (-(units x.raw)) else some (units x.raw)

theorem units_lt_succ (n : Nat) : units n < units (n + 1) := by
  unfold units
  have hunit : (1 <<< 52 : Nat) = 4503599627370496 := rfl
  rw [hunit, Nat.shiftLeft_eq, Nat.shiftLeft_eq]
  by_cases hcarry : (n + 1) % 4503599627370496 = 0
  · -- The fraction starts anew with the next exponent.
    have hquot : (n + 1) / 4503599627370496 = n / 4503599627370496 + 1 := by omega
    have hfrac : n % 4503599627370496 = 4503599627370495 := by omega
    rw [hquot, hcarry, hfrac]
    by_cases hsub : n / 4503599627370496 = 0
    · simp [hsub]
    · obtain ⟨e, he⟩ := Nat.exists_eq_succ_of_ne_zero hsub
      have hpow := Nat.two_pow_pos e
      simp only [he, Nat.succ_eq_add_one, Nat.add_sub_cancel, Nat.pow_succ]
      simp
      omega
  · have hquot : (n + 1) / 4503599627370496 = n / 4503599627370496 := by omega
    have hfrac : (n + 1) % 4503599627370496 = n % 4503599627370496 + 1 := by omega
    rw [hquot, hfrac]
    by_cases hsub : n / 4503599627370496 = 0
    · simp [hsub]
    · simp only [hsub, if_false]
      exact Nat.mul_lt_mul_of_pos_right (by omega) (Nat.two_pow_pos _)

theorem units_strictMono : StrictMono units := strictMono_nat_of_lt_succ units_lt_succ

theorem units_zero : units 0 = 0 := by simp [units]

theorem units_eq_zero_iff {n : Nat} : units n = 0 ↔ n = 0 := by
  rw [← units_zero]
  exact units_strictMono.injective.eq_iff

theorem isZero_iff {x : Binary64} : x.isZero = true ↔ x.raw = 0 := by
  simp [isZero, raw]

theorem bits_eq_iff {x y : Binary64} :
    x.bits = y.bits ↔ x.negative = y.negative ∧ x.raw = y.raw := by
  have hx := x.bits.toNat_lt
  have hy := y.bits.toNat_lt
  simp only [negative, raw, decide_eq_decide, ← UInt64.toNat_inj]
  have hunit : (1 <<< 63 : Nat) = 9223372036854775808 := rfl
  rw [hunit]
  omega

theorem number?_eq_none {x : Binary64} : x.number? = none ↔ x.isNaN = true := by
  unfold number?
  cases x.isNaN <;> cases x.negative <;> simp

theorem number?_eq_iff {x y : Binary64} (hx : x.isNaN = false) (hy : y.isNaN = false) :
    x.number? = y.number? ↔ x.bits = y.bits ∨ x.raw = 0 ∧ y.raw = 0 := by
  have hinj : units x.raw = units y.raw ↔ x.raw = y.raw := units_strictMono.injective.eq_iff
  have hzx := units_eq_zero_iff (n := x.raw)
  have hzy := units_eq_zero_iff (n := y.raw)
  rw [bits_eq_iff]
  simp only [number?, hx, hy]
  cases x.negative <;> cases y.negative <;> simp <;> omega

theorem eq_iff_number? {x y : Binary64} :
    x.eq y = true ↔ x.number? = y.number? ∧ x.number? ≠ none := by
  rw [ne_eq, number?_eq_none]
  by_cases hx : x.isNaN = true
  · simp [eq, hx]
  · by_cases hy : y.isNaN = true
    · have hnone := number?_eq_none.2 hy
      have hsome := mt number?_eq_none.1 hx
      simp [eq, hy, hnone, hsome]
    · rw [Bool.not_eq_true] at hx hy
      rw [number?_eq_iff hx hy]
      simp [eq, hx, hy, isZero_iff]

end Binary64

namespace Value

/-- Built alike from equal parts. -/
inductive Same : Value → Value → Prop where
  | nil : Same nil nil
  | bool (b : Bool) : Same (bool b) (bool b)
  | int (n : Int64) : Same (int n) (int n)
  | uint (n : UInt64) : Same (uint n) (uint n)
  | float {x y : Binary64} (n : Int) (hx : x.number? = some n) (hy : y.number? = some n) :
    Same (float x) (float y)
  | str (s : String) : Same (str s) (str s)
  | bytes (data : List UInt8) : Same (bytes data) (bytes data)
  | list {as bs : List Value} (h : List.Forall₂ Same as bs) : Same (list as) (list bs)
  | shared {a b : Shared} (h : a.identity = b.identity) : Same (shared a) (shared b)

inductive Within (u : Value) : Value → Prop where
  | self : Within u u
  | item {v : Value} {items : List Value} (hv : v ∈ items) (h : Within u v) : Within u (list items)

def HasNaN (v : Value) : Prop := ∃ x : Binary64, x.isNaN = true ∧ Within (float x) v

theorem hasNaN_float {x : Binary64} : HasNaN (float x) ↔ x.isNaN = true := by
  constructor
  · rintro ⟨y, hy, h⟩
    cases h
    exact hy
  · exact fun hx => ⟨x, hx, .self⟩

theorem hasNaN_list {items : List Value} : HasNaN (list items) ↔ ∃ v ∈ items, HasNaN v := by
  constructor
  · rintro ⟨x, hx, h⟩
    cases h with
    | item hv h => exact ⟨_, hv, x, hx, h⟩
  · rintro ⟨v, hv, x, hx, h⟩
    exact ⟨x, hx, .item hv h⟩

theorem induction_on_lists {P : Value → Prop} (atom : ∀ v, v.asList = none → P v)
    (lists : ∀ items, (∀ v ∈ items, P v) → P (list items)) : ∀ v, P v
  | list items => lists items fun v hv =>
    have _ := List.sizeOf_lt_of_mem hv
    induction_on_lists atom lists v
  | nil | bool _ | int _ | uint _ | float _ | str _ | bytes _ | shared _ => atom _ rfl
termination_by v => sizeOf v
decreasing_by
  simp only [list.sizeOf_spec]
  omega

section

variable {R S : Value → Value → Prop} {as bs cs : List Value}

/-- Of the relation only what it says at the items of the first list matters. -/
theorem forall₂_imp_left (himp : ∀ a ∈ as, ∀ b, R a b → S a b) (h : List.Forall₂ R as bs) :
    List.Forall₂ S as bs :=
  ((List.forall₂_and_left as bs).2 ⟨himp, h⟩).imp fun _ b hab => hab.1 b hab.2

theorem forall₂_trans_left (htrans : ∀ a ∈ as, ∀ b c, R a b → R b c → R a c)
    (h : List.Forall₂ R as bs) (h' : List.Forall₂ R bs cs) : List.Forall₂ R as cs := by
  induction h generalizing cs with
  | nil => exact h'
  | cons hab _ ih =>
    cases h' with
    | cons hbc h' =>
      exact .cons (htrans _ List.mem_cons_self _ _ hab hbc)
        (ih (fun a ha => htrans a (List.mem_cons_of_mem _ ha)) h')

end

theorem eqList_iff {as bs : List Value} :
    eqList as bs = true ↔ List.Forall₂ (fun a b => a.eq b = true) as bs := by
  induction as generalizing bs with
  | nil => cases bs <;> simp [eqList]
  | cons a as ih => cases bs <;> simp [eqList, ih]

theorem list_eq_iff {as : List Value} {w : Value} :
    (list as).eq w = true ↔ ∃ bs, w = list bs ∧ List.Forall₂ (fun a b => a.eq b = true) as bs := by
  cases w <;> simp [eq, eqList_iff]

theorem same_list_iff {as : List Value} {w : Value} :
    Same (list as) w ↔ ∃ bs, w = list bs ∧ List.Forall₂ Same as bs := by
  constructor
  · rintro ⟨⟩
    exact ⟨_, rfl, by assumption⟩
  · rintro ⟨bs, rfl, h⟩
    exact .list h

theorem eq_iff_same (v w : Value) : v.eq w = true ↔ Same v w := by
  induction v using induction_on_lists generalizing w with
  | lists as ih =>
    rw [list_eq_iff, same_list_iff]
    exact exists_congr fun bs => and_congr_right fun _ =>
      ⟨forall₂_imp_left fun a ha b => (ih a ha b).1, forall₂_imp_left fun a ha b => (ih a ha b).2⟩
  | atom v hv =>
    constructor
    · intro h
      cases v <;> cases w <;> simp only [eq, Bool.false_eq_true, beq_iff_eq] at h
      case nil.nil => exact .nil
      case bool.bool a b => exact h ▸ .bool a
      case int.int a b => exact h ▸ .int a
      case uint.uint a b => exact h ▸ .uint a
      case float.float x y =>
        obtain ⟨hsame, hsome⟩ := Binary64.eq_iff_number?.1 h
        obtain ⟨n, hn⟩ := Option.ne_none_iff_exists'.1 hsome
        exact .float n hn (hsame ▸ hn)
      case str.str a b => exact h ▸ .str a
      case bytes.bytes a b => exact h ▸ .bytes a
      case list.list => cases hv
      case shared.shared => exact .shared h
    · intro h
      cases h with
      | list => cases hv
      | float n hx hy => exact Binary64.eq_iff_number?.2 ⟨hx.trans hy.symm, by simp [hx]⟩
      | shared h => simpa [eq] using h
      | _ => simp [eq]

theorem Same.symm {v w : Value} (h : Same v w) : Same w v := by
  induction v using induction_on_lists generalizing w with
  | lists as ih =>
    obtain ⟨bs, rfl, hitems⟩ := same_list_iff.1 h
    have hturned : List.Forall₂ (fun a b => Same b a) as bs :=
      forall₂_imp_left (fun a ha _ hab => ih a ha hab) hitems
    exact .list hturned.flip
  | atom v hv =>
    cases h with
    | list => cases hv
    | float n hx hy => exact .float n hy hx
    | shared h => exact .shared h.symm
    | _ => constructor

theorem Same.trans {u v w : Value} (h : Same u v) (h' : Same v w) : Same u w := by
  induction u using induction_on_lists generalizing v w with
  | lists as ih =>
    obtain ⟨bs, rfl, hitems⟩ := same_list_iff.1 h
    obtain ⟨cs, rfl, hitems'⟩ := same_list_iff.1 h'
    exact .list (forall₂_trans_left (fun a ha _ _ hab hbc => ih a ha hab hbc) hitems hitems')
  | atom u hu =>
    cases h with
    | list => cases hu
    | float n hx hy =>
      cases h' with
      | float m hy' hz =>
        obtain rfl := Option.some.inj (hy.symm.trans hy')
        exact .float n hx hz
    | shared h =>
      cases h' with
      | shared h' => exact .shared (h.trans h')
    | _ => exact h'

theorem same_self_iff (v : Value) : Same v v ↔ ¬v.HasNaN := by
  induction v using induction_on_lists with
  | lists items ih =>
    have hitems : Same (list items) (list items) ↔ ∀ v ∈ items, Same v v := by
      rw [← List.forall₂_same]
      exact ⟨fun h => by cases h; assumption, .list⟩
    rw [hitems, hasNaN_list]
    simp only [not_exists, not_and]
    exact forall₂_congr ih
  | atom v hv =>
    cases v with
    | list => cases hv
    | float x =>
      rw [← eq_iff_same, hasNaN_float, eq, Binary64.eq_self]
      simp
    | _ =>
      refine iff_of_true ((eq_iff_same _ _).1 (by simp [eq])) ?_
      rintro ⟨x, -, h⟩
      cases h

theorem Same.typeName_eq {v w : Value} (h : Same v w) : v.typeName = w.typeName := by
  cases h <;> rfl

end Value

/-- Symmetric and transitive, and everything equals itself but what is flawed. -/
structure PartialEquality {α : Type} (eq : α → α → Bool) (flawed : α → Prop) : Prop where
  symm : ∀ a b, eq a b = eq b a
  trans : ∀ a b c, eq a b = true → eq b c = true → eq a c = true
  self : ∀ a, eq a a = true ↔ ¬flawed a

namespace Value

theorem partialEquality : PartialEquality eq HasNaN where
  symm v w := by
    rw [Bool.eq_iff_iff, eq_iff_same, eq_iff_same]
    exact ⟨Same.symm, Same.symm⟩
  trans u v w h h' := by
    rw [eq_iff_same] at h h' ⊢
    exact h.trans h'
  self v := (eq_iff_same v v).trans (same_self_iff v)

theorem eqList_getElem {as bs : List Value} :
    eqList as bs = true ↔ as.length = bs.length ∧
      ∀ i (ha : i < as.length) (hb : i < bs.length), as[i].eq bs[i] = true := by
  rw [eqList_iff, List.forall₂_iff_get]
  rfl

end Value

namespace Args

def HasNaN (a : Args) : Prop := ∃ v ∈ a.values, v.HasNaN

theorem eq_eq_list (a b : Args) : a.eq b = (Value.list a.values).eq (.list b.values) := rfl

theorem partialEquality : PartialEquality eq HasNaN where
  symm a b := Value.partialEquality.symm (.list a.values) (.list b.values)
  trans a b c := Value.partialEquality.trans (.list a.values) (.list b.values) (.list c.values)
  self a := by
    rw [eq_eq_list, Value.partialEquality.self, Value.hasNaN_list]
    rfl

end Args

/-- Equality goes by constructor and content. It is symmetric and transitive, and a value or an
argument list differs from itself exactly if a NaN is somewhere inside. -/
theorem equality_by_content :
    PartialEquality Value.eq Value.HasNaN ∧
      (∀ v w : Value, v.eq w = true ↔ v.Same w) ∧
      (∀ v w : Value, v.eq w = true → v.typeName = w.typeName) ∧
      (∀ as bs : List Value, (Value.list as).eq (.list bs) = true ↔ as.length = bs.length ∧
        ∀ i (ha : i < as.length) (hb : i < bs.length), as[i].eq bs[i] = true) ∧
      PartialEquality Args.eq Args.HasNaN ∧
      ∀ a b : Args, a.eq b = true ↔ a.size = b.size ∧
        ∀ i (ha : i < a.values.length) (hb : i < b.values.length),
          a.values[i].eq b.values[i] = true := by
  refine ⟨Value.partialEquality, Value.eq_iff_same, fun v w h => ?_, fun as bs => ?_,
    Args.partialEquality, fun a b => Value.eqList_getElem⟩
  · exact ((Value.eq_iff_same v w).1 h).typeName_eq
  · rw [Value.eq]
    exact Value.eqList_getElem

/-- The number one as a signed, an unsigned and a floating value, the two zeros, and a NaN two lists
deep. -/
example :
    (Value.int 1).eq (.uint 1) = false ∧ (Value.uint 1).eq (.float ⟨0x3ff0000000000000⟩) = false ∧
      (Value.float ⟨0⟩).eq (.float ⟨0x8000000000000000⟩) = true ∧
      (Value.list [.nil, .list [.float ⟨0x7ff8000000000000⟩]]).eq
        (.list [.nil, .list [.float ⟨0x7ff8000000000000⟩]]) = false := by
  decide

end ActorSystem
