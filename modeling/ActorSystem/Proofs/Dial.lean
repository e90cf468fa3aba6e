import ActorSystem.Timer.Wheel
import Mathlib.Algebra.Group.Nat.Defs
import Mathlib.Data.Fintype.Basic
import Mathlib.Logic.Function.Basic
import Mathlib.Tactic.FinCases

/-!
The bases and indices of the five levels, apart from what the slots hold. They alone decide where a
timer belongs. At rest the levels follow one another without a gap (`Aligned`); while a carry runs
outward, the level whose turn it is starts where the finest one does (`Carry`).
-/

set_option autoImplicit false

namespace ActorSystem.Timer

structure Hand where
  base : Nat
  index : Fin 256

abbrev Dial := Fin 5 → Hand

def Wheel.dial {α : Type} (w : Wheel α) : Dial :=
  fun k => ⟨(w.levels.get k).base, (w.levels.get k).index⟩

namespace Level

theorem unit_eq (k : Nat) : unit k = 256 ^ k := by
  rw [unit, Nat.shiftLeft_eq, Nat.one_mul, Nat.pow_mul]

theorem unit_pos (k : Nat) : 0 < unit k := by
  rw [unit_eq]
  exact Nat.pow_pos (by decide)

end Level

namespace Dial

open Level

/-- The windows between the base of a level and the one that holds the tick. -/
def offset (d : Dial) (k : Fin 5) (due : Nat) : Nat := (due - (d k).base) / unit k

def slotFor (d : Dial) (k : Fin 5) (due : Nat) : Fin 256 :=
  Fin.ofNat 256 ((d k).index.val + d.offset k due)

def locate (d : Dial) (due : Nat) : Place :=
  match ([4, 3, 2, 1, 0] : List (Fin 5)).find? fun k => decide ((d k).base ≤ due) with
  | some k => .slot k (d.slotFor k due)
  | none => .overdue

theorem locate_dial {α : Type} (w : Wheel α) (due : Nat) : w.locate due = w.dial.locate due := rfl

theorem find?_descending {ks : List (Fin 5)} (hks : ks.Pairwise (· > ·)) (p : Fin 5 → Bool)
    (k : Fin 5) :
    ks.find? p = some k ↔ k ∈ ks ∧ p k = true ∧ ∀ j ∈ ks, k < j → p j = false := by
  induction ks with
  | nil => simp
  | cons i ks ih =>
    obtain ⟨hi, hks⟩ := List.pairwise_cons.1 hks
    cases hp : p i with
    | true =>
      simp only [List.find?_cons, hp, Option.some.injEq]
      constructor
      · rintro rfl
        refine ⟨by simp, hp, fun j hj hlt => ?_⟩
        rcases List.mem_cons.1 hj with rfl | hj
        · exact absurd hlt (lt_irrefl _)
        · exact absurd hlt (lt_asymm (hi j hj))
      · rintro ⟨hk, -, hmax⟩
        rcases List.mem_cons.1 hk with rfl | hk
        · rfl
        · have := hmax i (by simp) (hi k hk)
          simp [hp] at this
    | false =>
      have hik : p k = true → k ≠ i := fun h e => by simp [e, hp] at h
      simp only [List.find?_cons, hp, ih hks, List.mem_cons]
      constructor
      · rintro ⟨hk, hpk, hmax⟩
        exact ⟨.inr hk, hpk, fun j hj hlt => hj.elim (fun e => e ▸ hp) fun hj => hmax j hj hlt⟩
      · rintro ⟨hk, hpk, hmax⟩
        exact ⟨hk.resolve_left (hik hpk), hpk, fun j hj => hmax j (.inr hj)⟩

theorem locate_eq_slot_iff (d : Dial) (due : Nat) (k : Fin 5) (s : Fin 256) :
    d.locate due = .slot k s ↔
      (d k).base ≤ due ∧ (∀ j, k < j → due < (d j).base) ∧ s = d.slotFor k due := by
  have hlevel : ([4, 3, 2, 1, 0] : List (Fin 5)).find? (fun j => decide ((d j).base ≤ due)) = some k
      ↔ (d k).base ≤ due ∧ ∀ j, k < j → due < (d j).base := by
    rw [find?_descending (by decide)]
    have hmem : ∀ j : Fin 5, j ∈ ([4, 3, 2, 1, 0] : List (Fin 5)) := by decide
    simp [hmem]
  unfold locate
  split
  · rename_i j hj
    simp only [Place.slot.injEq]
    constructor
    · rintro ⟨rfl, rfl⟩
      exact ⟨(hlevel.1 hj).1, (hlevel.1 hj).2, rfl⟩
    · rintro ⟨h₁, h₂, rfl⟩
      have := hj.symm.trans (hlevel.2 ⟨h₁, h₂⟩)
      simp_all
  · rename_i hnone
    simp only [reduceCtorEq, false_iff]
    rintro ⟨h₁, h₂, -⟩
    have := hnone.symm.trans (hlevel.2 ⟨h₁, h₂⟩)
    simp at this

theorem locate_eq_overdue_iff (d : Dial) (due : Nat) :
    d.locate due = .overdue ↔ ∀ k, due < (d k).base := by
  constructor
  · intro h k
    unfold locate at h
    split at h
    · simp at h
    · rename_i hnone
      have := List.find?_eq_none.1 hnone k (by fin_cases k <;> simp)
      simpa using this
  · intro h
    cases hl : d.locate due with
    | overdue => rfl
    | slot k s =>
      have := ((d.locate_eq_slot_iff due k s).1 hl).1
      have := h k
      omega

theorem base_le_of_locate {d : Dial} {due : Nat} {k : Fin 5} {s : Fin 256}
    (h : d.locate due = .slot k s) : (d k).base ≤ due := ((d.locate_eq_slot_iff due k s).1 h).1

theorem lt_base_of_locate {d : Dial} {due : Nat} {k j : Fin 5} {s : Fin 256}
    (h : d.locate due = .slot k s) (hj : k < j) : due < (d j).base :=
  ((d.locate_eq_slot_iff due k s).1 h).2.1 j hj

def move (d : Dial) (k : Fin 5) (steps : Nat) : Dial :=
  Function.update d k
    ⟨(d k).base + steps * unit k, Fin.ofNat 256 ((d k).index.val + steps)⟩

@[simp] theorem move_ne (d : Dial) {k j : Fin 5} (h : j ≠ k) (steps : Nat) :
    d.move k steps j = d j := Function.update_of_ne h _ _

@[simp] theorem base_move (d : Dial) (k : Fin 5) (steps : Nat) :
    (d.move k steps k).base = (d k).base + steps * unit k := by
  simp [move]

@[simp] theorem index_move (d : Dial) (k : Fin 5) (steps : Nat) :
    (d.move k steps k).index = Fin.ofNat 256 ((d k).index.val + steps) := by
  simp [move]

theorem base_le_move (d : Dial) (k j : Fin 5) (steps : Nat) :
    (d j).base ≤ (d.move k steps j).base := by
  by_cases h : j = k
  · subst h
    simp
  · rw [d.move_ne h]

theorem offset_move {d : Dial} {k : Fin 5} {steps due : Nat} :
    (d.move k steps).offset k due = d.offset k due - steps := by
  rw [offset, base_move, offset, ← Nat.sub_sub, Nat.mul_comm steps, Nat.sub_mul_div]

theorem le_offset_iff {d : Dial} {k : Fin 5} {steps due : Nat} (h : (d k).base ≤ due) :
    steps ≤ d.offset k due ↔ (d k).base + steps * unit k ≤ due := by
  rw [offset, Nat.le_div_iff_mul_le (unit_pos k)]
  omega

theorem slotFor_move {d : Dial} {k : Fin 5} {steps due : Nat} (h : (d k).base ≤ due)
    (hs : (d k).base + steps * unit k ≤ due) :
    (d.move k steps).slotFor k due = d.slotFor k due := by
  have hle : steps ≤ d.offset k due := (le_offset_iff h).2 hs
  apply Fin.ext
  simp only [slotFor, index_move, offset_move, Fin.ofNat]
  omega

/-- A timer keeps its place when a level moves on, unless it is passed. -/
theorem locate_move {d : Dial} {k : Fin 5} {steps due : Nat}
    (h : ∀ s, d.locate due = .slot k s → (d k).base + steps * unit k ≤ due) :
    (d.move k steps).locate due = d.locate due := by
  cases hl : d.locate due with
  | overdue =>
    rw [locate_eq_overdue_iff] at hl ⊢
    exact fun j => Nat.lt_of_lt_of_le (hl j) (d.base_le_move k j steps)
  | slot l s =>
    obtain ⟨hbase, hmax, hs⟩ := (d.locate_eq_slot_iff due l s).1 hl
    rw [locate_eq_slot_iff]
    refine ⟨?_, fun j hj => Nat.lt_of_lt_of_le (hmax j hj) (d.base_le_move k j steps), ?_⟩
    · by_cases hlk : l = k
      · subst hlk
        rw [base_move]
        exact h s hl
      · rwa [d.move_ne hlk]
    · by_cases hlk : l = k
      · subst hlk
        rw [slotFor_move hbase (h s hl), hs]
      · rw [hs, slotFor, slotFor, offset, offset, d.move_ne hlk]

/-- A timer that is passed when level `k` moves on belongs to a finer level. -/
theorem locate_move_finer {d : Dial} {k : Fin 5} {steps due : Nat} {s : Fin 256} (hk : k ≠ 0)
    (h : d.locate due = .slot k s) (hpassed : due < (d k).base + steps * unit k)
    (hfinest : (d 0).base ≤ due) : ∃ j s', j < k ∧ (d.move k steps).locate due = .slot j s' := by
  cases hl : (d.move k steps).locate due with
  | overdue =>
    have := (locate_eq_overdue_iff _ _).1 hl 0
    rw [d.move_ne hk.symm] at this
    omega
  | slot j s' =>
    have hbase := base_le_of_locate hl
    refine ⟨j, s', ?_, rfl⟩
    rcases lt_trichotomy j k with hlt | heq | hgt
    · exact hlt
    · subst heq
      rw [base_move] at hbase
      omega
    · rw [d.move_ne hgt.ne'] at hbase
      have := lt_base_of_locate h hgt
      omega

/-- A timer in the current slot is in the current window, if it is less than a round ahead. -/
theorem lt_of_locate_index {d : Dial} {k : Fin 5} {due : Nat}
    (h : d.locate due = .slot k (d k).index) (hnear : d.offset k due < 256) :
    due < (d k).base + unit k := by
  obtain ⟨hbase, -, hs⟩ := (d.locate_eq_slot_iff due k _).1 h
  have hval := congrArg Fin.val hs
  have hidx := (d k).index.isLt
  simp only [slotFor, Fin.ofNat] at hval
  have hzero : ¬ 1 ≤ d.offset k due := by omega
  rw [le_offset_iff hbase] at hzero
  omega

/-- A timer of the level outside its current slot is past the current window. -/
theorem le_of_locate_ne_index {d : Dial} {k : Fin 5} {due : Nat} {s : Fin 256}
    (h : d.locate due = .slot k s) (hs : s ≠ (d k).index) : (d k).base + unit k ≤ due := by
  obtain ⟨hbase, -, rfl⟩ := (d.locate_eq_slot_iff due k s).1 h
  have hone : 1 ≤ d.offset k due := by
    by_contra hlt
    have hz : d.offset k due = 0 := by omega
    apply hs
    apply Fin.ext
    have hidx := (d k).index.isLt
    simp only [slotFor, hz, Fin.ofNat]
    omega
  rw [le_offset_iff hbase] at hone
  omega

structure Aligned (d : Dial) : Prop where
  one : (d 1).base = (d 0).base + (256 - (d 0).index.val)
  succ : ∀ k : Fin 5, 0 < k → k < 4 →
    (d (k + 1)).base = (d k).base + (255 - (d k).index.val) * unit k

/-- All levels below `k` have gone round, and level `k` is still to move. -/
structure Carry (d : Dial) (k : Fin 5) : Prop where
  level : (d k).base = (d 0).base
  wrapped : ∀ j, j < k → (d j).index = 0
  below : ∀ j, 0 < j → j < k → (d j).base = (d 0).base + unit j
  above : ∀ j, k ≤ j → j < 4 → (d (j + 1)).base = (d j).base + (255 - (d j).index.val) * unit j

theorem val_succ {k : Fin 5} (hk : k < 4) : (k + 1).val = k.val + 1 :=
  Fin.val_add_one_of_lt (n := 4) hk

theorem unit_succ (k : Nat) : unit (k + 1) = 256 * unit k := by
  rw [unit_eq, unit_eq, Nat.pow_succ, Nat.mul_comm]

/-- Each level begins where the one below it ends: what `now` is lined up with. -/
def start (now : Nat) : Dial := fun k => ⟨Level.start k now, 0⟩

theorem aligned_start (now : Nat) : (start now).Aligned := by
  refine ⟨rfl, fun k hk hk4 => ?_⟩
  have hv := val_succ hk4
  have h0 : k.val ≠ 0 := fun e => absurd hk (by simp [Fin.lt_def, e])
  have hu := unit_pos k
  simp only [start, Level.start, hv, unit_succ, h0, if_false, Nat.add_eq_zero_iff, one_ne_zero,
    and_false, Fin.val_zero]
  omega

theorem Aligned.one_le {d : Dial} (h : d.Aligned) {k : Fin 5} (hk : k ≠ 0) :
    (d 1).base ≤ (d k).base := by
  have h₂ := h.succ 1 (by decide) (by decide)
  have h₃ := h.succ 2 (by decide) (by decide)
  have h₄ := h.succ 3 (by decide) (by decide)
  simp only [Fin.reduceAdd] at h₂ h₃ h₄
  fin_cases k <;> simp only [Fin.zero_eta, Fin.mk_one, Fin.reduceFinMk] at hk ⊢ <;> omega

theorem Aligned.finest_le {d : Dial} (h : d.Aligned) (k : Fin 5) : (d 0).base ≤ (d k).base := by
  by_cases hk : k = 0
  · rw [hk]
  · have h₁ := h.one
    have := h.one_le hk
    omega

theorem Aligned.le_four {d : Dial} (h : d.Aligned) (k : Fin 5) : (d k).base ≤ (d 4).base := by
  have h₁ := h.one
  have h₂ := h.succ 1 (by decide) (by decide)
  have h₃ := h.succ 2 (by decide) (by decide)
  have h₄ := h.succ 3 (by decide) (by decide)
  simp only [Fin.reduceAdd] at h₂ h₃ h₄
  fin_cases k <;> simp only [Fin.zero_eta, Fin.mk_one, Fin.reduceFinMk] <;> omega

/-- The coarsest level begins less than one of its windows ahead. -/
theorem Aligned.four_le {d : Dial} (h : d.Aligned) : (d 4).base ≤ (d 0).base + unit 4 := by
  have h₁ := h.one
  have h₂ := h.succ 1 (by decide) (by decide)
  have h₃ := h.succ 2 (by decide) (by decide)
  have h₄ := h.succ 3 (by decide) (by decide)
  have hle : ∀ k : Fin 5, (255 - (d k).index.val) * unit k ≤ 255 * unit k := fun k =>
    Nat.mul_le_mul_right _ (Nat.sub_le _ _)
  have hle₁ := hle 1
  have hle₂ := hle 2
  have hle₃ := hle 3
  have hsum : 256 + 255 * unit (1 : Fin 5) + 255 * unit (2 : Fin 5) + 255 * unit (3 : Fin 5) =
      unit 4 := by decide
  simp only [Fin.reduceAdd] at h₂ h₃ h₄
  omega

/-- A timer below the coarsest level is in the part of the ring that is still ahead. -/
theorem Aligned.offset_lt {d : Dial} (h : d.Aligned) {k : Fin 5} {due : Nat} {s : Fin 256}
    (hl : d.locate due = .slot k s) (hk : k < 4) :
    d.offset k due < 256 - (d k).index.val := by
  have hlt := lt_base_of_locate hl (j := k + 1) (by rw [Fin.lt_def, val_succ hk]; omega)
  have hbase := base_le_of_locate hl
  have hidx := (d k).index.isLt
  rw [offset, Nat.div_lt_iff_lt_mul (unit_pos k)]
  by_cases hk0 : k = 0
  · subst hk0
    have := h.one
    simp only [Fin.reduceAdd] at hlt
    simp only [unit_eq, Fin.val_zero, Nat.pow_zero, Nat.mul_one]
    omega
  · rw [h.succ k (Fin.pos_of_ne_zero hk0) hk] at hlt
    have hu := unit_pos k
    have hmul : (255 - (d k).index.val) * unit k ≤ (256 - (d k).index.val) * unit k :=
      Nat.mul_le_mul_right _ (by omega)
    omega

theorem Carry.offset_lt {d : Dial} {k : Fin 5} (h : d.Carry k) {due : Nat} {s : Fin 256}
    (hl : d.locate due = .slot k s) (hk : k < 4) : d.offset k due < 255 - (d k).index.val := by
  have hlt := lt_base_of_locate hl (j := k + 1) (by rw [Fin.lt_def, val_succ hk]; omega)
  have hbase := base_le_of_locate hl
  rw [h.above k (le_refl k) hk] at hlt
  rw [offset, Nat.div_lt_iff_lt_mul (unit_pos k)]
  omega

theorem Aligned.move {d : Dial} (h : d.Aligned) {steps : Nat}
    (hs : (d 0).index.val + steps < 256) : (d.move 0 steps).Aligned := by
  refine ⟨?_, fun k hk hk4 => ?_⟩
  · rw [d.move_ne (by decide), h.one, base_move, index_move]
    simp [Fin.ofNat, unit, Nat.mod_eq_of_lt hs]
    omega
  · rw [d.move_ne (Fin.ne_of_gt hk), d.move_ne, h.succ k hk hk4]
    exact Fin.ne_of_gt (Fin.lt_def.2 (by rw [val_succ hk4]; omega))

theorem Aligned.move_wrap {d : Dial} (h : d.Aligned) :
    (d.move 0 (256 - (d 0).index.val)).Carry 1 := by
  have hidx := (d 0).index.isLt
  refine ⟨?_, fun j hj => ?_, fun j hj hj1 => ?_, fun j hj hj4 => ?_⟩
  · rw [d.move_ne (by decide), base_move, h.one]
    simp [unit]
  · obtain rfl : j = 0 := by omega
    rw [index_move]
    apply Fin.ext
    simp [Fin.ofNat, Nat.add_sub_cancel' (Nat.le_of_lt hidx)]
  · omega
  · have hj0 : 0 < j := by omega
    rw [d.move_ne (Fin.ne_of_gt hj0), d.move_ne, h.succ j hj0 hj4]
    exact Fin.ne_of_gt (Fin.lt_def.2 (by rw [val_succ hj4]; omega))

theorem Carry.move {d : Dial} {k : Fin 5} (h : d.Carry k) (hk : k ≠ 0)
    (hidx : k < 4 → (d k).index.val ≠ 255) : (d.move k 1).Aligned := by
  have hlevel := h.level
  have hw := h.wrapped
  have hbelow := h.below
  have habove := h.above
  have hlt := (d k).index.isLt
  refine ⟨?_, fun j hj hj4 => ?_⟩
  · have hzero : (d 0).index = 0 := hw 0 (Fin.pos_of_ne_zero hk)
    rw [d.move_ne hk.symm, hzero]
    by_cases hk1 : k = 1
    · subst hk1
      rw [base_move, hlevel]
      simp [unit]
    · have h1k : 1 < k := by omega
      rw [d.move_ne (Ne.symm hk1), hbelow 1 (by decide) h1k]
      simp [unit]
  · have hjv := val_succ hj4
    rcases lt_trichotomy (j + 1) k with hlow | heq | hhigh
    · have hjk : j < k := lt_trans (Fin.lt_def.2 (by omega)) hlow
      rw [d.move_ne hlow.ne, d.move_ne hjk.ne, hbelow (j + 1) (Fin.lt_def.2 (by simp [hjv])) hlow,
        hbelow j hj hjk, hw j hjk, hjv, unit_succ]
      simp
      omega
    · have hjk : j < k := heq ▸ Fin.lt_def.2 (by omega)
      rw [heq, base_move, d.move_ne hjk.ne, hbelow j hj hjk, hw j hjk, hlevel, ← heq, hjv, unit_succ]
      simp
      omega
    · have hkj : k ≤ j := Fin.le_def.2 (by have := Fin.lt_def.1 hhigh; omega)
      rw [d.move_ne hhigh.ne', habove j hkj hj4]
      rcases hkj.eq_or_lt with rfl | hkj
      · rw [base_move, index_move]
        have h255 := hidx hj4
        obtain ⟨n, hn⟩ : ∃ n, 255 - (d k).index.val = n + 1 := ⟨254 - (d k).index.val, by omega⟩
        have hidx' : 255 - (Fin.ofNat 256 ((d k).index.val + 1)).val = n := by
          simp only [Fin.ofNat]
          omega
        rw [hn, hidx', Nat.add_mul]
        omega
      · rw [d.move_ne hkj.ne']

theorem Carry.move_wrap {d : Dial} {k : Fin 5} (h : d.Carry k) (hk : k ≠ 0) (hk4 : k < 4)
    (hidx : (d k).index.val = 255) : (d.move k 1).Carry (k + 1) := by
  have hkv := val_succ hk4
  have hne : k + 1 ≠ k := fun e => by simp [e] at hkv
  have hzero : Fin.ofNat 256 ((d k).index.val + 1) = 0 := by rw [hidx]; rfl
  refine ⟨?_, fun j hj => ?_, fun j hj hjk => ?_, fun j hj hj4 => ?_⟩
  · rw [d.move_ne hne, d.move_ne hk.symm, h.above k (le_refl k) hk4, hidx, h.level]
    simp
  · by_cases hjk : j = k
    · subst hjk
      rw [index_move, hzero]
    · rw [d.move_ne hjk]
      exact h.wrapped j (Fin.lt_def.2 (by have := Fin.lt_def.1 hj; omega))
  · rw [d.move_ne hk.symm]
    by_cases hj' : j = k
    · subst hj'
      rw [base_move, h.level]
      simp
    · rw [d.move_ne hj', h.below j hj (Fin.lt_def.2 (by have := Fin.lt_def.1 hjk; omega))]
  · have hkj : k < j := Fin.lt_def.2 (by have := Fin.le_def.1 hj; omega)
    have hjv := val_succ hj4
    rw [d.move_ne hkj.ne', d.move_ne (Fin.ne_of_gt (Fin.lt_def.2 (by omega))),
      h.above j hkj.le hj4]

section turn

variable {d : Dial} {k : Fin 5} {due : Nat}

def currentPlace (d : Dial) (k : Fin 5) : Place := .slot k (d k).index

theorem Carry.locate_move_finer (h : d.Carry k) (hk : k ≠ 0)
    (hl : d.locate due = d.currentPlace k) (hnear : d.offset k due < 256) :
    ∃ j s, j < k ∧ (d.move k 1).locate due = .slot j s := by
  refine Dial.locate_move_finer hk hl ?_ (h.level ▸ base_le_of_locate hl)
  rw [Nat.one_mul]
  exact lt_of_locate_index hl hnear

/-- Such a timer is less than a round ahead on its finer level. -/
theorem Carry.offset_move_finer (h : d.Carry k) (hk : k ≠ 0)
    (hl : d.locate due = d.currentPlace k) (hnear : d.offset k due < 256) {j : Fin 5} {s : Fin 256}
    (hj : (d.move k 1).locate due = .slot j s) : (d.move k 1).offset j due < 256 := by
  obtain ⟨j', s', hjk, hloc⟩ := h.locate_move_finer hk hl hnear
  rw [hj, Place.slot.injEq] at hloc
  obtain ⟨rfl, rfl⟩ := hloc
  have hj4 : j < 4 := by omega
  have hjv := val_succ hj4
  have hsucc : unit (j.val + 1) = 256 * unit j.val := unit_succ j.val
  have hpos : 0 < unit j.val := unit_pos j.val
  have hend : due < (d 0).base + unit (j.val + 1) := by
    have hnext : j < j + 1 := Fin.lt_def.2 (by omega)
    by_cases hjk1 : j + 1 = k
    · have hwindow := lt_of_locate_index hl hnear
      rwa [h.level, ← hjk1, hjv] at hwindow
    · have hlt := lt_base_of_locate hj hnext
      have hpos : 0 < j + 1 := Fin.lt_def.2 (by simp [hjv])
      rwa [d.move_ne hjk1, h.below (j + 1) hpos (by omega), hjv] at hlt
  have hbase : (d 0).base ≤ (d j).base := by
    by_cases hj0 : j = 0
    · rw [hj0]
    · have := h.below j (Fin.pos_of_ne_zero hj0) hjk
      omega
  rw [offset, d.move_ne hjk.ne, Nat.div_lt_iff_lt_mul (unit_pos j)]
  omega

theorem locate_move_one (hl : d.locate due ≠ d.currentPlace k) :
    (d.move k 1).locate due = d.locate due := by
  refine locate_move fun s hs => ?_
  rw [Nat.one_mul]
  exact le_of_locate_ne_index hs fun e => hl (by rw [hs, e, currentPlace])

theorem Carry.locate_ne_finer (h : d.Carry k) {j : Fin 5} (hj : j < k) (s : Fin 256) :
    d.locate due ≠ .slot j s := by
  intro hl
  have hbase := base_le_of_locate hl
  have hlt := lt_base_of_locate hl hj
  rw [h.level] at hlt
  by_cases hj0 : j = 0
  · subst hj0
    omega
  · rw [h.below j (Fin.pos_of_ne_zero hj0) hj] at hbase
    omega

end turn

end Dial

end ActorSystem.Timer
