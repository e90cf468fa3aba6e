import ActorSystem.Proofs.Arena
import ActorSystem.Proofs.Dial
import Mathlib.Algebra.BigOperators.Fin
import Mathlib.Algebra.Order.BigOperators.Group.Finset

/-!
What hangs where. A wheel has one chain for each place; a layout says which nodes each of them
holds. All operations of the wheel exchange one chain at a time (`setChain`), and what that does to
a layout is proved here once.
-/

set_option autoImplicit false

namespace ActorSystem.Timer

namespace Wheel

variable {α : Type}

def chain (w : Wheel α) : Place → Chain
  | .overdue => w.overdue
  | .slot k s => (w.levels.get k).slots.get s

theorem chain_congr {w v : Wheel α} (hl : w.levels = v.levels) (ho : w.overdue = v.overdue) :
    w.chain = v.chain := by
  funext p
  cases p <;> simp [chain, hl, ho]

structure Books where
  seq : Nat
  len : Nat
  running : Option TimerId
  maxDelay : Nat
  fired : Nat
  cancelled : Nat

def books (w : Wheel α) : Books := ⟨w.seq, w.len, w.running, w.maxDelay, w.fired, w.cancelled⟩

def count (w : Wheel α) (k : Fin 5) : Nat := (w.levels.get k).count

theorem get_eq_getElem {β : Type} {n : Nat} (xs : Vector β n) (i : Fin n) :
    xs.get i = xs[i.val] := rfl

theorem levels_modifyLevel (w : Wheel α) (k j : Fin 5) (f : Level → Level) :
    (w.modifyLevel k f).levels.get j = if j = k then f (w.levels.get j) else w.levels.get j := by
  simp only [modifyLevel, get_eq_getElem, Vector.getElem_mk, Array.getElem_modify]
  by_cases h : j = k
  · subst h
    simp
  · have hv : k.val ≠ j.val := fun e => h (Fin.ext e.symm)
    simp [h, hv]

theorem modifyLevel_modifyLevel (w : Wheel α) (k : Fin 5) (f g : Level → Level) :
    (w.modifyLevel k f).modifyLevel k g = w.modifyLevel k fun l => g (f l) := by
  have hl : ((w.modifyLevel k f).modifyLevel k g).levels =
      (w.modifyLevel k fun l => g (f l)).levels := by
    apply Vector.ext
    intro i hi
    have h₁ := (w.modifyLevel k f).levels_modifyLevel k ⟨i, hi⟩ g
    have h₂ := w.levels_modifyLevel k ⟨i, hi⟩ f
    have h₃ := w.levels_modifyLevel k ⟨i, hi⟩ fun l => g (f l)
    simp only [get_eq_getElem] at h₁ h₂ h₃
    rw [h₁, h₂, h₃]
    split <;> rfl
  exact congrArg (fun levels => { w with levels }) hl

def setChain (w : Wheel α) (p : Place) (c : Chain) (f : Nat → Nat) : Wheel α :=
  match p with
  | .overdue => { w with overdue := c }
  | .slot k s => w.modifyLevel k fun l => l.setSlot s c (f l.count)

def skip (w : Wheel α) (k : Fin 5) (steps : Nat) : Wheel α := w.modifyLevel k fun l => l.skip k steps

section skip

variable (w : Wheel α) (k : Fin 5) (steps : Nat)

@[simp] theorem chain_skip : (w.skip k steps).chain = w.chain := by
  funext p
  cases p with
  | overdue => rfl
  | slot j s =>
    simp only [skip, chain, levels_modifyLevel]
    split <;> rfl

@[simp] theorem count_skip : (w.skip k steps).count = w.count := by
  funext j
  simp only [skip, count, levels_modifyLevel]
  split <;> rfl

@[simp] theorem dial_skip : (w.skip k steps).dial = w.dial.move k steps := by
  funext j
  simp only [skip, dial, levels_modifyLevel]
  by_cases h : j = k
  · subst h
    rw [if_pos rfl, Dial.move, Function.update_self]
    rfl
  · rw [if_neg h, Dial.move_ne _ h]
    rfl

@[simp] theorem arena_skip : (w.skip k steps).arena = w.arena := rfl

@[simp] theorem books_skip : (w.skip k steps).books = w.books := rfl

end skip

section setChain

variable (w : Wheel α) (p q : Place) (c : Chain) (f : Nat → Nat)

theorem chain_setChain : (w.setChain p c f).chain q = if q = p then c else w.chain q := by
  cases p with
  | overdue => cases q <;> simp [setChain, chain]
  | slot k s =>
    cases q with
    | overdue => simp [setChain, chain, modifyLevel]
    | slot l t =>
      simp only [setChain, chain, levels_modifyLevel, Place.slot.injEq]
      by_cases hl : l = k
      · subst hl
        by_cases ht : t = s
        · subst ht
          simp [Level.setSlot, get_eq_getElem]
        · have hv : s.val ≠ t.val := fun e => ht (Fin.ext e.symm)
          simp [Level.setSlot, get_eq_getElem, ht, Vector.getElem_set_ne, hv]
      · simp [hl]

@[simp] theorem dial_setChain : (w.setChain p c f).dial = w.dial := by
  cases p with
  | overdue => rfl
  | slot k s =>
    funext j
    simp only [setChain, dial, levels_modifyLevel]
    split <;> rfl

theorem count_setChain (j : Fin 5) :
    (w.setChain p c f).count j = if ∃ s, p = .slot j s then f (w.count j) else w.count j := by
  cases p with
  | overdue => simp [setChain, count]
  | slot k s =>
    simp only [setChain, count, levels_modifyLevel, Place.slot.injEq, exists_and_left, exists_eq',
      and_true, eq_comm (a := k)]
    split <;> rfl

@[simp] theorem arena_setChain : (w.setChain p c f).arena = w.arena := by cases p <;> rfl

@[simp] theorem books_setChain : (w.setChain p c f).books = w.books := by cases p <;> rfl

end setChain

/-- Every chain is the sequence given for its place, no node hangs in two places, and the counts
are those of the timers that hang there. -/
structure Layout (w : Wheel α) (nodes : Place → List Nat) : Prop where
  linked : ∀ p, w.arena.Linked (w.chain p) (nodes p)
  apart : ∀ p q i, i ∈ nodes p → i ∈ nodes q → p = q
  count : ∀ k, w.count k = ∑ s, (nodes (.slot k s)).length

theorem sum_length_update (nodes : Place → List Nat) (k : Fin 5) (s : Fin 256) (is : List Nat) :
    (∑ t, (Function.update nodes (.slot k s) is (.slot k t)).length) +
        (nodes (.slot k s)).length =
      (∑ t, (nodes (.slot k t)).length) + is.length := by
  have hg : (fun t => (Function.update nodes (.slot k s) is (.slot k t)).length) =
      Function.update (fun t => (nodes (.slot k t)).length) s is.length := by
    funext t
    by_cases h : t = s
    · subst h
      simp
    · simp [h]
  rw [hg, Finset.sum_update_of_mem (Finset.mem_univ s),
    Finset.sum_eq_add_sum_sdiff_singleton_of_mem (Finset.mem_univ s) fun t =>
      (nodes (.slot k t)).length]
  omega

theorem Layout.setChain {w : Wheel α} {nodes : Place → List Nat} (h : w.Layout nodes) {p : Place}
    {arena : Arena α} {c : Chain} {is : List Nat} {f : Nat → Nat} (hc : arena.Linked c is)
    (hother : ∀ q, q ≠ p → arena.Linked (w.chain q) (nodes q))
    (hapart : ∀ q, q ≠ p → ∀ i ∈ is, i ∉ nodes q)
    (hcount : ∀ n, (nodes p).length ≤ n → f n + (nodes p).length = n + is.length) :
    ({ w with arena }.setChain p c f).Layout (Function.update nodes p is) := by
  have hstrung : arena.Strung (Function.update w.chain p c) (Function.update nodes p is) :=
    Arena.Strung.update ⟨h.linked, h.apart⟩ hc hother hapart
  have hchain : ({ w with arena }.setChain p c f).chain = Function.update w.chain p c := by
    funext q
    rw [chain_setChain, Function.update_apply]
    rfl
  refine ⟨fun q => ?_, hstrung.apart, fun k => ?_⟩
  · rw [arena_setChain, hchain]
    exact hstrung.linked q
  · have hk : ({ w with arena } : Wheel α).count k = ∑ s, (nodes (.slot k s)).length := h.count k
    rw [count_setChain, hk]
    by_cases hp : ∃ s, p = .slot k s
    · obtain ⟨s, rfl⟩ := hp
      have hle : (nodes (.slot k s)).length ≤ ∑ t, (nodes (.slot k t)).length :=
        Finset.single_le_sum (f := fun t => (nodes (.slot k t)).length) (fun _ _ => Nat.zero_le _)
          (Finset.mem_univ s)
      have hsum := sum_length_update nodes k s is
      have hn := hcount _ hle
      simp only [Place.slot.injEq, true_and, exists_eq', if_true]
      omega
    · have hne : ∀ s, Place.slot k s ≠ p := fun s e => hp ⟨s, e.symm⟩
      simp [hp, Function.update_of_ne (hne _)]

end Wheel

end ActorSystem.Timer
