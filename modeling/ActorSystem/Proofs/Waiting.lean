import ActorSystem.Proofs.Refinement
import ActorSystem.Proofs.Unfailing

set_option autoImplicit false

namespace ActorSystem.Timer

variable {α : Type}

namespace Wheel

variable {w : Wheel α} {ps : List (Pending α)} {e : Pending α}

theorem nextWake_eq (w : Wheel α) (now : UInt64) :
    w.nextWake now =
      if !w.overdue.isEmpty then some 0
      else if w.len = 0 then none
      else some (w.currentTick + w.lookahead - tickOf now) := rfl

/-- The chain of a place where a timer belongs is not empty. -/
theorem Filed.isEmpty_chain (h : w.Filed ps) (he : e ∈ ps) :
    (w.chain (w.dial.locate e.due)).isEmpty = false := by
  rw [← Bool.not_eq_true, (h.layout.linked _).isEmpty_iff, placed_eq_nil]
  exact fun hnone => hnone e he rfl

theorem find?_range_le_of {p : Nat → Bool} {n k : Nat} (hk : k < n) (hp : p k = true) :
    ((List.range n).find? p).getD n ≤ k := by
  cases hf : (List.range n).find? p with
  | none => exact absurd hp (List.find?_eq_none.1 hf k (List.mem_range.2 hk))
  | some i =>
    obtain ⟨-, -, hfirst⟩ := List.find?_range_eq_some.1 hf
    by_contra hlt
    have hnot := hfirst k (Nat.lt_of_not_le hlt)
    rw [hp] at hnot
    cases hnot

/-- The wheel looks no further than the first timer: one of the finest level is in the part of the
ring that is still ahead, and those of the other levels are behind its end. -/
theorem Sound.lookahead_le_due (h : w.Sound ps) (he : e ∈ ps) {k : Fin 5} {s : Fin 256}
    (hl : w.dial.locate e.due = .slot k s) : w.currentTick + w.lookahead ≤ e.due := by
  have hbase := Dial.base_le_of_locate hl
  rw [currentTick_eq]
  by_cases hk : k = 0
  · subst hk
    have hcount : w.finest.count ≠ 0 := fun hcount => h.filed.locate_ne_of_count hcount he s hl
    have hoffset : w.dial.offset 0 e.due = e.due - (w.dial 0).base := by
      simp [Dial.offset, Level.unit]
    have hlt := h.aligned.offset_lt hl (by decide)
    rw [hoffset] at hlt
    have hslot : s = Fin.ofNat 256 (w.finest.index.val + (e.due - (w.dial 0).base)) := by
      rw [← hoffset]
      exact ((w.dial.locate_eq_slot_iff e.due 0 s).1 hl).2.2
    have hchain := h.filed.isEmpty_chain he
    rw [hl, hslot] at hchain
    have hfound : w.lookahead ≤ e.due - (w.dial 0).base := by
      rw [lookahead, if_neg hcount]
      refine find?_range_le_of hlt ?_
      rw [Bool.not_eq_true']
      exact hchain
    omega
  · have hlook := w.lookahead_le
    rw [untilWrap_eq] at hlook
    have hone := h.aligned.one
    have hle := h.aligned.one_le hk
    omega

theorem Sound.nextWake_of_due (h : w.Sound ps) (he : e ∈ ps) {now : UInt64}
    (hdue : e.due ≤ tickOf now) : w.nextWake now = some 0 := by
  have hlen : w.len ≠ 0 := by
    rw [h.filed.len]
    exact Nat.ne_of_gt (List.length_pos_of_mem he)
  rw [nextWake_eq]
  cases hl : w.dial.locate e.due with
  | overdue =>
    have hchain := h.filed.isEmpty_chain he
    rw [hl] at hchain
    have hoverdue : w.overdue.isEmpty = false := hchain
    rw [hoverdue]
    rfl
  | slot k s =>
    have hle := h.lookahead_le_due he hl
    rw [if_neg hlen, Nat.sub_eq_zero_of_le (hle.trans hdue)]
    split <;> rfl

end Wheel

theorem Mirrors.not_due {a : Agenda α} {w : Wheel α} {ps : List (Pending α)} {t now : UInt64}
    (h : Mirrors a w ps t) (hnow : now.toNat < tickRange) (hwake : w.nextWake now ≠ some 0) :
    ∀ e ∈ a.timers, now.toNat < e.due := by
  intro e he
  obtain ⟨p, hp, rfl⟩ := List.mem_map.1 (h.perm.subset he)
  by_contra hlt
  refine hwake (h.sound.nextWake_of_due hp ?_)
  rw [Mirrors.tickOf_eq hnow]
  exact Nat.le_of_not_lt hlt

end ActorSystem.Timer
