import ActorSystem.Proofs.Cancelling
import ActorSystem.Proofs.Waiting

/-!
An owner that sleeps as long as the wheel allows misses no timer, and one that has been told not to
sleep finds something to do.
-/

set_option autoImplicit false

namespace ActorSystem.Timer.Wheel

variable {α : Type} {w : Wheel α} {ps : List (Pending α)}

structure Sleeps (w : Wheel α) (now : UInt64) : Prop where
  forever : w.nextWake now = none ↔ ∀ p, w.waiting p = []
  untouched : ∀ d, w.nextWake now = some d → ∀ t : UInt64, now ≤ t → t.toNat < now.toNat + d →
    t.toNat < tickRange → (w.poll t).1 = none
  progress : w.nextWake now = some 0 →
    (w.poll now).1.isSome = true ∨ w.currentTick < (w.poll now).2.currentTick
  rest : (w.poll now).1 = none → (w.poll now).2.nextWake now ≠ some 0

/-- Nothing is behind the levels when the overdue chain is empty. -/
theorem Sound.lookahead_le_of_overdue (h : w.Sound ps) (hover : w.overdue.isEmpty = true) :
    ∀ e ∈ ps, w.currentTick + w.lookahead ≤ e.due := by
  intro e he
  have hchain := h.filed.isEmpty_chain he
  cases hl : w.dial.locate e.due with
  | overdue =>
    rw [hl] at hchain
    exact absurd hover (ne_true_of_eq_false hchain)
  | slot k s => exact h.lookahead_le_due he hl

theorem Filed.isEmpty_overdue_iff (h : w.Filed ps) :
    w.overdue.isEmpty = true ↔ ∀ e ∈ ps, w.dial.locate e.due ≠ .overdue :=
  (h.layout.linked .overdue).isEmpty_iff.trans placed_eq_nil

theorem Filed.isEmpty_overdue (h : w.Filed ps) (hlevels : ∀ e ∈ ps, w.currentTick ≤ e.due) :
    w.overdue.isEmpty = true := by
  refine h.isEmpty_overdue_iff.2 fun e he hl => ?_
  have hlt : e.due < w.currentTick := (Dial.locate_eq_overdue_iff _ _).1 hl 0
  exact absurd (hlevels e he) (Nat.not_le_of_lt hlt)

theorem Filed.waiting_eq_nil_iff (h : w.Filed ps) : (∀ p, w.waiting p = []) ↔ ps = [] := by
  simp only [List.eq_nil_iff_forall_not_mem]
  have hall := h.exists_waiting_iff (q := fun _ => True)
  simp only [and_true] at hall
  exact ⟨fun hnone e he => by
      obtain ⟨p, x, hx⟩ := hall.2 ⟨e, he⟩
      exact hnone p x hx,
    fun hnone p e he => hnone e (h.mem_of_waiting he)⟩

/-- A poll that finds nothing has passed all ticks up to the present one. -/
theorem Sound.pollRounds_past (h : w.Sound ps) {now n : Nat} (hnow : now < tickRange)
    (hn : now + 1 ≤ w.currentTick + n) (hps : ps ≠ [])
    (hnone : (Wheel.pollRounds now n w).1 = none) :
    now < (Wheel.pollRounds now n w).2.currentTick := by
  induction n generalizing w with
  | zero => exact hn
  | succ n ih =>
    unfold Wheel.pollRounds at hnone ⊢
    have hlen : w.len ≠ 0 := fun hlen => hps (List.length_eq_zero_iff.1 (h.filed.len ▸ hlen))
    split at hnone
    · rename_i hstop
      rw [if_pos hstop]
      exact hstop.resolve_left hlen
    · rename_i hgo
      rw [if_neg hgo]
      have hle : w.currentTick ≤ now := by omega
      rw [popCurrent_eq] at hnone ⊢
      by_cases hex : ∃ e ∈ ps, w.dial.locate e.due = w.dial.currentPlace 0
      · obtain ⟨pre, e, post, rfl, hloc, hpre⟩ := exists_first hex
        obtain ⟨i, v, hpop, hfire, -⟩ := h.fire_pop (e := e) (by rwa [hloc])
        rw [← hloc, hpop] at hnone
        rw [hfire] at hnone
        cases hnone
      · have hempty : ∀ e ∈ ps, w.dial.locate e.due ≠ w.dial.currentPlace 0 :=
          fun e he hl => hex ⟨e, he, hl⟩
        rw [h.filed.pop_none hempty] at hnone ⊢
        obtain ⟨hs, hcur, -⟩ := h.advance hnow hle hempty
        have hpos := stride_pos hle
        exact ih hs (by omega) hnone

theorem Sound.locate_of_poll_none (h : w.Sound ps) {now : UInt64} (hnone : (w.poll now).1 = none) :
    ∀ e ∈ ps, w.dial.locate e.due ≠ .overdue := by
  intro e he hl
  obtain ⟨pre, e, post, rfl, hloc, hpre⟩ :=
    exists_first (p := fun x => w.dial.locate x.due = .overdue) ⟨e, he, hl⟩
  obtain ⟨i, v, hpop, hfire, -⟩ := h.fire_pop (e := e) (by rwa [hloc])
  rw [Wheel.poll, popOverdue_eq, ← hloc, hpop] at hnone
  rw [hfire] at hnone
  cases hnone

theorem Sound.poll_past (h : w.Sound ps) {now : UInt64} (hps : ps ≠ [])
    (hnone : (w.poll now).1 = none) : tickOf now < (w.poll now).2.currentTick := by
  have hpop := h.filed.pop_none (h.locate_of_poll_none hnone)
  rw [Wheel.poll, popOverdue_eq, hpop] at hnone ⊢
  exact h.pollRounds_past (tickOf_lt now) (by omega) hps hnone

theorem Sound.poll_eq_none (h : w.Sound ps) {now : UInt64}
    (hlater : ∀ e ∈ ps, tickOf now < e.due ∧ w.currentTick ≤ e.due) : (w.poll now).1 = none := by
  have hp := h.poll now
  generalize w.poll now = r at hp ⊢
  cases hp with
  | idle => rfl
  | overdue pre post e v heq hdue =>
    have := (hlater e (by simp [heq])).2
    omega
  | due pre post e v heq hdue =>
    have := (hlater e (by simp [heq])).1
    omega

/-- What is known of the timers once a poll has found nothing. -/
theorem Sound.of_poll_none (h : w.Sound ps) {now : UInt64} (hnone : (w.poll now).1 = none) :
    (w.poll now).2.Sound ps ∧ ∀ e ∈ ps, (w.poll now).2.currentTick ≤ e.due := by
  have hp := h.poll now
  generalize w.poll now = r at hp hnone ⊢
  cases hp with
  | idle v hv hdue hcur hmin => exact ⟨hv, hmin⟩
  | overdue => cases hnone
  | due => cases hnone

theorem Sound.nextWake_eq_none_iff (h : w.Sound ps) (now : UInt64) :
    w.nextWake now = none ↔ ∀ p, w.waiting p = [] := by
  rw [h.filed.waiting_eq_nil_iff, nextWake_eq]
  constructor
  · intro hnone
    split at hnone
    · cases hnone
    · split at hnone
      · rename_i hlen
        exact List.eq_nil_of_length_eq_zero (h.filed.len ▸ hlen)
      · cases hnone
  · rintro rfl
    have hover := h.filed.isEmpty_overdue (by simp)
    have hlen : w.len = 0 := h.filed.len
    rw [hover, if_pos hlen]
    rfl

theorem Sound.poll_before_wake (h : w.Sound ps) {now t : UInt64} {d : Nat}
    (hnow : now.toNat < tickRange) (ht : t.toNat < tickRange) (hwake : w.nextWake now = some d)
    (hle : now ≤ t) (hlt : t.toNat < now.toNat + d) : (w.poll t).1 = none := by
  have hnat := UInt64.le_iff_toNat_le.1 hle
  rw [nextWake_eq, Mirrors.tickOf_eq hnow] at hwake
  split at hwake
  · have hzero := Option.some.inj hwake
    omega
  · rename_i hover
    split at hwake
    · cases hwake
    · have hd := Option.some.inj hwake
      refine h.poll_eq_none fun e he => ?_
      have hdue := h.lookahead_le_of_overdue (by simpa using hover) e he
      rw [Mirrors.tickOf_eq ht]
      omega

theorem Sound.poll_progress (h : w.Sound ps) {now : UInt64} (hwake : w.nextWake now = some 0) :
    (w.poll now).1.isSome = true ∨ w.currentTick < (w.poll now).2.currentTick := by
  cases hp : (w.poll now).1 with
  | some e => exact .inl rfl
  | none =>
    right
    have hps : ps ≠ [] := by
      rintro rfl
      rw [(h.nextWake_eq_none_iff now).2 (h.filed.waiting_eq_nil_iff.2 rfl)] at hwake
      cases hwake
    have hpast := h.poll_past hps hp
    rw [nextWake_eq, h.filed.isEmpty_overdue_iff.2 (h.locate_of_poll_none hp)] at hwake
    simp only [Bool.not_true, Bool.false_eq_true, if_false] at hwake
    split at hwake
    · cases hwake
    · have := Option.some.inj hwake
      omega

theorem Sound.nextWake_after_poll (h : w.Sound ps) {now : UInt64} (hnone : (w.poll now).1 = none) :
    (w.poll now).2.nextWake now ≠ some 0 := by
  obtain ⟨hv, hmin⟩ := h.of_poll_none hnone
  have hover := hv.filed.isEmpty_overdue hmin
  rw [nextWake_eq, hover]
  by_cases hlen : (w.poll now).2.len = 0
  · simp [hlen]
  · have hps : ps ≠ [] := by
      rintro rfl
      exact hlen hv.filed.len
    have hpast := h.poll_past hps hnone
    simp only [Bool.not_true, Bool.false_eq_true, if_false, hlen, ne_eq, Option.some.injEq]
    omega

/-- After any calls, at whatever times, the wheel lets its owner sleep until there is work for it,
and no longer. -/
theorem nextWake_exact (start limit : UInt64) (cs : List (Call α)) (now : UInt64)
    (hnow : now.toNat < tickRange) : Sleeps (after start limit cs) now := by
  obtain ⟨⟨ps, hs⟩, -⟩ := (Sound.start (α := α) start limit).serve cs
  exact ⟨hs.nextWake_eq_none_iff now,
    fun d hwake t hle hlt ht => hs.poll_before_wake hnow ht hwake hle hlt,
    hs.poll_progress, hs.nextWake_after_poll⟩

/-- The timer is due at the tick at which the finest level goes round, and has not come down to it. -/
theorem nextWake_exact_before_wrap :
    Sleeps (after 250 1000 [.add 250 300 'a']) 505 ∧
      (after 250 1000 [.add 250 300 'a']).nextWake 505 = some 1 :=
  ⟨nextWake_exact 250 1000 [.add 250 300 'a'] 505 (by decide), rfl⟩

end ActorSystem.Timer.Wheel
