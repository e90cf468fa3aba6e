import ActorSystem.Proofs.Sleeping

/-!
How often a wheel is looked at makes no difference. However the time up to some tick is cut into
executions, and however an execution is cut into shorter ones, the same timers come out in the same
order, and the wheel is the same in the end.
-/

set_option autoImplicit false

namespace ActorSystem.Timer.Wheel

variable {α : Type} {w : Wheel α} {ps : List (Pending α)} {now later : Nat}

/-- What one call hands out, and after it a call on the wheel that it leaves. -/
def join (r : List (Expired α) × Wheel α) (f : Wheel α → List (Expired α) × Wheel α) :
    List (Expired α) × Wheel α := (r.1 ++ (f r.2).1, (f r.2).2)

/-- Executions at these times, up to these limits, one after the other. -/
def executeAll : List (UInt64 × Nat) → Wheel α → List (Expired α) × Wheel α
  | [], w => ([], w)
  | x :: xs, w => join (w.execute x.1 x.2) (executeAll xs)

/-- The `n + 1` ticks from `t` on, at each of which up to `max` timers may come out. -/
def everyTick (t : UInt64) (n max : Nat) : List (UInt64 × Nat) :=
  (List.range (n + 1)).map fun i => (t + UInt64.ofNat i, max)

/-- How the work of a wheel may be cut up. An execution is not limited if its limit is not below the
number of timers that are pending. -/
structure Paced (w : Wheel α) : Prop where
  unlimited : ∀ t m n, w.len ≤ m → w.len ≤ n → w.execute t m = w.execute t n
  times : ∀ t t' m m', t ≤ t' → t'.toNat < tickRange → w.len ≤ m → w.len ≤ m' →
    executeAll [(t, m), (t', m')] w = w.execute t' m'
  counts : ∀ t m n, executeAll [(t, m), (t, n)] w = w.execute t (m + n)
  ticks : ∀ t n m, t.toNat + n < tickRange → w.len ≤ m →
    executeAll (everyTick t n m) w = w.execute (t + UInt64.ofNat n) m

/-- What a poll does once nothing is behind the levels, with as many rounds as there are ticks. -/
def seek (now : Nat) (w : Wheel α) : Option (Expired α) × Wheel α :=
  pollRounds now (now + 1 - w.currentTick) w

theorem poll_eq (w : Wheel α) (now : UInt64) :
    w.poll now =
      match w.popOverdue with
      | some (i, v) => v.fire i
      | none => seek (tickOf now) w := rfl

theorem seek_stop (h : w.len = 0 ∨ now < w.currentTick) : seek now w = (none, w) := by
  unfold seek
  cases now + 1 - w.currentTick with
  | zero => rfl
  | succ n => rw [pollRounds, if_pos h]

/-- Nothing is taken from the finest level only if nothing hangs there. -/
theorem Sound.popCurrent_cases (h : w.Sound ps) :
    (w.popCurrent = none ∧ ∀ e ∈ ps, w.dial.locate e.due ≠ w.dial.currentPlace 0) ∨
      ∃ i v, w.popCurrent = some (i, v) ∧ (v.fire i).1.isSome = true := by
  rw [popCurrent_eq]
  by_cases hex : ∃ e ∈ ps, w.dial.locate e.due = w.dial.currentPlace 0
  · obtain ⟨pre, e, post, rfl, hloc, hpre⟩ := exists_first hex
    obtain ⟨i, v, hpop, hfire, -⟩ := h.fire_pop (e := e) (by rwa [hloc])
    exact .inr ⟨i, v, hloc ▸ hpop, by rw [hfire]; rfl⟩
  · have hempty : ∀ e ∈ ps, w.dial.locate e.due ≠ w.dial.currentPlace 0 :=
      fun e he hl => hex ⟨e, he, hl⟩
    exact .inl ⟨h.filed.pop_none hempty, hempty⟩

theorem seek_fire {i : Nat} {v : Wheel α} (hgo : ¬ (w.len = 0 ∨ now < w.currentTick))
    (hpop : w.popCurrent = some (i, v)) : seek now w = v.fire i := by
  obtain ⟨n, hn⟩ : ∃ n, now + 1 - w.currentTick = n + 1 := ⟨now - w.currentTick, by omega⟩
  rw [seek, hn, pollRounds, if_neg hgo, hpop]

theorem Sound.pollRounds_eq_seek (h : w.Sound ps) (hnow : now < tickRange) {n : Nat}
    (hn : now + 1 ≤ w.currentTick + n) : Wheel.pollRounds now n w = seek now w := by
  -- on the ticks that are left: every round but the last takes at least one of them
  induction hk : now + 1 - w.currentTick using Nat.strong_induction_on generalizing w n with
  | _ k ih =>
    by_cases hstop : w.len = 0 ∨ now < w.currentTick
    · rw [seek_stop hstop]
      cases n with
      | zero => rfl
      | succ n => rw [Wheel.pollRounds, if_pos hstop]
    · obtain ⟨n, rfl⟩ : ∃ m, n = m + 1 := ⟨n - 1, by omega⟩
      have hle : w.currentTick ≤ now := by omega
      rcases h.popCurrent_cases with ⟨hnone, hempty⟩ | ⟨i, v, hpop, -⟩
      · obtain ⟨hs, hcur, -⟩ := h.advance hnow hle hempty
        have hpos := stride_pos hle
        obtain ⟨k, rfl⟩ : ∃ m, k = m + 1 := ⟨k - 1, by omega⟩
        have hrounds : ∀ m, now + 1 ≤ (w.advance now).currentTick + m →
            Wheel.pollRounds now m (w.advance now) = seek now (w.advance now) :=
          fun m hm => ih _ (by omega) hs hm rfl
        rw [seek, hk, Wheel.pollRounds, Wheel.pollRounds, if_neg hstop, if_neg hstop, hnone]
        dsimp only
        rw [hrounds n (by omega), hrounds k (by omega)]
      · rw [seek_fire hstop hpop, Wheel.pollRounds, if_neg hstop, hpop]

theorem Sound.seek_advance (h : w.Sound ps) (hnow : now < tickRange)
    (hgo : ¬ (w.len = 0 ∨ now < w.currentTick)) (hnone : w.popCurrent = none) :
    seek now w = seek now (w.advance now) := by
  have hle : w.currentTick ≤ now := by omega
  rcases h.popCurrent_cases with ⟨-, hempty⟩ | ⟨i, v, hpop, -⟩
  · obtain ⟨hs, hcur, -⟩ := h.advance hnow hle hempty
    have hpos := stride_pos hle
    obtain ⟨n, hn⟩ : ∃ n, now + 1 - w.currentTick = n + 1 :=
      ⟨now - w.currentTick, by omega⟩
    rw [seek, hn, Wheel.pollRounds, if_neg hgo, hnone]
    exact hs.pollRounds_eq_seek hnow (by omega)
  · rw [hpop] at hnone
    cases hnone

theorem skip_skip (w : Wheel α) (k : Fin 5) (m n : Nat) :
    (w.skip k m).skip k n = w.skip k (m + n) := by
  have hlevel : ∀ l : Level, (l.skip k m).skip k n = l.skip k (m + n) := by
    intro l
    have hindex : Fin.ofNat 256 ((Fin.ofNat 256 (l.index.val + m)).val + n) =
        Fin.ofNat 256 (l.index.val + (m + n)) := by
      apply Fin.ext
      simp only [Fin.ofNat]
      omega
    simp only [Level.skip, hindex, Nat.add_mul, Nat.add_assoc]
  rw [skip, skip, modifyLevel_modifyLevel]
  simp only [hlevel, skip]

/-- Two polls move the finest level on alike, or the earlier one stops short of the other in the
middle of the ring, on empty slots. -/
theorem stride_cases (hle : w.currentTick ≤ now) (hlater : now ≤ later) :
    w.stride now = w.stride later ∨
      w.finest.count = 0 ∧ w.stride now < w.finest.untilWrap ∧
        w.currentTick + w.stride now = now + 1 ∧ now < later := by
  simp only [currentTick] at hle ⊢
  unfold stride
  split <;> omega

/-- A jump that is cut where an earlier poll stops ends where it would have ended. -/
theorem advance_cut (hcount : w.finest.count = 0) (hshort : w.stride now < w.finest.untilWrap)
    (hstop : w.currentTick + w.stride now = now + 1) (hlater : now < later) :
    (w.skip 0 (w.stride now)).advance later = w.advance later := by
  have hwrap := w.untilWrap_eq
  have hidx := (w.dial 0).index.isLt
  have hbase : (w.skip 0 (w.stride now)).finest.base = now + 1 :=
    (w.base_stride now).trans hstop
  have hcount' : (w.skip 0 (w.stride now)).finest.count = 0 := by
    have hc := congrFun (w.count_skip 0 (w.stride now)) 0
    exact hc.trans hcount
  have hwrap' : (w.skip 0 (w.stride now)).finest.untilWrap = w.finest.untilWrap - w.stride now := by
    have hmod : ((w.dial 0).index.val + w.stride now) % 256 = (w.dial 0).index.val + w.stride now :=
      Nat.mod_eq_of_lt (by omega)
    rw [untilWrap_eq, dial_skip, Dial.index_move]
    simp only [Fin.ofNat, hmod]
    omega
  have hstride : (w.skip 0 (w.stride now)).stride later = w.stride later - w.stride now := by
    simp only [currentTick] at hstop
    rw [stride.eq_1 _ later, stride.eq_1 w later, if_pos hcount', if_pos hcount, hwrap', hbase]
    omega
  have hle : w.stride now ≤ w.stride later := by
    simp only [currentTick] at hstop
    rw [stride.eq_1 w later, if_pos hcount]
    omega
  have hend : w.stride later - w.stride now = w.finest.untilWrap - w.stride now ↔
      w.stride later = w.finest.untilWrap := by omega
  rw [advance_eq, advance_eq, hstride, hwrap', skip_skip, Nat.add_sub_cancel' hle]
  simp only [hend]

/-- Looking at an earlier time first takes what a look at the later time takes, or takes nothing and
leaves the rest of the way to the later one. -/
theorem Sound.seek_later (h : w.Sound ps) (hle : now ≤ later) (hlater : later < tickRange) :
    seek later w =
      if (seek now w).1.isSome then seek now w else seek later (seek now w).2 := by
  induction hk : now + 1 - w.currentTick using Nat.strong_induction_on generalizing w with
  | _ k ih =>
    by_cases hstop : w.len = 0 ∨ now < w.currentTick
    · rw [seek_stop hstop]
      rfl
    · have hgo : ¬ (w.len = 0 ∨ later < w.currentTick) := by omega
      rcases h.popCurrent_cases with ⟨hnone, hempty⟩ | ⟨i, v, hpop, hsome⟩
      · have hreached : w.currentTick ≤ now := by omega
        have hnow : now < tickRange := by omega
        obtain ⟨hs, hcur, -⟩ := h.advance hnow hreached hempty
        have hpos := stride_pos hreached
        rw [h.seek_advance hnow hstop hnone, h.seek_advance hlater hgo hnone]
        rcases stride_cases hreached hle with hsame | ⟨hcount, hshort, hend, hlt⟩
        · have hadvance : w.advance later = w.advance now := by
            rw [advance_eq, advance_eq, hsame]
          rw [hadvance]
          exact ih _ (by omega) hs rfl
        -- the earlier look ends in the middle of the jump
        · have hskip : w.advance now = w.skip 0 (w.stride now) := by
            rw [advance_eq, if_neg (Nat.ne_of_lt hshort)]
          rw [hskip] at hs hcur ⊢
          have hlen : (w.skip 0 (w.stride now)).len = w.len :=
            congrArg Books.len (w.books_skip 0 (w.stride now))
          have hgo' : ¬ ((w.skip 0 (w.stride now)).len = 0 ∨
              later < (w.skip 0 (w.stride now)).currentTick) := by omega
          have hnone' : (w.skip 0 (w.stride now)).popCurrent = none := by
            have hcount' : (w.skip 0 (w.stride now)).count 0 = 0 := by
              rw [count_skip]
              exact hcount
            rw [popCurrent_eq]
            exact hs.filed.pop_none fun e he => hs.filed.locate_ne_of_count hcount' he _
          have hdone : seek now (w.skip 0 (w.stride now)) = (none, w.skip 0 (w.stride now)) :=
            seek_stop (.inr (by omega))
          rw [hdone]
          simp only [Option.isSome_none, Bool.false_eq_true, if_false]
          rw [hs.seek_advance hlater hgo' hnone', advance_cut hcount hshort hend hlt]
      · rw [seek_fire hstop hpop, seek_fire hgo hpop, hsome, if_pos rfl]

theorem Sound.poll_later (h : w.Sound ps) {t t' : UInt64} (hle : tickOf t ≤ tickOf t') :
    w.poll t' = if (w.poll t).1.isSome then w.poll t else (w.poll t).2.poll t' := by
  cases hpop : w.popOverdue with
  | some x =>
    obtain ⟨pre, e, post, rfl, hloc, hpre⟩ : ∃ pre e post, ps = pre ++ e :: post ∧
        w.dial.locate e.due = .overdue ∧ ∀ x ∈ pre, ¬ w.dial.locate x.due = .overdue := by
      refine exists_first ?_
      by_contra hnone
      rw [popOverdue_eq, h.filed.pop_none fun e he hl => hnone ⟨e, he, hl⟩] at hpop
      cases hpop
    obtain ⟨i, v, hfirst, hfire, -⟩ := h.fire_pop (e := e) (by rwa [hloc])
    rw [hloc, ← popOverdue_eq] at hfirst
    rw [poll_eq w t, poll_eq w t', hfirst]
    dsimp only
    rw [hfire, Option.isSome_some, if_pos rfl]
  | none =>
    have hfirst : w.poll t = seek (tickOf t) w := by rw [poll_eq, hpop]
    have hsecond : w.poll t' = seek (tickOf t') w := by rw [poll_eq, hpop]
    rw [hsecond, h.seek_later hle (tickOf_lt t'), ← hfirst]
    cases hfound : (w.poll t).1 with
    | some e => rfl
    | none =>
      obtain ⟨hs, hmin⟩ := h.of_poll_none hfound
      have hempty := hs.filed.isEmpty_overdue_iff.1 (hs.filed.isEmpty_overdue hmin)
      rw [poll_eq (w.poll t).2, popOverdue_eq, hs.filed.pop_none hempty]

theorem execute_fire {t : UInt64} {e : Expired α} (hfound : (w.poll t).1 = some e) (max : Nat) :
    w.execute t (max + 1) =
      (e :: ((w.poll t).2.finish.execute t max).1, ((w.poll t).2.finish.execute t max).2) := by
  rw [execute_succ, hfound]

theorem execute_idle {t : UInt64} (hnone : (w.poll t).1 = none) (max : Nat) :
    w.execute t (max + 1) = ([], (w.poll t).2) := by
  rw [execute_succ, hnone]

theorem Sound.len_poll (h : w.Sound ps) (t : UInt64) :
    (w.poll t).2.len + (if (w.poll t).1.isSome then 1 else 0) = w.len := by
  have hlen := h.filed.len
  have hp := h.poll t
  generalize w.poll t = r at hp ⊢
  cases hp with
  | idle v hv hdue hcur hmin hb => exact congrArg Books.len hb
  | overdue pre post e v heq hdue hpre hv hcur hb
  | due pre post e v heq hdue hpre hpost hv hcur hb =>
    have hv' := congrArg Books.len hb
    rw [heq, List.length_append, List.length_cons] at hlen
    simp only [books, Option.isSome_some, if_true] at hv' ⊢
    omega

theorem Sound.poll_fired (h : w.Sound ps) {t : UInt64} {e : Expired α}
    (hfound : (w.poll t).1 = some e) :
    (w.poll t).2.finish.len + 1 = w.len ∧ ∃ qs, (w.poll t).2.finish.Sound qs := by
  have hlen := h.len_poll t
  obtain ⟨⟨qs, hq⟩, -⟩ := (h.poll t).sound h
  rw [hfound] at hlen
  exact ⟨hlen, qs, hq.finish⟩

theorem Sound.poll_nothing (h : w.Sound ps) (hlen : w.len = 0) (t : UInt64) :
    w.poll t = (none, w) := by
  obtain rfl : ps = [] := List.eq_nil_of_length_eq_zero (h.filed.len ▸ hlen)
  rw [poll_eq, popOverdue_eq, h.filed.pop_none (by simp)]
  exact seek_stop (.inl hlen)

theorem Sound.execute_nothing (h : w.Sound ps) (hlen : w.len = 0) (t : UInt64) (max : Nat) :
    w.execute t max = ([], w) := by
  cases max with
  | zero => rfl
  | succ max =>
    have hpoll := h.poll_nothing hlen t
    rw [execute_idle (by rw [hpoll]), hpoll]

theorem Sound.execute_unlimited (h : w.Sound ps) (t : UInt64) {m n : Nat} (hm : w.len ≤ m)
    (hn : w.len ≤ n) : w.execute t m = w.execute t n := by
  induction m generalizing w ps n with
  | zero => rw [h.execute_nothing (by omega), h.execute_nothing (by omega)]
  | succ m ih =>
    cases n with
    | zero => rw [h.execute_nothing (by omega), h.execute_nothing (by omega)]
    | succ n =>
      cases hfound : (w.poll t).1 with
      | none => rw [execute_idle hfound, execute_idle hfound]
      | some e =>
        obtain ⟨hlen, qs, hq⟩ := h.poll_fired hfound
        have hrest := ih hq (n := n) (by omega) (by omega)
        rw [execute_fire hfound, execute_fire hfound, hrest]

/-- An execution after one at the same or an earlier time that found no more timers goes on from
where that one stopped. -/
theorem Sound.execute_after_idle (h : w.Sound ps) {t t' : UInt64} (hle : tickOf t ≤ tickOf t')
    (hnone : (w.poll t).1 = none) (n : Nat) :
    (w.poll t).2.execute t' (n + 1) = w.execute t' (n + 1) := by
  have hpoll := h.poll_later hle
  rw [hnone, Option.isSome_none, if_neg Bool.false_ne_true] at hpoll
  rw [execute_succ, execute_succ, hpoll]

theorem Sound.poll_later_fired (h : w.Sound ps) {t t' : UInt64} {e : Expired α}
    (hle : tickOf t ≤ tickOf t') (hfound : (w.poll t).1 = some e) : w.poll t' = w.poll t := by
  rw [h.poll_later hle, hfound, Option.isSome_some, if_pos rfl]

theorem Sound.execute_later (h : w.Sound ps) {t t' : UInt64} (hle : tickOf t ≤ tickOf t')
    {m n : Nat} (hm : w.len ≤ m) (hn : w.len ≤ n) :
    join (w.execute t m) (fun v => v.execute t' n) = w.execute t' n := by
  induction m generalizing w ps n with
  | zero => rfl
  | succ m ih =>
    cases n with
    | zero =>
      have hlen : w.len = 0 := by omega
      rw [h.execute_nothing hlen, h.execute_nothing hlen]
      exact congrArg (join ([], w)) (funext fun v => rfl)
    | succ n =>
      cases hfound : (w.poll t).1 with
      | none =>
        rw [execute_idle hfound]
        exact h.execute_after_idle hle hfound n
      | some e =>
        obtain ⟨hlen, qs, hq⟩ := h.poll_fired hfound
        have hlater := h.poll_later_fired hle hfound
        have hrest := ih hq (n := n + 1) (by omega) (by omega)
        have hfired : w.execute t' (n + 1) =
            (e :: ((w.poll t).2.finish.execute t' n).1, ((w.poll t).2.finish.execute t' n).2) := by
          rw [execute_fire (hlater ▸ hfound), hlater]
        rw [hfired, hq.execute_unlimited t' (m := n) (n := n + 1) (by omega) (by omega), ← hrest,
          execute_fire hfound]
        rfl

/-- Two executions at one time are one with the sum of their limits. -/
theorem Sound.execute_add (h : w.Sound ps) (t : UInt64) (m n : Nat) :
    join (w.execute t m) (fun v => v.execute t n) = w.execute t (m + n) := by
  induction m generalizing w ps with
  | zero => rw [Nat.zero_add]; rfl
  | succ m ih =>
    rw [Nat.add_right_comm]
    cases hfound : (w.poll t).1 with
    | none =>
      rw [execute_idle hfound, execute_idle hfound]
      cases n with
      | zero => rfl
      | succ n =>
        have hidle := h.execute_after_idle (le_refl (tickOf t)) hfound n
        rw [execute_idle hfound] at hidle
        exact hidle
    | some e =>
      obtain ⟨-, qs, hq⟩ := h.poll_fired hfound
      have hrest := ih hq
      rw [execute_fire hfound, execute_fire hfound, ← hrest]
      rfl

theorem Sound.len_execute (h : w.Sound ps) (t : UInt64) (max : Nat) :
    (w.execute t max).2.len ≤ w.len := by
  induction max generalizing w ps with
  | zero => exact Nat.le_refl _
  | succ max ih =>
    cases hfound : (w.poll t).1 with
    | none =>
      have hlen := h.len_poll t
      rw [execute_idle hfound]
      exact Nat.le_of_add_right_le hlen.le
    | some e =>
      obtain ⟨hlen, qs, hq⟩ := h.poll_fired hfound
      have hrest := ih hq
      rw [execute_fire hfound]
      dsimp only
      omega

/-- Unlimited executions at no later times change nothing, however many there are. -/
theorem Sound.executeAll_concat (h : w.Sound ps) {t : UInt64} {n : Nat} (hn : w.len ≤ n)
    (xs : List (UInt64 × Nat)) (hxs : ∀ x ∈ xs, tickOf x.1 ≤ tickOf t ∧ w.len ≤ x.2) :
    executeAll (xs ++ [(t, n)]) w = w.execute t n := by
  induction xs generalizing w ps with
  | nil => simp [executeAll, join]
  | cons x xs ih =>
    obtain ⟨hle, hm⟩ := hxs x (by simp)
    obtain ⟨⟨qs, hq⟩, -⟩ := h.execute x.1 x.2
    have hlen := h.len_execute x.1 x.2
    have hrest := ih hq (hlen.trans hn) fun y hy =>
      ⟨(hxs y (by simp [hy])).1, hlen.trans (hxs y (by simp [hy])).2⟩
    have hlater := h.execute_later hle hm hn
    simp only [List.cons_append, executeAll, join] at hrest hlater ⊢
    rw [hrest, hlater]

theorem everyTick_eq (t : UInt64) (n max : Nat) :
    everyTick t n max =
      (List.range n).map (fun i => (t + UInt64.ofNat i, max)) ++ [(t + UInt64.ofNat n, max)] := by
  simp [everyTick, List.range_succ]

theorem tickOf_add {t : UInt64} {i : Nat} (hi : t.toNat + i < tickRange) :
    tickOf (t + UInt64.ofNat i) = t.toNat + i := by
  have hword : t.toNat + i < 2 ^ 64 := hi.trans (by decide)
  have hsum : (t + UInt64.ofNat i).toNat = t.toNat + i := by
    rw [UInt64.toNat_add, UInt64.toNat_ofNat']
    omega
  rw [tickOf, hsum, Nat.mod_eq_of_lt hi]

theorem Sound.paced (h : w.Sound ps) : w.Paced := by
  refine ⟨fun t m n hm hn => h.execute_unlimited t hm hn, fun t t' m m' hle hlt hm hm' => ?_,
    fun t m n => ?_, fun t n m hlt hm => ?_⟩
  · refine h.executeAll_concat hm' [(t, m)] ?_
    have hnat : t.toNat ≤ t'.toNat := UInt64.le_iff_toNat_le.1 hle
    have hticks : tickOf t ≤ tickOf t' := by
      rw [tickOf, tickOf, Nat.mod_eq_of_lt hlt, Nat.mod_eq_of_lt (hnat.trans_lt hlt)]
      exact hnat
    simpa using ⟨hticks, hm⟩
  · rw [← h.execute_add t m n]
    simp [executeAll, join]
  · rw [everyTick_eq]
    refine h.executeAll_concat hm _ fun x hx => ?_
    obtain ⟨i, hi, rfl⟩ := List.mem_map.1 hx
    have hin := List.mem_range.1 hi
    rw [tickOf_add hlt, tickOf_add (by omega)]
    exact ⟨by omega, hm⟩

/-- After any calls, at whatever times: executing up to some time and then up to a later one is
executing up to the later one, at every single tick in between or at once; and so for the limits. -/
theorem execute_paced (start limit : UInt64) (cs : List (Call α)) :
    Paced (after start limit cs) := by
  obtain ⟨⟨ps, hs⟩, -⟩ := (Sound.start (α := α) start limit).serve cs
  exact hs.paced

end ActorSystem.Timer.Wheel
