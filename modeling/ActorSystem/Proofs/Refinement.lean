import ActorSystem.Proofs.Agenda

/-!
As long as time does not run backwards, and sequence numbers are not used twice, the wheel answers
every call as the plain list does.
-/

set_option autoImplicit false

namespace ActorSystem.Timer

variable {α : Type}

/-- The wheel holds the timers of the agenda at time `t`. What waits behind the levels is due at the
tick just passed, so that the order there is the order of adding. -/
structure Mirrors (a : Agenda α) (w : Wheel α) (ps : List (Pending α)) (t : UInt64) : Prop where
  sound : w.Sound ps
  perm : a.timers.Perm (ps.map Pending.expired)
  seq : w.seq = a.added.length
  running : w.running = a.running
  awake : w.running ≠ some 0
  maxDelay : w.maxDelay = a.maxDelay
  order : ps.Pairwise fun x y => x.seq < y.seq
  old : ∀ e ∈ ps, e.seq ≤ w.seq
  clock : w.currentTick ≤ t.toNat + 1
  late : ∀ e ∈ ps, w.currentTick ≤ e.due + 1
  fired : w.fired = a.fired.length
  cancelled : w.cancelled = a.cancelled.length

namespace Mirrors

variable {a : Agenda α} {w : Wheel α} {ps : List (Pending α)} {t now : UInt64}

theorem later (h : Mirrors a w ps t) (hle : t ≤ now) : Mirrors a w ps now := by
  have hclock := h.clock
  have hnat := UInt64.le_iff_toNat_le.1 hle
  exact ⟨h.sound, h.perm, h.seq, h.running, h.awake, h.maxDelay, h.order, h.old, by omega, h.late,
    h.fired, h.cancelled⟩

theorem start (now limit : UInt64) :
    Mirrors (Agenda.start limit : Agenda α) (Wheel.withMaxDelay now limit) [] now := by
  refine ⟨Wheel.Sound.start now limit, .refl _, rfl, rfl, by simp [Wheel.withMaxDelay], rfl, .nil,
    by simp, ?_, by simp, rfl, rfl⟩
  rw [Wheel.currentTick_eq, Wheel.dial_withMaxDelay]
  exact (Nat.mod_le _ _).trans (Nat.le_succ _)

theorem tickOf_eq (hnow : now.toNat < tickRange) : tickOf now = now.toNat := Nat.mod_eq_of_lt hnow

theorem nextSeq_eq {n : Nat} (h : n + 1 ≤ 2 ^ 24 - 2) : nextSeq n = n + 1 := by
  have hlimit : ¬ seqLimit ≤ n + 1 := by
    simp only [seqLimit, seqRange, Nat.reduceShiftLeft]
    omega
  simp [nextSeq, hlimit]

theorem add (h : Mirrors a w ps now) (hnow : now.toNat < tickRange)
    (hfew : a.added.length + 1 ≤ 2 ^ 24 - 2) (delay : UInt64) (payload : α) :
    (w.add now delay payload).1 = (a.add now delay payload).1 ∧
      ∃ qs, Mirrors (a.add now delay payload).2 (w.add now delay payload).2 qs now := by
  obtain ⟨e, hseq, hpay, hdue, hid, hs, hcur, hb⟩ := h.sound.add now delay payload
  rw [h.seq, nextSeq_eq hfew] at hseq
  rw [tickOf_eq hnow, h.maxDelay] at hdue
  have hexp : e.expired = a.next now delay payload := by
    simp only [Pending.expired, hseq, hdue, hpay, Agenda.next]
  simp only [Wheel.books, Wheel.Books.mk.injEq] at hb
  obtain ⟨hb₁, hb₂, hb₃, hb₄, hb₅, hb₆⟩ := hb
  have hticks : now.toNat ≤ e.due := by omega
  have hclock := h.clock
  refine ⟨by rw [hid, hexp]; rfl, ps ++ [e], hs, ?_, ?_, hb₃.trans h.running, ?_,
    hb₄.trans h.maxDelay, ?_, fun x hx => ?_, ?_, fun x hx => ?_, hb₅.trans h.fired,
    hb₆.trans h.cancelled⟩
  · rw [List.map_append, List.map_singleton, hexp]
    refine (Agenda.perm_place _ _).trans ?_
    exact (h.perm.cons _).trans (List.perm_append_singleton _ _).symm
  · rw [hb₁, h.seq, nextSeq_eq hfew]
    simp [Agenda.add]
  · rw [hb₃]
    exact h.awake
  · rw [List.pairwise_append]
    refine ⟨h.order, List.pairwise_singleton _ _, fun x hx y hy => ?_⟩
    have hold := h.old x hx
    rw [h.seq] at hold
    rw [List.mem_singleton.1 hy]
    omega
  · rw [hb₁, h.seq, nextSeq_eq hfew]
    rcases List.mem_append.1 hx with hx | hx
    · have hold := h.old x hx
      rw [h.seq] at hold
      omega
    · rw [List.mem_singleton.1 hx, hseq]
  · rw [hcur, tickOf_eq hnow]
    split <;> omega
  · rw [hcur, tickOf_eq hnow]
    rcases List.mem_append.1 hx with hx | hx
    · have hlate := h.late x hx
      have hne : ps ≠ [] := List.ne_nil_of_mem hx
      rw [if_neg hne]
      exact hlate
    · rw [List.mem_singleton.1 hx]
      split <;> omega

/-- Among pending timers the order of handles is that of due ticks, and then of adding. -/
theorem expired_id_lt (h : Mirrors a w ps t) {x y : Pending α} (hx : x ∈ ps) (hy : y ∈ ps)
    (hlt : x.due < y.due ∨ x.due = y.due ∧ x.seq < y.seq) : x.expired.id < y.expired.id := by
  have hsx := (h.sound.seqs x hx).2
  have hsy := (h.sound.seqs y hy).2
  have hlimit : seqLimit < 2 ^ 24 := by decide
  exact (Agenda.pack_lt_pack_iff (h.sound.ticks x hx) (h.sound.ticks y hy) (by omega)
    (by omega)).2 hlt

theorem perm_middle {pre post : List (Pending α)} {e : Pending α}
    (h : Mirrors a w (pre ++ e :: post) t) :
    a.timers.Perm (e.expired :: (pre ++ post).map Pending.expired) := by
  refine h.perm.trans ?_
  simp only [List.map_append, List.map_cons]
  exact List.perm_middle

theorem seq_lt {pre post : List (Pending α)} {e x : Pending α}
    (h : Mirrors a w (pre ++ e :: post) t) (hx : x ∈ post) : e.seq < x.seq :=
  (List.pairwise_cons.1 (List.pairwise_append.1 h.order).2.1).1 x hx

theorem delete (h : Mirrors a w ps t) (id : TimerId) :
    (w.delete id).1 = (a.delete id).1 ∧ ∃ qs, Mirrors (a.delete id).2 (w.delete id).2 qs t := by
  have hd := h.sound.delete id
  generalize w.delete id = r at hd ⊢
  cases hd with
  | missing hrun hno =>
    have hrun' : a.running ≠ some id := by
      rw [← h.running]
      rcases hrun with hrun | rfl
      · exact hrun
      · exact h.awake
    have hne : ∀ x ∈ a.timers, x.id ≠ id := by
      intro x hx
      obtain ⟨e, he, rfl⟩ := List.mem_map.1 (h.perm.mem_iff.1 hx)
      exact hno e he
    have hany : (a.timers.any fun x => x.id == id) = false := by simpa using hne
    have hkeep : (a.timers.filter fun x => x.id != id) = a.timers :=
      List.filter_eq_self.2 fun x hx => by simpa using hne x hx
    have hnone : (a.timers.filter fun x => x.id == id) = [] :=
      List.filter_eq_nil_iff.2 fun x hx => by simpa using hne x hx
    rw [Agenda.delete, if_neg hrun', hany, hkeep, hnone, List.append_nil]
    exact ⟨rfl, ps, h⟩
  | running hid hrun =>
    rw [Agenda.delete, if_pos (h.running ▸ hrun)]
    exact ⟨rfl, ps, h⟩
  | removed pre post e v hrun heq hid hpre hv hd hb =>
    subst heq
    have hrun' : a.running ≠ some id := h.running ▸ hrun
    have hless := (List.sublist_cons_self e post).append_left pre
    have hpost : ∀ x ∈ post, x.expired.id ≠ id := by
      intro x hx hxid
      have hxseq := h.seq_lt hx
      have hsame := (Wheel.expired_id_eq_iff (h.sound.ticks x (by simp [hx]))
        (h.sound.seqs x (by simp [hx])).2 id).1 hxid
      rw [← hid, Wheel.unpack_expired (h.sound.ticks e (by simp))
        (h.sound.seqs e (by simp)).2, Prod.mk.injEq] at hsame
      omega
    have hothers : ∀ x ∈ (pre ++ post).map Pending.expired, x.id ≠ id := by
      intro x hx
      obtain ⟨y, hy, rfl⟩ := List.mem_map.1 hx
      exact (List.mem_append.1 hy).elim (hpre y) (hpost y)
    have hperm := h.perm_middle
    have hany : (a.timers.any fun x => x.id == id) = true :=
      List.any_eq_true.2 ⟨e.expired, hperm.symm.subset (by simp), by simp [hid]⟩
    have hkeep : (((pre ++ post).map Pending.expired).filter fun x => x.id != id) =
        (pre ++ post).map Pending.expired :=
      List.filter_eq_self.2 fun x hx => by simpa using hothers x hx
    have hnone : (((pre ++ post).map Pending.expired).filter fun x => x.id == id) = [] :=
      List.filter_eq_nil_iff.2 fun x hx => by simpa using hothers x hx
    have hleft := hperm.filter fun x => x.id != id
    have hgone := hperm.filter fun x => x.id == id
    rw [List.filter_cons_of_neg (by simp [hid]), hkeep] at hleft
    rw [List.filter_cons_of_pos (by simp [hid]), hnone] at hgone
    rw [Agenda.delete, if_neg hrun', hany]
    simp only [Wheel.books, Wheel.Books.mk.injEq] at hb
    obtain ⟨hb₁, hb₂, hb₃, hb₄, hb₅, hb₆⟩ := hb
    have hcur : v.currentTick = w.currentTick := congrArg (fun d => (d 0).base) hd
    refine ⟨rfl, pre ++ post, hv, hleft, hb₁.trans h.seq, hb₃.trans h.running, hb₃ ▸ h.awake,
      hb₄.trans h.maxDelay, h.order.sublist hless, fun x hx => hb₁ ▸ h.old x (hless.subset hx),
      hcur ▸ h.clock, fun x hx => hcur ▸ h.late x (hless.subset hx), hb₅.trans h.fired, ?_⟩
    rw [hb₆, h.cancelled, List.length_append, hgone.length_eq]
    rfl

theorem eq_cons_of_least {xs rest : List (Expired α)} {x : Expired α}
    (hs : xs.Pairwise fun x y => x.id < y.id) (hp : xs.Perm (x :: rest))
    (hleast : ∀ y ∈ rest, x.id < y.id) : ∃ ys, xs = x :: ys ∧ ys.Perm rest := by
  cases xs with
  | nil => exact absurd hp.length_eq (by simp)
  | cons y ys =>
    rcases List.mem_cons.1 (hp.subset (List.mem_cons_self)) with rfl | hy
    · exact ⟨ys, rfl, hp.cons_inv⟩
    · exfalso
      have hyx : x.id < y.id := hleast y hy
      rcases List.mem_cons.1 (hp.symm.subset (List.mem_cons_self)) with rfl | hx
      · exact UInt64.lt_irrefl _ hyx
      · exact UInt64.lt_asymm hyx ((List.pairwise_cons.1 hs).1 x hx)

/-- What both sides do when the wheel returns a timer that comes before all others. -/
theorem take (hk : a.Kept now) {pre post : List (Pending α)} {e : Pending α} {v : Wheel α}
    (h : Mirrors a w (pre ++ e :: post) now) (hdue : e.due ≤ now.toNat)
    (hleast : ∀ x ∈ pre ++ post, e.due < x.due ∨ e.due = x.due ∧ e.seq < x.seq)
    (hv : v.Sound (pre ++ post)) (hclock : v.currentTick ≤ now.toNat + 1)
    (hlate : ∀ x ∈ pre ++ post, v.currentTick ≤ x.due + 1)
    (hb : v.books =
      { w.books with len := w.len - 1, fired := w.fired + 1, running := some e.expired.id }) :
    (a.poll now).1 = some e.expired ∧ Mirrors (a.poll now).2 v (pre ++ post) now := by
  have hless := (List.sublist_cons_self e post).append_left pre
  obtain ⟨es, hes, hrest⟩ := eq_cons_of_least hk.sorted h.perm_middle fun y hy => by
    obtain ⟨x, hx, rfl⟩ := List.mem_map.1 hy
    exact h.expired_id_lt (by simp) (hless.subset hx) (hleast x hx)
  simp only [Wheel.books, Wheel.Books.mk.injEq] at hb
  obtain ⟨hb₁, hb₂, hb₃, hb₄, hb₅, hb₆⟩ := hb
  rw [Agenda.poll_due hes hdue]
  refine ⟨rfl, hv, hrest, hb₁.trans h.seq, hb₃, ?_, hb₄.trans h.maxDelay, h.order.sublist hless,
    fun x hx => hb₁ ▸ h.old x (hless.subset hx), hclock, hlate, ?_, hb₆.trans h.cancelled⟩
  · rw [hb₃]
    exact fun e' => Wheel.expired_id_ne_zero (h.sound.seqs e (by simp)) (Option.some.inj e')
  · rw [hb₅, h.fired, List.length_append]
    rfl

theorem poll (h : Mirrors a w ps now) (hk : a.Kept now) (hnow : now.toNat < tickRange) :
    (w.poll now).1 = (a.poll now).1 ∧ ∃ qs, Mirrors (a.poll now).2 (w.poll now).2 qs now := by
  have hp := h.sound.poll now
  have hclock := h.clock
  rw [tickOf_eq hnow] at hp
  generalize w.poll now = r at hp ⊢
  cases hp with
  | idle v hv hdue hcur hmin hb =>
    have hidle : ∀ x ∈ a.timers, now.toNat < x.due := by
      intro x hx
      obtain ⟨e, he, rfl⟩ := List.mem_map.1 (h.perm.subset hx)
      exact hdue e he
    rw [Agenda.poll_idle hidle]
    simp only [Wheel.books, Wheel.Books.mk.injEq] at hb
    obtain ⟨hb₁, hb₂, hb₃, hb₄, hb₅, hb₆⟩ := hb
    refine ⟨rfl, ps, hv, h.perm, hb₁.trans h.seq, hb₃.trans h.running, hb₃ ▸ h.awake,
      hb₄.trans h.maxDelay, h.order, fun e he => hb₁ ▸ h.old e he, ?_, fun e he => ?_,
      hb₅.trans h.fired, hb₆.trans h.cancelled⟩
    · exact hcur.trans (max_le hclock (le_refl _))
    · exact (hmin e he).trans (Nat.le_succ _)
  -- what waits behind the levels is all due at one tick
  | overdue pre post e v heq hdue hpre hv hcur hb =>
    subst heq
    have hlate := h.late e (by simp)
    have hsame : ∀ x ∈ pre ++ post, v.currentTick ≤ x.due + 1 := by
      intro x hx
      rw [hcur]
      exact h.late x (((List.sublist_cons_self e post).append_left pre).subset hx)
    have hleast : ∀ x ∈ pre ++ post, e.due < x.due ∨ e.due = x.due ∧ e.seq < x.seq := by
      intro x hx
      have hx' := hsame x hx
      rcases List.mem_append.1 hx with hx | hx
      · have := hpre x hx
        omega
      · have hseq := h.seq_lt hx
        omega
    obtain ⟨hans, hm⟩ := h.take hk (by omega) hleast hv (by omega) hsame hb
    exact ⟨hans.symm, _, hm⟩
  | due pre post e v heq hdue hpre hpost hv hcur hb =>
    subst heq
    have hleast : ∀ x ∈ pre ++ post, e.due < x.due ∨ e.due = x.due ∧ e.seq < x.seq := by
      intro x hx
      rcases List.mem_append.1 hx with hx | hx
      · exact .inl (hpre x hx)
      · have hseq := h.seq_lt hx
        have := hpost x hx
        omega
    have hlate : ∀ x ∈ pre ++ post, v.currentTick ≤ x.due + 1 := by
      intro x hx
      have := hleast x hx
      omega
    obtain ⟨hans, hm⟩ := h.take hk hdue hleast hv (by omega) hlate hb
    exact ⟨hans.symm, _, hm⟩

theorem finish (h : Mirrors a w ps t) : Mirrors a.finish w.finish ps t :=
  ⟨h.sound.finish, h.perm, h.seq, rfl, by simp [Wheel.finish], h.maxDelay, h.order, h.old, h.clock,
    h.late, h.fired, h.cancelled⟩

theorem execute (h : Mirrors a w ps now) (hk : a.Kept now) (hnow : now.toNat < tickRange)
    (max : Nat) :
    (w.execute now max).1 = (a.execute now max).1 ∧
      ∃ qs, Mirrors (a.execute now max).2 (w.execute now max).2 qs now := by
  induction max generalizing a w ps with
  | zero => exact ⟨rfl, ps, h⟩
  | succ max ih =>
    obtain ⟨hans, qs, hq⟩ := h.poll hk hnow
    rw [Wheel.execute_succ, Agenda.execute_succ, hans]
    cases (a.poll now).1 with
    | none => exact ⟨rfl, qs, hq⟩
    | some e =>
      obtain ⟨hrest, rs, hr⟩ := ih hq.finish hk.poll.finish
      exact ⟨congrArg (e :: ·) hrest, rs, hr⟩

theorem call (h : Mirrors a w ps t) (hk : a.Kept t) (c : Call α)
    (htime : ∀ now, c.time? = some now → t ≤ now ∧ now.toNat < tickRange)
    (hfew : (a.added.length + if c.isAdd then 1 else 0) ≤ 2 ^ 24 - 2) :
    (w.call c).1 = (a.call c).1 ∧
      ∃ qs, Mirrors (a.call c).2 (w.call c).2 qs (c.time?.getD t) := by
  cases c with
  | add now delay payload =>
    obtain ⟨hle, hnow⟩ := htime now rfl
    obtain ⟨hans, qs, hq⟩ := (h.later hle).add hnow hfew delay payload
    exact ⟨congrArg Answer.handle hans, qs, hq⟩
  | delete id =>
    obtain ⟨hans, qs, hq⟩ := h.delete id
    exact ⟨congrArg Answer.deleted hans, qs, hq⟩
  | poll now =>
    obtain ⟨hle, hnow⟩ := htime now rfl
    obtain ⟨hans, qs, hq⟩ := (h.later hle).poll (hk.later hle) hnow
    exact ⟨congrArg Answer.polled hans, qs, hq⟩
  | finish => exact ⟨rfl, ps, h.finish⟩
  | execute now max =>
    obtain ⟨hle, hnow⟩ := htime now rfl
    obtain ⟨hans, qs, hq⟩ := (h.later hle).execute (hk.later hle) hnow max
    exact ⟨congrArg Answer.executed hans, qs, hq⟩

theorem serve (h : Mirrors a w ps t) (hk : a.Kept t) (cs : List (Call α))
    (hmono : (t :: Call.times cs).Pairwise (· ≤ ·))
    (hticks : ∀ now ∈ Call.times cs, now.toNat < tickRange)
    (hfew : a.added.length + Call.adds cs ≤ 2 ^ 24 - 2) :
    (w.serve cs).1 = (a.serve cs).1 ∧
      ∃ qs t', Mirrors (a.serve cs).2 (w.serve cs).2 qs t' ∧ (a.serve cs).2.Kept t' := by
  induction cs generalizing a w ps t with
  | nil => exact ⟨rfl, ps, t, h, hk⟩
  | cons c cs ih =>
    have hadds : Call.adds (c :: cs) = Call.adds cs + if c.isAdd then 1 else 0 := List.countP_cons
    have htimes : Call.times (c :: cs) = c.time?.toList ++ Call.times cs := by
      unfold Call.times
      cases hc : c.time? <;> simp [hc]
    rw [htimes] at hmono hticks
    have htime : ∀ now, c.time? = some now → t ≤ now ∧ now.toNat < tickRange := by
      intro now hnow
      rw [hnow] at hmono hticks
      exact ⟨(List.pairwise_cons.1 hmono).1 now (by simp), hticks now (by simp)⟩
    have hmono' : (c.time?.getD t :: Call.times cs).Pairwise (· ≤ ·) := by
      cases hc : c.time? with
      | none => simpa [hc] using hmono
      | some now =>
        rw [hc] at hmono
        exact (List.pairwise_cons.1 hmono).2
    have hfew' : (a.added.length + if c.isAdd then 1 else 0) ≤ 2 ^ 24 - 2 := by omega
    obtain ⟨hans, qs, hq⟩ := h.call hk c htime hfew'
    have hk' := hk.call c htime hfew'
    obtain ⟨hrest, hm⟩ := ih hq hk' hmono' (fun now hnow => hticks now (by simp [hnow])) (by
      rw [Agenda.length_added_call]
      omega)
    refine ⟨?_, hm⟩
    rw [Wheel.serve, Agenda.serve, hans, hrest]

end Mirrors

/-- The wheel answers as the plain list does, which in turn is faithful to what was added. -/
theorem serve_eq_agenda (now limit : UInt64) (cs : List (Call α))
    (hmono : (now :: Call.times cs).Pairwise (· ≤ ·))
    (hticks : ∀ t ∈ now :: Call.times cs, t.toNat < tickRange)
    (hfew : Call.adds cs ≤ 2 ^ 24 - 2) :
    ((Wheel.withMaxDelay now limit).serve cs).1 = ((Agenda.start limit).serve cs).1 ∧
      ((Wheel.withMaxDelay now limit).serve cs).2.len =
        ((Agenda.start limit).serve cs).2.timers.length ∧
      ((Wheel.withMaxDelay now limit).serve cs).2.fired =
        ((Agenda.start limit).serve cs).2.fired.length ∧
      ((Wheel.withMaxDelay now limit).serve cs).2.cancelled =
        ((Agenda.start limit).serve cs).2.cancelled.length ∧
      ((Agenda.start limit).serve cs).2.Faithful := by
  obtain ⟨hans, ps, t, hm, hk⟩ := (Mirrors.start (α := α) now limit).serve
    (Agenda.kept_start limit now) cs hmono (fun t ht => hticks t (by simp [ht])) (by
      rw [Agenda.start, List.length_nil, Nat.zero_add]
      exact hfew)
  refine ⟨hans, ?_, hm.fired, hm.cancelled, hk.faithful⟩
  rw [hm.sound.filed.len, hm.perm.length_eq, List.length_map]

/-- Two timers of one tick, on different levels when they are added, and one that is cancelled. -/
theorem serve_eq_agenda_across_levels :
    ((Wheel.withMaxDelay 250 1000).serve
        [.add 250 300 'a', .poll 300, .add 530 20 'b', .add 540 7 'c', .delete 9177137155,
          .poll 549, .execute 550 5]).1 =
      [.handle 9227468801, .polled none, .handle 9227468802, .handle 9177137155, .deleted true,
        .polled none, .executed [⟨9227468801, 550, 'a'⟩, ⟨9227468802, 550, 'b'⟩]] :=
  (serve_eq_agenda 250 1000
    [.add 250 300 'a', .poll 300, .add 530 20 'b', .add 540 7 'c', .delete 9177137155,
      .poll 549, .execute 550 5]
    (by decide) (by simp [Call.times, Call.time?, tickRange, or_imp, forall_and])
    (by decide)).1.trans rfl

end ActorSystem.Timer
