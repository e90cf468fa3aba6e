import ActorSystem.Proofs.Pacing

/-!
Ticks start over every `2 ^ 40` milliseconds, and the levels of a wheel do not. A timer that is not
due yet when the clock starts over is held back until its due tick comes round, and one that is
added while another one is held back may come out at once. As long as nothing is pending when the
clock starts over, all timers are in time.
-/

set_option autoImplicit false

namespace ActorSystem.Timer

variable {α : Type}

def era (t : UInt64) : Nat := t.toNat / tickRange

theorem era_add_tickOf (t : UInt64) : era t * tickRange + tickOf t = t.toNat :=
  Nat.div_add_mod' _ _

/-- What the owner knows of a timer: when it was added, and how long it is put off. -/
structure Ticket (α : Type) where
  id : TimerId
  payload : α
  time : UInt64
  delay : Nat

namespace Ticket

def due (k : Ticket α) : Nat := min (tickOf k.time + k.delay) (tickRange - 1)

def expired (k : Ticket α) : Expired α := ⟨k.id, k.due, k.payload⟩

/-- The time it is put off to, which is cut to the era in which it was added. -/
def deadline (k : Ticket α) : Nat :=
  min (k.time.toNat + k.delay) (era k.time * tickRange + (tickRange - 1))

theorem deadline_eq (k : Ticket α) : k.deadline = era k.time * tickRange + k.due := by
  have htime := era_add_tickOf k.time
  unfold deadline due
  omega

def issued (limit : Nat) : Call α → Answer α → List (Ticket α)
  | .add now delay payload, .handle id => [⟨id, payload, now, min delay.toNat limit⟩]
  | _, _ => []

def strike (ks : List (Ticket α)) (ids : List TimerId) : List (Ticket α) :=
  ids.foldl (fun ks id => ks.eraseP fun k => k.id == id) ks

theorem strike_subset (ks : List (Ticket α)) (ids : List TimerId) : strike ks ids ⊆ ks := by
  induction ids generalizing ks with
  | nil => exact List.Subset.refl ks
  | cons id ids ih => exact fun k hk => List.mem_of_mem_eraseP (ih _ hk)

theorem issued_eq_nil {c : Call α} (hc : c.isAdd = false) (limit : Nat) (a : Answer α) :
    issued limit c a = [] := by
  cases c with
  | add => cases hc
  | delete | poll | finish | execute => rfl

end Ticket

namespace Wheel

def settle (w : Wheel α) (c : Call α) (ks : List (Ticket α)) : List (Ticket α) :=
  Ticket.strike ks (w.withdrawn c) ++ Ticket.issued w.maxDelay c (w.call c).1

def settleAll (w : Wheel α) (ks : List (Ticket α)) : List (Call α) → List (Ticket α)
  | [] => ks
  | c :: cs => (w.call c).2.settleAll (w.settle c ks) cs

def tickets (start limit : UInt64) (cs : List (Call α)) : List (Ticket α) :=
  (withMaxDelay start limit).settleAll [] cs

/-- Whether an execution at `now` takes the timer: it is behind the levels, or its due tick has been
reached. -/
def releases (w : Wheel α) (now : UInt64) (k : Ticket α) : Bool :=
  decide (k.due < w.currentTick) || decide (k.due ≤ tickOf now)

def Uncrossed (start limit : UInt64) (cs : List (Call α)) : Prop :=
  ∀ pre c post t, cs = pre ++ c :: post → c.time? = some t →
    ∀ k ∈ tickets start limit pre, era k.time = era t

variable {w : Wheel α} {ps : List (Pending α)} {ks : List (Ticket α)} {now : UInt64}

def ripe (w : Wheel α) (now : UInt64) (e : Pending α) : Bool :=
  decide (e.due < w.currentTick) || decide (e.due ≤ tickOf now)

theorem ripe_eq_true_iff {e : Pending α} :
    w.ripe now e = true ↔ e.due < w.currentTick ∨ e.due ≤ tickOf now := by
  simp [ripe]

theorem Sound.locate_overdue_iff (h : w.Sound ps) {due : Nat} :
    w.dial.locate due = .overdue ↔ due < w.currentTick := by
  constructor
  · intro hl
    exact (Dial.locate_eq_overdue_iff _ _).1 hl 0
  · intro hlt
    by_contra hl
    have := h.currentTick_le_due hl
    omega

theorem Sound.poll_behind (h : w.Sound ps) (now : UInt64)
    (hex : ∃ e ∈ ps, e.due < w.currentTick) :
    ∃ pre e post, ps = pre ++ e :: post ∧ e.due < w.currentTick ∧
      (w.poll now).1 = some e.expired ∧ (w.poll now).2.Sound (pre ++ post) ∧
      (w.poll now).2.currentTick = w.currentTick := by
  simp only [← h.locate_overdue_iff] at hex
  obtain ⟨pre, e, post, rfl, hloc, hpre⟩ := exists_first hex
  obtain ⟨i, v, hpop, hfire, hv, hd, -⟩ := h.fire_pop (e := e) (by rwa [hloc])
  rw [hloc, ← popOverdue_eq] at hpop
  have hpoll : w.poll now = v.fire i := by rw [poll_eq, hpop]
  refine ⟨pre, e, post, rfl, h.locate_overdue_iff.1 hloc, by rw [hpoll, hfire], hpoll ▸ hv, ?_⟩
  rw [hpoll, currentTick_eq, hd]
  rfl

/-- The ripe timers go one after the other, and none becomes ripe by that. -/
theorem Sound.poll_ripe (h : w.Sound ps) (now : UInt64) :
    (w.poll now).1 = none ∧ (∀ e ∈ ps, w.ripe now e = false) ∨
      ∃ pre e post, ps = pre ++ e :: post ∧ w.ripe now e = true ∧
        (w.poll now).1 = some e.expired ∧ (w.poll now).2.Sound (pre ++ post) ∧
        ∀ x ∈ pre ++ post, (w.poll now).2.ripe now x = w.ripe now x := by
  by_cases hex : ∃ e ∈ ps, e.due < w.currentTick
  · obtain ⟨pre, e, post, heq, hdue, hfound, hv, hcur⟩ := h.poll_behind now hex
    refine .inr ⟨pre, e, post, heq, ripe_eq_true_iff.2 (.inl hdue), hfound, hv, fun x _ => ?_⟩
    rw [ripe, ripe, hcur]
  · have hahead : ∀ e ∈ ps, w.currentTick ≤ e.due := fun e he =>
      Nat.not_lt.1 fun hlt => hex ⟨e, he, hlt⟩
    have hp := h.poll now
    generalize w.poll now = r at hp ⊢
    cases hp with
    | idle v hv hdue =>
      refine .inl ⟨rfl, fun e he => ?_⟩
      have hlevel := hahead e he
      have hlater := hdue e he
      rw [Bool.eq_false_iff, Ne, ripe_eq_true_iff]
      omega
    | overdue pre post e v heq hdue =>
      have := hahead e (by simp [heq])
      omega
    | due pre post e v heq hdue hpre hpost hv hcur =>
      refine .inr ⟨pre, e, post, heq, ripe_eq_true_iff.2 (.inr hdue), rfl, hv, fun x hx => ?_⟩
      have hmem : x ∈ ps := by
        rw [heq]
        exact ((List.sublist_cons_self e post).append_left pre).subset hx
      have hlevel := hahead x hmem
      have hnot : e.due ≤ x.due :=
        (List.mem_append.1 hx).elim (fun hx => (hpre x hx).le) (hpost x)
      rw [Bool.eq_iff_iff, ripe_eq_true_iff, ripe_eq_true_iff, hcur]
      omega

theorem Sound.execute_ripe (h : w.Sound ps) {n : Nat} (hn : w.len ≤ n) :
    (w.execute now n).1.Perm ((ps.filter (w.ripe now)).map Pending.expired) := by
  induction n generalizing w ps with
  | zero =>
    obtain rfl : ps = [] := List.eq_nil_of_length_eq_zero (h.filed.len ▸ Nat.le_zero.1 hn)
    exact .refl _
  | succ n ih =>
    rcases h.poll_ripe now with ⟨hnone, hunripe⟩ | ⟨pre, e, post, rfl, hripe, hfound, hv, hsame⟩
    · have hnil : ps.filter (w.ripe now) = [] :=
        List.filter_eq_nil_iff.2 fun e he => ne_true_of_eq_false (hunripe e he)
      rw [execute_idle hnone, hnil]
      exact .refl _
    · obtain ⟨hlen, -⟩ := h.poll_fired hfound
      have hrest := ih hv.finish (by omega)
      have hfilter : (pre ++ post).filter ((w.poll now).2.finish.ripe now) =
          (pre ++ post).filter (w.ripe now) := List.filter_congr hsame
      rw [hfilter] at hrest
      rw [execute_fire hfound, List.filter_append, List.filter_cons_of_pos hripe]
      rw [List.filter_append] at hrest
      refine (hrest.cons e.expired).trans ?_
      simp only [List.map_append, List.map_cons]
      exact List.perm_middle.symm

structure Held (w : Wheel α) (ks : List (Ticket α)) (ps : List (Pending α)) : Prop where
  sound : w.Sound ps
  same : ks.map Ticket.expired = ps.map Pending.expired

theorem Sound.due_eq_of_id_eq (h : w.Sound ps) {x y : Pending α} (hx : x ∈ ps) (hy : y ∈ ps)
    (hid : x.expired.id = y.expired.id) : x.due = y.due := by
  have hx' := unpack_expired (h.ticks x hx) (h.seqs x hx).2
  rw [hid, unpack_expired (h.ticks y hy) (h.seqs y hy).2] at hx'
  exact (congrArg Prod.fst hx').symm

namespace Held

theorem strike_one {v : Wheel α} {pre post : List (Pending α)} {e : Pending α}
    (h : w.Held ks (pre ++ e :: post)) (hv : v.Sound (pre ++ post))
    (hpre : ∀ x ∈ pre, x.expired.id ≠ e.expired.id) :
    v.Held (Ticket.strike ks [e.expired.id]) (pre ++ post) := by
  refine ⟨hv, ?_⟩
  have hmap : (Ticket.strike ks [e.expired.id]).map Ticket.expired =
      (ks.map Ticket.expired).eraseP fun x => x.id == e.expired.id := by
    rw [List.eraseP_map]
    rfl
  have hnot : ∀ x ∈ pre.map Pending.expired, ¬ (x.id == e.expired.id) = true := by
    intro x hx
    obtain ⟨y, hy, rfl⟩ := List.mem_map.1 hx
    simpa using hpre y hy
  rw [hmap, h.same, List.map_append, List.map_append, List.map_cons,
    List.eraseP_append_right _ hnot, List.eraseP_cons_of_pos (by simp)]

theorem poll (h : w.Held ks ps) (now : UInt64) :
    ∃ qs, (w.poll now).2.Held (Ticket.strike ks (w.withdrawn (.poll now))) qs := by
  have hp := h.sound.poll now
  rw [withdrawn]
  generalize w.poll now = r at hp ⊢
  cases hp with
  | idle v hv => exact ⟨ps, hv, h.same⟩
  | overdue pre post e v heq hdue hpre hv =>
    subst heq
    refine ⟨_, h.strike_one hv fun x hx hid => ?_⟩
    have hsame := h.sound.due_eq_of_id_eq (by simp [hx]) (by simp) hid
    have := hpre x hx
    omega
  | due pre post e v heq hdue hpre hpost hv =>
    subst heq
    refine ⟨_, h.strike_one hv fun x hx hid => ?_⟩
    have hsame := h.sound.due_eq_of_id_eq (by simp [hx]) (by simp) hid
    have := hpre x hx
    omega

theorem execute (h : w.Held ks ps) (now : UInt64) (max : Nat) :
    ∃ qs, (w.execute now max).2.Held (Ticket.strike ks (w.withdrawn (.execute now max))) qs := by
  induction max generalizing w ks ps with
  | zero => exact ⟨ps, h⟩
  | succ max ih =>
    obtain ⟨qs, hq⟩ := h.poll now
    simp only [withdrawn] at hq ih ⊢
    cases hfound : (w.poll now).1 with
    | none =>
      rw [hfound] at hq
      rw [execute_idle hfound]
      exact ⟨qs, hq⟩
    | some e =>
      rw [hfound] at hq
      rw [execute_fire hfound]
      exact ih ⟨hq.sound.finish, hq.same⟩

theorem call (h : w.Held ks ps) (c : Call α) :
    ∃ qs, (w.call c).2.Held (w.settle c ks) qs := by
  unfold settle
  cases c with
  | add now delay payload =>
    obtain ⟨e, -, hpay, hdue, hid, hs, -⟩ := h.sound.add now delay payload
    refine ⟨ps ++ [e], hs, ?_⟩
    have hnew : e.expired = ⟨(w.add now delay payload).1,
        min (tickOf now + min delay.toNat w.maxDelay) (tickRange - 1), payload⟩ := by
      rw [hid, ← hdue, ← hpay]
      rfl
    rw [List.map_append, List.map_append, List.map_singleton, hnew, ← h.same]
    rfl
  | delete id =>
    rw [Ticket.issued_eq_nil rfl, List.append_nil, withdrawn]
    have hd := h.sound.delete id
    change ∃ qs, (w.delete id).2.Held _ qs
    generalize w.delete id = r at hd ⊢
    cases hd with
    | missing =>
      rw [if_neg (by simp)]
      exact ⟨ps, h⟩
    | running hid hrun =>
      rw [if_neg (by simp [hrun])]
      exact ⟨ps, h⟩
    | removed pre post e v hrun heq hid hpre hv =>
      subst heq hid
      rw [if_pos ⟨rfl, hrun⟩]
      exact ⟨_, h.strike_one hv hpre⟩
  | poll now =>
    rw [Ticket.issued_eq_nil rfl, List.append_nil]
    exact h.poll now
  | finish =>
    rw [Ticket.issued_eq_nil rfl, List.append_nil]
    exact ⟨ps, h.sound.finish, h.same⟩
  | execute now max =>
    rw [Ticket.issued_eq_nil rfl, List.append_nil]
    exact h.execute now max

theorem start (now limit : UInt64) : (withMaxDelay now limit : Wheel α).Held [] [] :=
  ⟨.start now limit, rfl⟩

theorem eq_nil_iff (h : w.Held ks ps) : ks = [] ↔ ps = [] := by
  rw [← List.map_eq_nil_iff (f := Ticket.expired), h.same, List.map_eq_nil_iff]

theorem execute_releases (h : w.Held ks ps) {n : Nat} (hn : w.len ≤ n) :
    (w.execute now n).1.Perm ((ks.filter (w.releases now)).map Ticket.expired) := by
  let out (x : Expired α) : Bool := decide (x.due < w.currentTick) || decide (x.due ≤ tickOf now)
  have hks : (ks.filter (w.releases now)).map Ticket.expired =
      (ks.map Ticket.expired).filter out := by
    rw [List.filter_map]
    rfl
  have hps : (ps.filter (w.ripe now)).map Pending.expired =
      (ps.map Pending.expired).filter out := by
    rw [List.filter_map]
    rfl
  rw [hks, h.same, ← hps]
  exact h.sound.execute_ripe hn

end Held

theorem settleAll_concat (w : Wheel α) (ks : List (Ticket α)) (cs : List (Call α)) (c : Call α) :
    w.settleAll ks (cs ++ [c]) = (w.serve cs).2.settle c (w.settleAll ks cs) := by
  induction cs generalizing w ks with
  | nil => rfl
  | cons d cs ih => exact ih (w.call d).2 (w.settle d ks)

theorem mem_settle {c : Call α} {k : Ticket α} (hk : k ∈ w.settle c ks) :
    k ∈ ks ∨ c.time? = some k.time := by
  rcases List.mem_append.1 hk with hk | hk
  · exact .inl (Ticket.strike_subset ks _ hk)
  · cases c with
    | add now delay payload =>
      obtain rfl := List.mem_singleton.1 hk
      exact .inr rfl
    | delete | poll | finish | execute => cases hk

theorem Sound.currentTick_poll_le (h : w.Sound ps) (now : UInt64) :
    (w.poll now).2.currentTick ≤ max w.currentTick (tickOf now + 1) := by
  have hp := h.poll now
  generalize w.poll now = r at hp ⊢
  cases hp with
  | idle v hv hdue hcur => exact hcur
  | overdue pre post e v heq hdue hpre hv hcur => exact hcur.le.trans (le_max_left _ _)
  | due pre post e v heq hdue hpre hpost hv hcur =>
    rw [hcur]
    exact (hdue.trans (Nat.le_succ _)).trans (le_max_right _ _)

theorem Sound.currentTick_execute_le (h : w.Sound ps) (now : UInt64) (max : Nat) :
    (w.execute now max).2.currentTick ≤ Nat.max w.currentTick (tickOf now + 1) := by
  induction max generalizing w ps with
  | zero => exact Nat.le_max_left _ _
  | succ max ih =>
    have hpoll := h.currentTick_poll_le now
    cases hfound : (w.poll now).1 with
    | none =>
      rw [execute_idle hfound]
      exact hpoll
    | some e =>
      obtain ⟨-, qs, hq⟩ := h.poll_fired hfound
      rw [execute_fire hfound]
      exact (ih hq).trans (Nat.max_le.2 ⟨hpoll, Nat.le_max_right _ _⟩)

theorem Sound.currentTick_delete (h : w.Sound ps) (id : TimerId) :
    (w.delete id).2.currentTick = w.currentTick := by
  have hd := h.delete id
  generalize w.delete id = r at hd ⊢
  cases hd with
  | missing => rfl
  | running => rfl
  | removed pre post e v hrun heq hid hpre hv hdial => exact congrArg (fun d => (d 0).base) hdial

theorem Sound.currentTick_call_le (h : w.Sound ps) {c : Call α} (hc : c.isAdd = false) {t : Nat}
    (htime : ∀ now, c.time? = some now → tickOf now ≤ t) :
    (w.call c).2.currentTick ≤ max w.currentTick (t + 1) := by
  have hlater : ∀ now, c.time? = some now →
      max w.currentTick (tickOf now + 1) ≤ max w.currentTick (t + 1) := fun now hnow =>
    max_le_max_left _ (Nat.succ_le_succ (htime now hnow))
  cases c with
  | add => cases hc
  | delete id => exact (h.currentTick_delete id).le.trans (le_max_left _ _)
  | poll now => exact (h.currentTick_poll_le now).trans (hlater now rfl)
  | finish => exact le_max_left _ _
  | execute now max => exact (h.currentTick_execute_le now max).trans (hlater now rfl)

theorem tickOf_le_tickOf {t : UInt64} (hle : t ≤ now) (hera : era t = era now) :
    tickOf t ≤ tickOf now := by
  have hnat := UInt64.le_iff_toNat_le.1 hle
  have ht := era_add_tickOf t
  have hnow := era_add_tickOf now
  rw [hera] at ht
  omega

/-- All pending timers were added in the era of the time `t`, and no level has gone past it. -/
structure Steady (w : Wheel α) (ks : List (Ticket α)) (t : UInt64) : Prop where
  reached : ks ≠ [] → w.currentTick ≤ tickOf t + 1
  era : ∀ k ∈ ks, Timer.era k.time = Timer.era t

/-- A call keeps this if it comes in the same era, or finds nothing pending. -/
theorem Steady.call {t : UInt64} (h : w.Steady ks t) (hw : w.Held ks ps) (c : Call α)
    (hle : ∀ now, c.time? = some now → t ≤ now)
    (hera : ∀ now, c.time? = some now → ∀ k ∈ ks, Timer.era k.time = Timer.era now) :
    (w.call c).2.Steady (w.settle c ks) (c.time?.getD t) := by
  have hticks : ks ≠ [] → tickOf t ≤ tickOf (c.time?.getD t) := by
    intro hks
    obtain ⟨k, hk⟩ := List.exists_mem_of_ne_nil ks hks
    cases ht : c.time? with
    | none => exact le_refl _
    | some now => exact tickOf_le_tickOf (hle now ht) ((h.era k hk).symm.trans (hera now ht k hk))
  refine ⟨fun hsome => ?_, fun k hk => ?_⟩
  · cases hc : c.isAdd with
    | true =>
      cases c with
      | add now delay payload =>
        obtain ⟨e, -, -, -, -, -, hcur, -⟩ := hw.sound.add now delay payload
        change (w.add now delay payload).2.currentTick ≤ tickOf now + 1
        rw [hcur]
        split
        · exact Nat.le_succ _
        · rename_i hps
          have hks := mt hw.eq_nil_iff.1 hps
          exact (h.reached hks).trans (Nat.succ_le_succ (hticks hks))
      | delete | poll | finish | execute => cases hc
    | false =>
      have hks : ks ≠ [] := by
        rintro rfl
        rw [settle, Ticket.issued_eq_nil hc, List.append_nil] at hsome
        exact hsome (List.subset_nil.1 (Ticket.strike_subset [] _))
      have htick := hw.sound.currentTick_call_le hc (t := tickOf (c.time?.getD t)) fun now ht => by
        rw [ht]
        exact le_refl _
      exact htick.trans (max_le ((h.reached hks).trans (Nat.succ_le_succ (hticks hks))) (le_refl _))
  · rcases mem_settle hk with hk | hk
    · cases ht : c.time? with
      | none => exact h.era k hk
      | some now => exact hera now ht k hk
    · rw [hk, Option.getD_some]

theorem after_concat (start limit : UInt64) (cs : List (Call α)) (c : Call α) :
    after start limit (cs ++ [c]) = ((after start limit cs).call c).2 := serve_append _ cs [c]

theorem tickets_concat (start limit : UInt64) (cs : List (Call α)) (c : Call α) :
    tickets start limit (cs ++ [c]) =
      (after start limit cs).settle c (tickets start limit cs) := settleAll_concat _ [] cs c

theorem times_concat (cs : List (Call α)) (c : Call α) :
    Call.times (cs ++ [c]) = Call.times cs ++ c.time?.toList := by
  unfold Call.times
  cases hc : c.time? <;> simp [hc]

theorem held_after (start limit : UInt64) (cs : List (Call α)) :
    ∃ ps, (after start limit cs).Held (tickets start limit cs) ps := by
  induction cs using List.reverseRecOn with
  | nil => exact ⟨[], Held.start start limit⟩
  | append_singleton cs c ih =>
    obtain ⟨ps, h⟩ := ih
    rw [after_concat, tickets_concat]
    exact h.call c

theorem time_mem_of_mem_tickets {start limit : UInt64} {cs : List (Call α)} {k : Ticket α}
    (hk : k ∈ tickets start limit cs) : k.time ∈ Call.times cs := by
  induction cs using List.reverseRecOn with
  | nil => cases hk
  | append_singleton cs c ih =>
    rw [tickets_concat] at hk
    rw [times_concat]
    rcases mem_settle hk with hk | hk
    · exact List.mem_append_left _ (ih hk)
    · exact List.mem_append_right _ (Option.mem_toList.2 hk)

theorem steady_after {start limit : UInt64} {cs : List (Call α)}
    (hmono : (start :: Call.times cs).Pairwise (· ≤ ·)) (h : Uncrossed start limit cs) :
    ∃ t ∈ start :: Call.times cs, (∀ x ∈ start :: Call.times cs, x ≤ t) ∧
      (after start limit cs).Steady (tickets start limit cs) t := by
  induction cs using List.reverseRecOn with
  | nil =>
    refine ⟨start, by simp, by simp [Call.times], ?_, nofun⟩
    exact fun hne => absurd rfl hne
  | append_singleton cs c ih =>
    rw [times_concat, ← List.cons_append, List.pairwise_append] at hmono
    obtain ⟨hbefore, -, hlast⟩ := hmono
    obtain ⟨t, hmem, hle, hsteady⟩ := ih hbefore fun pre d post u hcs =>
      h pre d (post ++ [c]) u (by rw [hcs, List.append_assoc, List.cons_append])
    obtain ⟨ps, hheld⟩ := held_after start limit cs
    have hnext := hsteady.call hheld c
      (fun now hnow => hlast t hmem now (Option.mem_toList.2 hnow))
      fun now hnow => h cs c [] now rfl hnow
    rw [times_concat, ← List.cons_append, after_concat, tickets_concat]
    refine ⟨c.time?.getD t, ?_, fun x hx => ?_, hnext⟩
    · cases ht : c.time? with
      | none => exact List.mem_append_left _ hmem
      | some now => exact List.mem_append_right _ (by simp)
    · rcases List.mem_append.1 hx with hx | hx
      · cases ht : c.time? with
        | none => exact hle x hx
        | some now => exact hlast x hx now (by simp [ht])
      · rw [Option.mem_toList.1 hx]
        exact UInt64.le_refl _

theorem releases_eq_true_iff {k : Ticket α} :
    w.releases now k = true ↔ k.due < w.currentTick ∨ k.due ≤ tickOf now := by
  simp [releases]

structure Crosses (start limit : UInt64) (cs : List (Call α)) (now : UInt64) : Prop where
  released : ∀ n, (after start limit cs).len ≤ n →
    ((after start limit cs).execute now n).1.Perm
      (((tickets start limit cs).filter ((after start limit cs).releases now)).map Ticket.expired)
  punctual : Uncrossed start limit cs → ∀ k ∈ tickets start limit cs, era k.time = era now →
    ((after start limit cs).releases now k = true ↔ k.deadline ≤ now.toNat)
  stranded : Uncrossed start limit cs → ∀ k ∈ tickets start limit cs, era k.time < era now →
    (∀ t ∈ Call.times cs, t.toNat < k.deadline) →
    ((after start limit cs).releases now k = true ↔
      k.deadline + (era now - era k.time) * tickRange ≤ now.toNat)

/-- Timers are in time up to the tick at which the clock starts over. Those that wait then, and are
not due, wait for as many rounds of the clock longer as it has made since they were added. -/
theorem execute_across (start limit : UInt64) (cs : List (Call α)) (now : UInt64)
    (hmono : (start :: (Call.times cs ++ [now])).Pairwise (· ≤ ·)) :
    Crosses start limit cs now := by
  rw [← List.cons_append, List.pairwise_append] at hmono
  obtain ⟨hbefore, -, hnow⟩ := hmono
  have hclock := era_add_tickOf now
  refine ⟨fun n hn => ?_, fun h k hk hera => ?_, fun h k hk hera hlater => ?_⟩
  · obtain ⟨ps, hheld⟩ := held_after start limit cs
    exact hheld.execute_releases hn
  · obtain ⟨t, hmem, -, hsteady⟩ := steady_after hbefore h
    have htick := hsteady.reached (List.ne_nil_of_mem hk)
    have hticks := tickOf_le_tickOf (hnow t hmem now (by simp)) ((hsteady.era k hk).symm.trans hera)
    rw [releases_eq_true_iff, k.deadline_eq, hera]
    omega
  · obtain ⟨t, hmem, hlast, hsteady⟩ := steady_after hbefore h
    have htick := hsteady.reached (List.ne_nil_of_mem hk)
    have hround := Nat.mul_le_mul_right tickRange hera.le
    have ht : t.toNat < k.deadline := by
      rcases List.mem_cons.1 hmem with rfl | hmem
      · have htime := time_mem_of_mem_tickets hk
        have hle := UInt64.le_iff_toNat_le.1 ((List.pairwise_cons.1 hbefore).1 k.time htime)
        exact hle.trans_lt (hlater k.time htime)
      · exact hlater t hmem
    rw [← era_add_tickOf t, k.deadline_eq, ← hsteady.era k hk] at ht
    rw [releases_eq_true_iff, k.deadline_eq, Nat.sub_mul]
    omega

theorem uncrossed_singleton (start limit : UInt64) (c : Call α) : Uncrossed start limit [c] := by
  intro pre d post t hcs ht k hk
  cases pre with
  | nil => cases hk
  | cons x pre => simp at hcs

/-- The timer is due five milliseconds before the clock starts over. -/
theorem execute_across_of_stranded :
    Crosses 1099511627766 1000 [.add 1099511627766 5 'a'] 1099511627776 ∧
      Uncrossed 1099511627766 1000 [.add 1099511627766 5 'a'] ∧
      (tickets 1099511627766 1000 [.add 1099511627766 5 'a']).map Ticket.deadline =
        [1099511627771] ∧
      ((after 1099511627766 1000 [.add 1099511627766 5 'a']).execute 1099511627776 1).1 = [] :=
  ⟨execute_across 1099511627766 1000 [.add 1099511627766 5 'a'] 1099511627776
    (by simp [Call.times, Call.time?]), uncrossed_singleton _ _ _, rfl, rfl⟩

/-- Timers are not in time at all times: the owner looks five milliseconds late. -/
theorem not_punctual_across :
    ¬ ∀ (start limit : UInt64) (cs : List (Call Char)) (now : UInt64),
      (start :: (Call.times cs ++ [now])).Pairwise (· ≤ ·) → ∀ k ∈ tickets start limit cs,
        (k.expired ∈ ((after start limit cs).execute now (after start limit cs).len).1 ↔
          k.time.toNat + k.delay ≤ now.toNat) := by
  intro h
  have hdue := (h 1099511627766 1000 [.add 1099511627766 5 'a'] 1099511627776
    (by simp [Call.times, Call.time?])
    ⟨18446744073625665537, 'a', 1099511627766, 5⟩ (List.mem_singleton_self _)).2 (by decide)
  cases hdue

/-- Another one is added with the first still pending, and comes out long before it is due. -/
example :
    ((after 1099511627766 1000
        [.add 1099511627766 5 'a', .add 1099511627786 100 'b']).execute 1099511627787 9).1.map
      Expired.payload = ['b'] :=
  rfl

end Wheel

end ActorSystem.Timer
