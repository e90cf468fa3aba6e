import ActorSystem.Proofs.Taking
import ActorSystem.Proofs.Turning

set_option autoImplicit false

namespace ActorSystem.Timer.Wheel

variable {α : Type}

/-- The wheel is in order, and `ps` are its pending timers as they were added. -/
structure Sound (w : Wheel α) (ps : List (Pending α)) : Prop where
  filed : w.Filed ps
  aligned : w.dial.Aligned
  span : Level.unit 4 ≤ (w.dial 4).base
  reached : w.currentTick ≤ tickRange
  limited : w.maxDelay ≤ Timer.maxDelay
  ticks : ∀ e ∈ ps, e.due < tickRange
  seqs : ∀ e ∈ ps, 0 < e.seq ∧ e.seq < seqLimit
  seq : w.seq < seqLimit

theorem Sound.of_filed {w v : Wheel α} {ps : List (Pending α)} (h : w.Sound ps) (hf : v.Filed ps)
    (ha : v.dial.Aligned) (h4 : (w.dial 4).base ≤ (v.dial 4).base)
    (hr : v.currentTick ≤ tickRange) (hb : v.books = w.books) : v.Sound ps := by
  have hmax : v.maxDelay = w.maxDelay := congrArg Books.maxDelay hb
  have hseq : v.seq = w.seq := congrArg Books.seq hb
  exact ⟨hf, ha, h.span.trans h4, hr, hmax ▸ h.limited, h.ticks, h.seqs, hseq ▸ h.seq⟩

theorem round_unit_four : 256 * Level.unit 4 = tickRange := by decide

theorem Sound.ahead {w : Wheel α} {ps : List (Pending α)} (h : w.Sound ps) :
    ∀ e ∈ ps, e.due < (w.dial 4).base + 256 * Level.unit 4 := by
  intro e he
  have := h.ticks e he
  have := round_unit_four
  omega

theorem currentTick_eq (w : Wheel α) : w.currentTick = (w.dial 0).base := rfl

def stride (w : Wheel α) (now : Nat) : Nat :=
  if w.finest.count = 0 then min w.finest.untilWrap (now + 1 - w.finest.base) else 1

theorem advance_eq (w : Wheel α) (now : Nat) :
    w.advance now =
      if w.stride now = w.finest.untilWrap then (w.skip 0 (w.stride now)).cascade (outward 1)
      else w.skip 0 (w.stride now) := by
  have h : w.advance now =
      if (w.stride now == w.finest.untilWrap) = true then
        (w.skip 0 (w.stride now)).cascade (outward 1)
      else w.skip 0 (w.stride now) := rfl
  simpa using h

theorem untilWrap_eq (w : Wheel α) : w.finest.untilWrap = 256 - (w.dial 0).index.val := rfl

theorem stride_pos {w : Wheel α} {now : Nat} (hle : w.currentTick ≤ now) : 0 < w.stride now := by
  have hidx := (w.dial 0).index.isLt
  have hwrap := w.untilWrap_eq
  simp only [currentTick] at hle
  unfold stride
  split <;> omega

theorem stride_le_untilWrap (w : Wheel α) (now : Nat) : w.stride now ≤ w.finest.untilWrap := by
  have hidx := (w.dial 0).index.isLt
  have hwrap := w.untilWrap_eq
  unfold stride
  split <;> omega

theorem stride_le {w : Wheel α} {now : Nat} (hle : w.currentTick ≤ now) :
    w.currentTick + w.stride now ≤ now + 1 := by
  simp only [currentTick] at hle ⊢
  unfold stride
  split <;> omega

theorem Filed.locate_ne_of_count {w : Wheel α} {ps : List (Pending α)} (h : w.Filed ps) {k : Fin 5}
    (hk : w.count k = 0) {e : Pending α} (he : e ∈ ps) (s : Fin 256) :
    w.dial.locate e.due ≠ .slot k s := by
  rw [h.layout.count k, Finset.sum_eq_zero_iff] at hk
  have hs := List.eq_nil_of_length_eq_zero (hk s (Finset.mem_univ s))
  exact placed_eq_nil.1 hs e he

theorem Filed.stride_passes_none {w : Wheel α} {ps : List (Pending α)} (h : w.Filed ps) (now : Nat)
    (hempty : ∀ e ∈ ps, w.dial.locate e.due ≠ w.dial.currentPlace 0) :
    ∀ e ∈ ps, ∀ s, w.dial.locate e.due = .slot 0 s →
      (w.dial 0).base + w.stride now * Level.unit (0 : Fin 5) ≤ e.due := by
  intro e he s hs
  by_cases hcount : w.finest.count = 0
  · exact absurd hs (h.locate_ne_of_count hcount he s)
  · rw [stride, if_neg hcount, Nat.one_mul]
    exact Dial.le_of_locate_ne_index hs fun e' => hempty e he (by rw [hs, e', Dial.currentPlace])

theorem base_stride (w : Wheel α) (now : Nat) :
    ((w.skip 0 (w.stride now)).dial 0).base = w.currentTick + w.stride now := by
  rw [dial_skip, Dial.base_move, currentTick_eq]
  simp [Level.unit]

/-- The finest level has gone round, and the other ones have not moved. -/
theorem Sound.carry_stride {w : Wheel α} {ps : List (Pending α)} (h : w.Sound ps) {now : Nat}
    (hround : w.stride now = w.finest.untilWrap) :
    (w.skip 0 (w.stride now)).dial.Carry 1 ∧
      ∀ e ∈ ps, e.due < ((w.skip 0 (w.stride now)).dial 4).base + 256 * Level.unit 4 := by
  constructor
  · rw [dial_skip, hround, untilWrap_eq]
    exact h.aligned.move_wrap
  · rw [dial_skip, Dial.move_ne _ (by decide)]
    exact h.ahead

theorem Sound.advance {w : Wheel α} {ps : List (Pending α)} (h : w.Sound ps) {now : Nat}
    (hnow : now < tickRange) (hle : w.currentTick ≤ now)
    (hempty : ∀ e ∈ ps, w.dial.locate e.due ≠ w.dial.currentPlace 0) :
    (w.advance now).Sound ps ∧ (w.advance now).currentTick = w.currentTick + w.stride now ∧
      (w.advance now).books = w.books := by
  have hstride := stride_le hle
  have hwrap := w.stride_le_untilWrap now
  have hf := h.filed.skip (h.filed.stride_passes_none now hempty)
  have hbase := w.base_stride now
  have h4 : ((w.skip 0 (w.stride now)).dial 4).base = (w.dial 4).base := by
    rw [dial_skip, Dial.move_ne _ (by decide)]
  rw [advance_eq]
  split
  -- the finest level has gone round
  · rename_i hround
    obtain ⟨hc, hahead⟩ := h.carry_stride hround
    have hone : ((1 : Fin 5) : Nat) = 1 := rfl
    obtain ⟨hf', ha, h0, h4', hb⟩ := hf.cascade (by decide) hc hahead
    rw [hone] at hf' ha h0 h4' hb
    have htick : ((w.skip 0 (w.stride now)).cascade (outward 1)).currentTick =
        w.currentTick + w.stride now := by rw [currentTick_eq, h0, hbase]
    rw [h4] at h4'
    exact ⟨h.of_filed hf' ha h4' (by omega) hb, htick, hb⟩
  · rename_i hround
    have htick : (w.skip 0 (w.stride now)).currentTick = w.currentTick + w.stride now := hbase
    have hb := w.books_skip 0 (w.stride now)
    have hlt : (w.dial 0).index.val + w.stride now < 256 := by
      rw [untilWrap_eq] at hwrap hround
      omega
    have ha : (w.skip 0 (w.stride now)).dial.Aligned := by
      rw [dial_skip]
      exact h.aligned.move hlt
    have hs := h.of_filed hf ha h4.ge (by omega) hb
    exact ⟨hs, htick, hb⟩

theorem Sound.advance_le_due {w : Wheel α} {ps : List (Pending α)} (h : w.Sound ps) (now : Nat)
    (hempty : ∀ e ∈ ps, w.dial.locate e.due ≠ w.dial.currentPlace 0)
    (hdue : ∀ e ∈ ps, w.currentTick ≤ e.due) :
    ∀ e ∈ ps, w.currentTick + w.stride now ≤ e.due := by
  intro e he
  have hwrap := w.stride_le_untilWrap now
  have hone := h.aligned.one
  rw [untilWrap_eq] at hwrap
  cases hl : w.dial.locate e.due with
  | overdue =>
    have := (Dial.locate_eq_overdue_iff _ _).1 hl 0
    have := hdue e he
    simp only [currentTick, finest, dial] at *
    omega
  | slot k s =>
    by_cases hk : k = 0
    · subst hk
      have := h.filed.stride_passes_none now hempty e he s hl
      rw [currentTick_eq]
      simpa [Level.unit] using this
    · have hbase := Dial.base_le_of_locate hl
      have hle := h.aligned.one_le hk
      rw [currentTick_eq]
      omega

theorem dial_withMaxDelay (now limit : UInt64) :
    (withMaxDelay now limit : Wheel α).dial = Dial.start (tickOf now) := by
  funext k
  simp [dial, withMaxDelay, get_eq_getElem, Level.new, Dial.start]

theorem tickOf_lt (now : UInt64) : tickOf now < tickRange := Nat.mod_lt _ (by decide)

theorem Sound.start (now limit : UInt64) : (withMaxDelay now limit : Wheel α).Sound [] := by
  have hticks := tickOf_lt now
  refine ⟨⟨⟨fun p => ?_, ?_, fun k => ?_⟩, by simp, Arena.shares_empty, rfl⟩, ?_, ?_, ?_, ?_,
    by simp, by simp, (by decide : 0 < seqLimit)⟩
  · rw [placed_nil]
    cases p with
    | overdue => exact Arena.linked_empty _
    | slot k s =>
      have hempty : (withMaxDelay now limit : Wheel α).chain (.slot k s) = .empty := by
        simp [chain, withMaxDelay, get_eq_getElem, Level.new]
      rw [hempty]
      exact Arena.linked_empty _
  · simp [placed_nil]
  · simp [placed_nil, count, withMaxDelay, get_eq_getElem, Level.new]
  · rw [dial_withMaxDelay]
    exact Dial.aligned_start _
  · rw [dial_withMaxDelay]
    exact Nat.le_add_left _ _
  · rw [currentTick_eq, dial_withMaxDelay]
    exact hticks.le
  · exact Nat.min_le_right _ _

theorem Sound.align {w : Wheel α} {ps : List (Pending α)} (h : w.Sound ps) {now : Nat}
    (hnow : now < tickRange) :
    (w.align now).Sound ps ∧ (w.align now).currentTick = if ps = [] then now else w.currentTick := by
  have hd := w.dial_align now
  have hps : w.len = 0 ↔ ps = [] := by rw [h.filed.len, List.length_eq_zero_iff]
  rw [currentTick_eq, hd]
  by_cases hal : w.len = 0 ∧ w.currentTick ≠ now
  · rw [if_pos hal] at hd ⊢
    refine ⟨⟨h.filed.align now, hd ▸ Dial.aligned_start now, ?_, ?_, ?_, h.ticks, h.seqs, ?_⟩, ?_⟩
    · rw [hd]
      exact Nat.le_add_left _ _
    · rw [currentTick_eq, hd]
      exact hnow.le
    · exact (congrArg Books.maxDelay (w.books_align now)).trans_le h.limited
    · exact (congrArg Books.seq (w.books_align now)).trans_lt h.seq
    · rw [if_pos (hps.1 hal.1)]
      rfl
  · rw [if_neg hal] at hd ⊢
    have hkeep : w.align now = w := if_neg hal
    rw [hkeep]
    refine ⟨h, ?_⟩
    split
    · rename_i hnil
      by_contra hne
      exact hal ⟨hps.2 hnil, hne⟩
    · rfl

/-- The coarsest level reaches to the end of time, so that its horizon cuts nothing. -/
theorem Sound.dueTick_eq {w : Wheel α} {ps : List (Pending α)} (h : w.Sound ps) (now : Nat)
    (delay : UInt64) :
    w.dueTick now delay = min (now + min delay.toNat w.maxDelay) (tickRange - 1) := by
  have hspan := h.span
  have hround := round_unit_four
  have hcoarsest : w.coarsest.base = (w.dial 4).base := rfl
  unfold dueTick
  omega

theorem add_eq (w : Wheel α) (now delay : UInt64) (payload : α) :
    w.add now delay payload =
      (pack ((w.align (tickOf now)).dueTick (tickOf now) delay) (nextSeq (w.align (tickOf now)).seq),
        { (w.align (tickOf now)).file (nextSeq (w.align (tickOf now)).seq)
            ((w.align (tickOf now)).dueTick (tickOf now) delay) payload with
          len := ((w.align (tickOf now)).file (nextSeq (w.align (tickOf now)).seq)
            ((w.align (tickOf now)).dueTick (tickOf now) delay) payload).len + 1 }) := rfl

theorem Sound.file {w : Wheel α} {ps : List (Pending α)} (h : w.Sound ps) {due : Nat}
    (hdue : due < tickRange) (payload : α) :
    ∃ i, ({ w.file (nextSeq w.seq) due payload with len := w.len + 1 } : Wheel α).Sound
        (ps ++ [⟨i, nextSeq w.seq, due, payload⟩]) ∧
      (w.file (nextSeq w.seq) due payload).dial = w.dial ∧
      (w.file (nextSeq w.seq) due payload).books = { w.books with seq := nextSeq w.seq } := by
  obtain ⟨hf, hd, hb⟩ := h.filed.file (nextSeq w.seq) due payload
  have hmax : (w.file (nextSeq w.seq) due payload).maxDelay = w.maxDelay :=
    congrArg Books.maxDelay hb
  have hseq : (w.file (nextSeq w.seq) due payload).seq = nextSeq w.seq := congrArg Books.seq hb
  have hcur : (w.file (nextSeq w.seq) due payload).currentTick = w.currentTick := by
    rw [currentTick_eq, hd]
    rfl
  refine ⟨_, ⟨hf, ?_, ?_, hcur.trans_le h.reached, hmax.trans_le h.limited, ?_, ?_, ?_⟩, hd, hb⟩
  · change (w.file (nextSeq w.seq) due payload).dial.Aligned
    rw [hd]
    exact h.aligned
  · change Level.unit 4 ≤ ((w.file (nextSeq w.seq) due payload).dial 4).base
    rw [hd]
    exact h.span
  · intro e he
    rcases List.mem_append.1 he with he | he
    · exact h.ticks e he
    · rw [List.mem_singleton.1 he]
      exact hdue
  · intro e he
    rcases List.mem_append.1 he with he | he
    · exact h.seqs e he
    · rw [List.mem_singleton.1 he]
      exact ⟨nextSeq_pos _, nextSeq_lt _⟩
  · exact hseq.trans_lt (nextSeq_lt _)

theorem Sound.add {w : Wheel α} {ps : List (Pending α)} (h : w.Sound ps) (now delay : UInt64)
    (payload : α) :
    ∃ e : Pending α, e.seq = nextSeq w.seq ∧ e.payload = payload ∧
      e.due = min (tickOf now + min delay.toNat w.maxDelay) (tickRange - 1) ∧
      (w.add now delay payload).1 = e.expired.id ∧
      (w.add now delay payload).2.Sound (ps ++ [e]) ∧
      (w.add now delay payload).2.currentTick = (if ps = [] then tickOf now else w.currentTick) ∧
      (w.add now delay payload).2.books =
        { w.books with seq := nextSeq w.seq, len := w.len + 1 } := by
  obtain ⟨ha, hcur⟩ := h.align (tickOf_lt now)
  have hbooks := w.books_align (tickOf now)
  have hseq : (w.align (tickOf now)).seq = w.seq := congrArg Books.seq hbooks
  have hlen : (w.align (tickOf now)).len = w.len := congrArg Books.len hbooks
  have hmax : (w.align (tickOf now)).maxDelay = w.maxDelay := congrArg Books.maxDelay hbooks
  have hdue := ha.dueTick_eq (tickOf now) delay
  have hlt : (w.align (tickOf now)).dueTick (tickOf now) delay < tickRange := by
    have : 0 < tickRange := by decide
    omega
  obtain ⟨i, hf, hd, hb⟩ := ha.file hlt payload
  have hlen' := congrArg Books.len hb
  refine ⟨_, ?_, ?_, ?_, ?_, by rw [add_eq, show Wheel.len _ = _ from hlen']; exact hf, ?_, ?_⟩
  · rw [hseq]
  · rfl
  · rw [hdue, hmax]
  · rfl
  · rw [← hcur, add_eq, currentTick_eq, currentTick_eq]
    exact congrArg (fun d => (d 0).base) hd
  · rw [add_eq]
    simp only [books, Books.mk.injEq] at hb hbooks ⊢
    rw [hseq] at hb ⊢
    simp [hb, hbooks]

theorem Sound.removed {w v : Wheel α} {pre post : List (Pending α)} {e : Pending α}
    (h : w.Sound (pre ++ e :: post)) (hf : v.Filed (pre ++ post)) (hd : v.dial = w.dial)
    (hmax : v.maxDelay = w.maxDelay) (hseq : v.seq = w.seq) : v.Sound (pre ++ post) := by
  have hless := (List.sublist_cons_self e post).append_left pre
  refine ⟨hf, hd ▸ h.aligned, hd ▸ h.span, ?_, hmax.trans_le h.limited,
    fun x hx => h.ticks x (hless.subset hx), fun x hx => h.seqs x (hless.subset hx),
    hseq.trans_lt h.seq⟩
  rw [currentTick_eq, hd]
  exact h.reached

theorem unpack_expired {e : Pending α} (hdue : e.due < tickRange) (hseq : e.seq < seqLimit) :
    unpack e.expired.id = (e.due, e.seq) := by
  have hlt : e.seq < seqRange := hseq.trans (by decide)
  rw [Pending.expired, unpack_pack, Nat.mod_eq_of_lt hdue, Nat.mod_eq_of_lt hlt]

/-- A handle names a timer by its due tick and its sequence number. -/
theorem expired_id_eq_iff {e : Pending α} (hdue : e.due < tickRange) (hseq : e.seq < seqLimit)
    (id : TimerId) : e.expired.id = id ↔ unpack id = (e.due, e.seq) := by
  have hlt : e.seq < seqRange := hseq.trans (by decide)
  constructor
  · rintro rfl
    exact unpack_expired hdue hseq
  · intro h
    apply UInt64.toNat_inj.1
    rw [Pending.expired, toNat_pack, Nat.mod_eq_of_lt hdue, Nat.mod_eq_of_lt hlt]
    simp only [unpack, seqRange, Nat.reduceShiftLeft, Prod.mk.injEq] at h ⊢
    omega

theorem expired_id_ne_zero {e : Pending α} (hseq : 0 < e.seq ∧ e.seq < seqLimit) :
    e.expired.id ≠ 0 := by
  intro h
  have hlt : e.seq < seqRange := hseq.2.trans (by decide)
  have := congrArg UInt64.toNat h
  rw [Pending.expired, toNat_pack, Nat.mod_eq_of_lt hlt] at this
  simp at this
  omega

inductive Deleted (w : Wheel α) (ps : List (Pending α)) (id : TimerId) : Bool × Wheel α → Prop where
  | missing (hrun : w.running ≠ some id ∨ id = 0) (hno : ∀ e ∈ ps, e.expired.id ≠ id) :
    Deleted w ps id (false, w)
  | running (hid : id ≠ 0) (hrun : w.running = some id) : Deleted w ps id (true, w)
  | removed (pre post : List (Pending α)) (e : Pending α) (v : Wheel α)
    (hrun : w.running ≠ some id) (heq : ps = pre ++ e :: post) (hid : e.expired.id = id)
    (hpre : ∀ x ∈ pre, x.expired.id ≠ id) (hv : v.Sound (pre ++ post)) (hd : v.dial = w.dial)
    (hb : v.books = { w.books with len := w.len - 1, cancelled := w.cancelled + 1 }) :
    Deleted w ps id (true, v)

theorem Sound.delete {w : Wheel α} {ps : List (Pending α)} (h : w.Sound ps) (id : TimerId) :
    Deleted w ps id (w.delete id) := by
  unfold Wheel.delete
  split
  · rename_i hzero
    refine .missing (.inr hzero) fun e he => ?_
    rw [hzero]
    exact expired_id_ne_zero (h.seqs e he)
  · rename_i hid
    split
    · rename_i hrun
      exact .running hid hrun
    · rename_i hrun
      rcases hu : unpack id with ⟨due, seq⟩
      have hnamed : ∀ e ∈ ps, e.expired.id = id ↔ e.seq = seq ∧ e.due = due := by
        intro e he
        rw [expired_id_eq_iff (h.ticks e he) (h.seqs e he).2, hu, Prod.mk.injEq]
        exact ⟨fun hu => ⟨hu.2.symm, hu.1.symm⟩, fun hu => ⟨hu.2.symm, hu.1.symm⟩⟩
      by_cases hex : ∃ e ∈ ps, e.expired.id = id
      · obtain ⟨pre, e, post, rfl, hide, hpre⟩ := exists_first hex
        obtain ⟨rfl, rfl⟩ := (hnamed e (by simp)).1 hide
        have hnot : ∀ x ∈ pre, ¬ (x.seq = e.seq ∧ x.due = e.due) := fun x hx hxe =>
          hpre x hx ((hnamed x (by simp [hx])).2 hxe)
        obtain ⟨v, hv, hd, hb, -, hf⟩ := h.filed.unlink_some h.ticks hnot
        have hmax := congrArg Books.maxDelay hb
        have hseq := congrArg Books.seq hb
        simp only [hv]
        refine .removed pre post e _ hrun rfl hide hpre
          (h.removed (hf.congr rfl rfl rfl rfl) hd hmax hseq) hd ?_
        simp only [books, Books.mk.injEq] at hb ⊢
        simp [hb]
      · have hno : ∀ e ∈ ps, e.expired.id ≠ id := fun e he hide => hex ⟨e, he, hide⟩
        simp only [h.filed.unlink_none h.ticks fun e he => mt (hnamed e he).2 (hno e he)]
        exact .missing (.inl hrun) hno

/-- What one poll at tick `now` does: nothing is due, or the first timer behind the levels is taken,
or else the first one of the least due tick. -/
inductive Polled (w : Wheel α) (ps : List (Pending α)) (now : Nat) :
    Option (Expired α) × Wheel α → Prop where
  | idle (v : Wheel α) (hv : v.Sound ps) (hdue : ∀ e ∈ ps, now < e.due)
    (hcur : v.currentTick ≤ max w.currentTick (now + 1)) (hmin : ∀ e ∈ ps, v.currentTick ≤ e.due)
    (hb : v.books = w.books) : Polled w ps now (none, v)
  | overdue (pre post : List (Pending α)) (e : Pending α) (v : Wheel α)
    (heq : ps = pre ++ e :: post) (hdue : e.due < w.currentTick)
    (hpre : ∀ x ∈ pre, w.currentTick ≤ x.due) (hv : v.Sound (pre ++ post))
    (hcur : v.currentTick = w.currentTick)
    (hb : v.books =
      { w.books with len := w.len - 1, fired := w.fired + 1, running := some e.expired.id }) :
    Polled w ps now (some e.expired, v)
  | due (pre post : List (Pending α)) (e : Pending α) (v : Wheel α)
    (heq : ps = pre ++ e :: post) (hdue : e.due ≤ now) (hpre : ∀ x ∈ pre, e.due < x.due)
    (hpost : ∀ x ∈ post, e.due ≤ x.due) (hv : v.Sound (pre ++ post)) (hcur : v.currentTick = e.due)
    (hb : v.books =
      { w.books with len := w.len - 1, fired := w.fired + 1, running := some e.expired.id }) :
    Polled w ps now (some e.expired, v)

theorem Sound.fire_pop {w : Wheel α} {pre post : List (Pending α)} {e : Pending α}
    (h : w.Sound (pre ++ e :: post)) (hpre : ∀ x ∈ pre, w.dial.locate x.due ≠ w.dial.locate e.due) :
    ∃ i v, w.pop (w.dial.locate e.due) = some (i, v) ∧ (v.fire i).1 = some e.expired ∧
      (v.fire i).2.Sound (pre ++ post) ∧ (v.fire i).2.dial = w.dial ∧
      (v.fire i).2.books =
        { w.books with len := w.len - 1, fired := w.fired + 1, running := some e.expired.id } := by
  obtain ⟨v, hpop, hfire, hf, hd, hb⟩ := h.filed.fire_pop hpre
  exact ⟨e.node, v, hpop, hfire,
    h.removed hf hd (congrArg Books.maxDelay hb) (congrArg Books.seq hb), hd, hb⟩

/-- The timers of the current slot of the finest level are due at its base. -/
theorem Sound.due_of_current {w : Wheel α} {ps : List (Pending α)} (h : w.Sound ps) {due : Nat}
    (hl : w.dial.locate due = w.dial.currentPlace 0) : due = w.currentTick := by
  have hbase := Dial.base_le_of_locate hl
  have hnear : w.dial.offset 0 due < 256 := (h.aligned.offset_lt hl (by decide)).trans_le
    (Nat.sub_le _ _)
  have hlt := Dial.lt_of_locate_index hl hnear
  simp only [Fin.val_zero, Level.unit_eq, Nat.pow_zero] at hlt
  rw [currentTick_eq]
  omega

/-- A timer that is due at the base of the finest level is in its current slot. -/
theorem Sound.locate_currentTick {w : Wheel α} {ps : List (Pending α)} (h : w.Sound ps) :
    w.dial.locate w.currentTick = w.dial.currentPlace 0 := by
  rw [Dial.currentPlace, Dial.locate_eq_slot_iff, currentTick_eq]
  refine ⟨le_refl _, fun j hj => ?_, ?_⟩
  · have hidx := (w.dial 0).index.isLt
    have hone := h.aligned.one
    have hle := h.aligned.one_le (Fin.ne_of_gt hj)
    omega
  · simp [Dial.slotFor, Dial.offset]

theorem Polled.advanced {w v : Wheel α} {ps : List (Pending α)} {now : Nat}
    {r : Option (Expired α) × Wheel α} (h : Polled v ps now r) (hcur : v.currentTick ≤ now + 1)
    (hmin : ∀ e ∈ ps, v.currentTick ≤ e.due) (hb : v.books = w.books) : Polled w ps now r := by
  have hlen : v.len = w.len := congrArg Books.len hb
  have hfired : v.fired = w.fired := congrArg Books.fired hb
  cases h with
  | idle u hu hdue hle hmin' hb' => exact .idle u hu hdue (by omega) hmin' (hb'.trans hb)
  | overdue pre post e u heq hdue =>
    have := hmin e (by simp [heq])
    omega
  | due pre post e u heq hdue hpre hpost hu hcur' hb' =>
    rw [hb, hlen, hfired] at hb'
    exact .due pre post e u heq hdue hpre hpost hu hcur' hb'

theorem Sound.pollRounds {w : Wheel α} {ps : List (Pending α)} (h : w.Sound ps) {now n : Nat}
    (hnow : now < tickRange) (hn : now + 1 ≤ w.currentTick + n)
    (hmin : ∀ e ∈ ps, w.currentTick ≤ e.due) : Polled w ps now (Wheel.pollRounds now n w) := by
  induction n generalizing w with
  | zero =>
    refine .idle w h (fun e he => ?_) (Nat.le_max_left _ _) hmin rfl
    have := hmin e he
    omega
  | succ n ih =>
    unfold Wheel.pollRounds
    split
    · rename_i hstop
      refine .idle w h (fun e he => ?_) (Nat.le_max_left _ _) hmin rfl
      rcases hstop with hlen | hlt
      · rw [h.filed.len, List.length_eq_zero_iff] at hlen
        simp [hlen] at he
      · have := hmin e he
        omega
    · rename_i hgo
      have hle : w.currentTick ≤ now := by omega
      rw [popCurrent_eq]
      by_cases hex : ∃ e ∈ ps, w.dial.locate e.due = w.dial.currentPlace 0
      -- the first of the current slot
      · obtain ⟨pre, e, post, rfl, hloc, hpre⟩ := exists_first hex
        have hdue := h.due_of_current hloc
        obtain ⟨i, v, hpop, hfire, hv, hd, hb⟩ := h.fire_pop (e := e) (by rwa [hloc])
        rw [← hloc, hpop]
        have hcur : (v.fire i).2.currentTick = e.due := by
          rw [currentTick_eq, hd, hdue]
          rfl
        have hbefore : ∀ x ∈ pre, e.due < x.due := by
          intro x hx
          have hxmin := hmin x (by simp [hx])
          have hne : x.due ≠ w.currentTick := by
            intro hxe
            apply hpre x hx
            rw [hxe]
            exact h.locate_currentTick
          omega
        have hafter : ∀ x ∈ post, e.due ≤ x.due := fun x hx => hdue ▸ hmin x (by simp [hx])
        have hpolled : Polled w _ now (some e.expired, (v.fire i).2) :=
          .due pre post e _ rfl (hdue ▸ hle) hbefore hafter hv hcur hb
        rwa [← hfire] at hpolled
      -- the current slot is empty
      · have hempty : ∀ e ∈ ps, w.dial.locate e.due ≠ w.dial.currentPlace 0 :=
          fun e he hl => hex ⟨e, he, hl⟩
        rw [h.filed.pop_none hempty]
        obtain ⟨hs, hcur, hb⟩ := h.advance hnow hle hempty
        have hpos := stride_pos hle
        have hstride := stride_le hle
        have hmin' := h.advance_le_due now hempty hmin
        rw [← hcur] at hmin' hstride
        exact (ih hs (by omega) hmin').advanced hstride hmin' hb

/-- Nothing pending is behind the levels when the overdue chain is empty. -/
theorem Sound.currentTick_le_due {w : Wheel α} {ps : List (Pending α)} (h : w.Sound ps) {due : Nat}
    (hl : w.dial.locate due ≠ .overdue) : w.currentTick ≤ due := by
  cases hk : w.dial.locate due with
  | overdue => exact absurd hk hl
  | slot k s => exact (h.aligned.finest_le k).trans (Dial.base_le_of_locate hk)

theorem Sound.poll {w : Wheel α} {ps : List (Pending α)} (h : w.Sound ps) (now : UInt64) :
    Polled w ps (tickOf now) (w.poll now) := by
  unfold Wheel.poll
  rw [popOverdue_eq]
  by_cases hex : ∃ e ∈ ps, w.dial.locate e.due = .overdue
  · obtain ⟨pre, e, post, rfl, hloc, hpre⟩ := exists_first hex
    obtain ⟨i, v, hpop, hfire, hv, hd, hb⟩ := h.fire_pop (e := e) (by rwa [hloc])
    rw [← hloc, hpop]
    have hdue : e.due < w.currentTick := (Dial.locate_eq_overdue_iff _ _).1 hloc 0
    have hcur : (v.fire i).2.currentTick = w.currentTick := by
      rw [currentTick_eq, hd]
      rfl
    have hpolled : Polled w _ (tickOf now) (some e.expired, (v.fire i).2) :=
      .overdue pre post e _ rfl hdue (fun x hx => h.currentTick_le_due (hpre x hx)) hv hcur hb
    rwa [← hfire] at hpolled
  · have hnone : ∀ e ∈ ps, w.dial.locate e.due ≠ .overdue := fun e he hl => hex ⟨e, he, hl⟩
    rw [h.filed.pop_none hnone]
    exact h.pollRounds (tickOf_lt now) (by omega) fun e he => h.currentTick_le_due (hnone e he)

theorem Sound.finish {w : Wheel α} {ps : List (Pending α)} (h : w.Sound ps) : w.finish.Sound ps :=
  ⟨h.filed.congr rfl rfl rfl rfl, h.aligned, h.span, h.reached, h.limited, h.ticks, h.seqs, h.seq⟩

end ActorSystem.Timer.Wheel
