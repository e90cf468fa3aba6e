import ActorSystem.Proofs.Checked

set_option autoImplicit false

namespace ActorSystem.Timer

theorem minus?_eq {x y : Nat} (h : y ≤ x) : minus? x y = some (x - y) := if_pos h

theorem plus?_eq {x y : Nat} (h : x + y < 2 ^ 64) : plus? x y = some (x + y) := if_pos h

namespace Arena

variable {α : Type} {a : Arena α} {c : Chain} {is : List Nat} {i : Nat}

theorem setNext?_eq (h : i < a.capacity) (next : Option Nat) :
    a.setNext? i next = some (a.setNext i next) := if_pos h

theorem release?_eq (h : i < a.capacity) : a.release? i = some (a.release i) := if_pos h

theorem acquire?_eq (h : a.Shares is) (seq due : Nat) (payload : α) :
    a.acquire? seq due payload = some (a.acquire seq due payload) := by
  unfold acquire?
  split
  · rename_i i free hf
    exact if_pos (h.lt_capacity_free (by simp [hf]))
  · rfl

theorem pushBack?_eq (h : a.Linked c is) (hi : i < a.capacity) :
    a.pushBack? c i = some (a.pushBack c i) := by
  cases ht : c.tail with
  | none => simp [pushBack?, pushBack, ht, setNext?_eq hi]
  | some t =>
    have hlast := h.tail
    rw [ht] at hlast
    have hlt : t < (a.setNext i none).capacity := by
      rw [capacity_setNext]
      exact h.lt_capacity (List.mem_of_getLast? hlast.symm)
    simp [pushBack?, pushBack, ht, setNext?_eq hi, setNext?_eq hlt]

theorem popFront?_eq (h : a.Linked c is) : a.popFront? c = some (a.popFront c) := by
  cases is with
  | nil =>
    have hh : c.head = none := h.path
    simp [popFront?, popFront, hh]
  | cons i is =>
    obtain ⟨hh, hi, -⟩ := h.path
    have hlen : 1 ≤ c.len := by simp [h.len]
    simp [popFront?, popFront, hh, setNext?_eq hi, minus?_eq hlen]

theorem search?_eq {h : Option Nat} (hp : a.Leads h is none) (due seq : Nat)
    (prev : Option Nat) :
    a.search? due seq is.length prev h = some (a.search tickRange due seq is.length prev h) := by
  induction is generalizing h prev with
  | nil =>
    cases hp
    rfl
  | cons i is ih =>
    obtain ⟨rfl, hi, hrest⟩ := hp
    have hnode : a.node? i = some a.nodes[i] := Array.getElem?_eq_getElem hi
    have hnext : a.next? i = a.nodes[i].next := by simp [next?, hnode]
    rw [hnext] at hrest
    simp only [List.length_cons, search?, search, hnode, Option.bind_eq_bind, Option.bind_some]
    split
    · rfl
    · exact ih hrest (some i)

theorem unlink?_eq (h : a.Linked c is) (due seq : Nat) :
    a.unlink? c due seq = some (a.unlink c tickRange due seq) := by
  have hs := search?_eq h.path due seq none
  rw [← h.len] at hs
  by_cases hex : ∃ i ∈ is, a.Matches tickRange due seq i
  · obtain ⟨pre, i, post, rfl, hit, hno⟩ := Wheel.exists_first hex
    have hlen : 1 ≤ c.len := by
      rw [h.len, List.length_append, List.length_cons]
      omega
    have hi : i < a.capacity := h.lt_capacity (by simp)
    have hfound := search_hit h.path hno hit (n := c.len) (by simp [h.len]) none
    rw [Option.or_none] at hfound
    rw [unlink, unlink?, hs, hfound]
    cases hlast : pre.getLast? with
    | none => simp [minus?_eq hlen, setNext?_eq hi]
    | some p =>
      have hp : p < a.capacity := h.lt_capacity (by simp [List.mem_of_getLast? hlast])
      have hi' : i < (a.setNext p (a.next? i)).capacity := by simpa using hi
      simp [minus?_eq hlen, setNext?_eq hp, setNext?_eq hi']
  · have hno : ∀ i ∈ is, ¬ a.Matches tickRange due seq i := fun i hi hm => hex ⟨i, hi, hm⟩
    have hmiss := search_miss h.path hno c.len none
    simp [unlink, unlink?, hs, hmiss]

end Arena

namespace Wheel

variable {α : Type}

/-- The timer is less than a round ahead on the level that it belongs to. -/
def Near (d : Dial) (due : Nat) : Prop :=
  ∀ k s, d.locate due = .slot k s → d.offset k due < 256

theorem locate?_eq {w : Wheel α} {due : Nat} (h : Near w.dial due) :
    w.locate? due = some (w.locate due) := by
  have hl := Dial.locate_dial w due
  rw [locate] at hl
  rw [locate?, locate]
  cases hk : ([4, 3, 2, 1, 0] : List (Fin 5)).find? fun k =>
    decide ((w.levels.get k).base ≤ due) with
  | none => rfl
  | some k =>
    simp only [hk] at hl
    have hle : (w.levels.get k).base ≤ due := Dial.base_le_of_locate hl.symm
    have hnear : (due - (w.levels.get k).base) / Level.unit k < 256 := h k _ hl.symm
    simp only [Level.slotFor?, minus?_eq hle, Option.bind_eq_bind, Option.bind_some,
      if_pos hnear, Option.map_some]
    rfl

theorem insert?_eq {w : Wheel α} {nodes : Place → List Nat} (h : w.Layout nodes) {i : Nat}
    (hi : i < w.arena.capacity) (hnear : Near w.dial (w.arena.due i)) :
    w.insert? i = some (w.insert i) := by
  have hnode : w.arena.node? i = some w.arena.nodes[i] := Array.getElem?_eq_getElem hi
  have hdue : w.arena.due i = w.arena.nodes[i].due := by simp [Arena.due, hnode]
  have hloc := locate?_eq hnear
  rw [hdue] at hloc
  have hpush := Arena.pushBack?_eq (h.linked (w.locate w.arena.nodes[i].due)) hi
  unfold insert? insert
  rw [hdue]
  simp only [hnode, Option.bind_eq_bind, Option.bind_some, hloc]
  cases hl : w.locate w.arena.nodes[i].due with
  | overdue =>
    rw [hl] at hpush
    simp only [chain] at hpush
    simp [hpush]
  | slot k s =>
    rw [hl] at hpush
    simp only [chain] at hpush
    simp only [hpush, Option.bind_some]

theorem scatter?_eq {w : Wheel α} {nodes : Place → List Nat} (h : w.Layout nodes) {c : Chain}
    {is : List Nat} (hc : w.arena.Linked c is) (hnew : ∀ p, ∀ i ∈ is, i ∉ nodes p)
    (hnear : ∀ i ∈ is, Near w.dial (w.arena.due i)) :
    scatter? is.length c w = some (scatter is.length c w) := by
  induction is generalizing w nodes c with
  | nil =>
    have hempty : c.isEmpty = true := hc.isEmpty_iff.2 rfl
    simp [scatter?, scatter, hempty]
  | cons i is ih =>
    have hv := h.loosen fun p => hnew p i (by simp)
    have hrel := w.relinked_loosen i
    have hcap : i < (w.loosen i).arena.capacity := by
      rw [hrel.capacity]
      exact hc.lt_capacity (by simp)
    have hins := insert?_eq hv hcap (by rw [due_relinked hrel]; exact hnear i (by simp))
    obtain ⟨hstep, hrest, hnew'⟩ := h.scatter_step hc hnew
    have hrec := ih hstep hrest hnew' fun j hj => by
      rw [due_relinked (relinked_insert _ i), due_relinked hrel, dial_insert]
      exact hnear j (by simp [hj])
    rw [List.length_cons, scatter_cons hc, ← hrec, scatter?, Arena.popFront?_eq hc, hc.popFront_cons]
    simp only [Option.bind_eq_bind, Option.bind_some]
    change (w.loosen i).insert? i >>= _ = _
    rw [hins]
    rfl

theorem Layout.length_le_count {w : Wheel α} {nodes : Place → List Nat} (h : w.Layout nodes)
    (k : Fin 5) (s : Fin 256) : (nodes (.slot k s)).length ≤ w.count k := by
  rw [h.count]
  exact Finset.single_le_sum (f := fun t => (nodes (.slot k t)).length) (fun _ _ => Nat.zero_le _)
    (Finset.mem_univ s)

theorem unit_le (k : Fin 5) : Level.unit k ≤ Level.unit 4 := by
  rw [Level.unit_eq, Level.unit_eq]
  exact Nat.pow_le_pow_right (by decide) k.is_le

theorem turn?_eq {w : Wheel α} {ps : List (Pending α)} {k : Fin 5} (h : w.Filed ps) (hk : k ≠ 0)
    (hc : w.dial.Carry k) (hsmall : (w.dial 0).base ≤ tickRange)
    (hnear : ∀ e ∈ ps, ∀ s, w.dial.locate e.due = .slot k s → w.dial.offset k e.due < 256) :
    w.turn? k = some (w.turn k) := by
  obtain ⟨hempty, hhand, hnew⟩ := h.vacated k
  have hlen := (h.layout.linked (w.dial.currentPlace k)).len
  have hcount : (w.chain (w.dial.currentPlace k)).len ≤ w.count k := by
    rw [hlen]
    exact h.layout.length_le_count k _
  have hbase : (w.dial k).base + Level.unit k < 2 ^ 64 := by
    have hu := unit_le k
    have h4 : Level.unit 4 + tickRange < 2 ^ 64 := by decide
    rw [hc.level]
    omega
  have hscatter := scatter?_eq hempty hhand hnew fun i hi => by
    obtain ⟨e, he, hloc, rfl⟩ := mem_placed.1 hi
    rw [dial_vacated, arena_vacated, due_eq_of_content? (h.stored e he)]
    exact fun j s hj => hc.offset_move_finer hk hloc (hnear e he _ hloc) hj
  rw [← hlen, ← turn_eq] at hscatter
  rw [← hscatter, turn?]
  change minus? (w.count k) (w.chain (w.dial.currentPlace k)).len >>= _ = _
  rw [minus?_eq hcount]
  change plus? (w.dial k).base (Level.unit k) >>= _ = _
  rw [plus?_eq hbase, vacated, Wheel.skip, Dial.currentPlace, setChain, modifyLevel_modifyLevel]
  rfl

theorem cascade?_outward (w : Wheel α) (k : Fin 5) :
    w.cascade? (outward k) = (w.turn? k).bind fun w =>
      if (w.dial k).index = 0 then w.cascade? (outward (k + 1 : Nat)) else some w := by
  rw [outward_cons, cascade?]
  rfl

theorem cascade?_eq {w : Wheel α} {ps : List (Pending α)} {k : Fin 5} (h : w.Filed ps) (hk : k ≠ 0)
    (hc : w.dial.Carry k) (hsmall : (w.dial 0).base ≤ tickRange)
    (hahead : ∀ e ∈ ps, e.due < (w.dial 4).base + 256 * Level.unit 4) :
    w.cascade? (outward k) = some (w.cascade (outward k)) := by
  induction hn : 4 - k.val generalizing w k with
  | zero =>
    obtain rfl : k = 4 := by omega
    have hturn := turn?_eq h hk hc hsmall fun e he s => near_of_carry hc (hahead e he)
    rw [cascade?_outward, cascade_outward, hturn, Option.bind_some]
    split <;> rfl
  | succ n ih =>
    have hk4 : k < 4 := by omega
    have hnear : ∀ e ∈ ps, ∀ s, w.dial.locate e.due = .slot k s → w.dial.offset k e.due < 256 :=
      fun e he s => near_of_carry hc (hahead e he)
    obtain ⟨hf, hd, -⟩ := h.turn hk hc hnear
    rw [cascade?_outward, cascade_outward, turn?_eq h hk hc hsmall hnear, Option.bind_some]
    split
    · rename_i hzero
      have hidx : (w.dial k).index.val = 255 := by
        rw [hd, Dial.index_move, Fin.ext_iff] at hzero
        have := (w.dial k).index.isLt
        simp only [Fin.ofNat, Fin.val_zero] at hzero
        omega
      have hc' := hc.move_wrap hk hk4 hidx
      have hkv := Dial.val_succ hk4
      have hk' : k + 1 ≠ 0 := fun e => by simp [e] at hkv
      have hlast : ((w.turn k).dial 0).base ≤ tickRange := by
        rw [hd, w.dial.move_ne hk.symm]
        exact hsmall
      have hfour : (w.dial 4).base ≤ ((w.turn k).dial 4).base := hd ▸ w.dial.base_le_move k 4 1
      rw [← hd] at hc'
      have hrec := ih hf hk' hc' hlast
        (fun e he => Nat.lt_of_lt_of_le (hahead e he) (Nat.add_le_add_right hfour _)) (by omega)
      rwa [hkv] at hrec
    · rfl

theorem stride?_eq {w : Wheel α} {now : Nat} (hle : w.currentTick ≤ now) :
    w.stride? now = some (w.stride now) := by
  have hbase : w.finest.base ≤ now + 1 := Nat.le_succ_of_le hle
  unfold stride? stride
  split
  · rw [minus?_eq hbase, Option.map_some]
  · rfl

theorem advance?_eq {w : Wheel α} {ps : List (Pending α)} (h : w.Sound ps) {now : Nat}
    (hnow : now < tickRange) (hle : w.currentTick ≤ now)
    (hempty : ∀ e ∈ ps, w.dial.locate e.due ≠ w.dial.currentPlace 0) :
    w.advance? now = some (w.advance now) := by
  have hstride := stride_le hle
  have hf := h.filed.skip (h.filed.stride_passes_none now hempty)
  have hsmall : w.currentTick + w.stride now < 2 ^ 64 := by
    have : tickRange < 2 ^ 64 := by decide
    omega
  rw [advance_eq, advance?, stride?_eq hle]
  simp only [Option.bind_eq_bind, Option.bind_some]
  change (plus? w.currentTick (w.stride now)).bind _ = _
  rw [plus?_eq hsmall, Option.bind_some]
  simp only [beq_iff_eq]
  split
  · rename_i hround
    obtain ⟨hc, hahead⟩ := h.carry_stride hround
    have hreached : ((w.skip 0 (w.stride now)).dial 0).base ≤ tickRange := by
      rw [w.base_stride now]
      omega
    exact cascade?_eq hf (by decide) hc hreached hahead
  · rfl

theorem fire?_eq {w : Wheel α} {e : Pending α}
    (hc : w.arena.content? e.node = some (e.seq, e.due, some e.payload)) (hlen : 1 ≤ w.len) :
    w.fire? e.node = some (w.fire e.node) := by
  rw [fire_eq hc]
  obtain ⟨n, hn, hn'⟩ := Option.map_eq_some_iff.1 hc
  simp only [Prod.mk.injEq] at hn'
  have hlt := Arena.lt_capacity_of_content? hc
  have hrel : (w.arena.release e.node).1 = some e.payload := by
    simp [Arena.release, hn, hn'.2.2]
  simp [fire?, hn, Arena.release?_eq hlt, hrel, minus?_eq hlen, hn'.1, hn'.2.1, Pending.expired]

theorem popOverdue?_eq {w : Wheel α} {ps : List (Pending α)} (h : w.Filed ps) :
    w.popOverdue? = some w.popOverdue := by
  have hpop := Arena.popFront?_eq (h.layout.linked .overdue)
  simp only [chain] at hpop
  rw [popOverdue?, popOverdue, hpop]
  cases w.arena.popFront w.overdue <;> rfl

theorem popCurrent?_eq {w : Wheel α} {ps : List (Pending α)} (h : w.Filed ps) :
    w.popCurrent? = some w.popCurrent := by
  have hl := h.layout.linked (w.dial.currentPlace 0)
  have hpop := Arena.popFront?_eq hl
  have hcurrent : w.chain (w.dial.currentPlace 0) = w.finest.current := rfl
  rw [hcurrent] at hpop hl
  rw [popCurrent?, popCurrent, hpop]
  cases hp : w.arena.popFront w.finest.current with
  | none => rfl
  | some x =>
    have hcount : 1 ≤ w.finest.count := by
      have hle := h.layout.length_le_count 0 (w.dial 0).index
      cases hps : w.dial.placed ps (w.dial.currentPlace 0) with
      | nil =>
        rw [hps] at hl
        rw [hl.popFront_nil] at hp
        exact absurd hp (by simp)
      | cons i is =>
        rw [Dial.currentPlace] at hps
        rw [hps] at hle
        exact (Nat.le_add_left 1 _).trans hle
    simp [minus?_eq hcount]

theorem Filed.one_le_len {w v : Wheel α} {pre post : List (Pending α)} {e : Pending α}
    (h : w.Filed (pre ++ e :: post)) (hb : v.books = w.books) : 1 ≤ v.len := by
  have hlen : v.len = w.len := congrArg Books.len hb
  rw [hlen, h.len, List.length_append, List.length_cons]
  omega

theorem pollRounds?_eq {w : Wheel α} {ps : List (Pending α)} (h : w.Sound ps) {now n : Nat}
    (hnow : now < tickRange) (hn : now + 1 ≤ w.currentTick + n) :
    pollRounds? now n w = some (pollRounds now n w) := by
  induction n generalizing w with
  | zero => exact if_pos (.inr (by omega))
  | succ n ih =>
    unfold pollRounds? pollRounds
    split
    · rfl
    · rename_i hgo
      have hle : w.currentTick ≤ now := by omega
      rw [popCurrent?_eq h.filed, Option.bind_eq_bind, Option.bind_some, popCurrent_eq]
      by_cases hex : ∃ e ∈ ps, w.dial.locate e.due = w.dial.currentPlace 0
      · obtain ⟨pre, e, post, rfl, hloc, hpre⟩ := exists_first hex
        obtain ⟨v, hpop, -, hb, hc, -⟩ := h.filed.pop_cons (e := e) (by rwa [hloc])
        have hlen := h.filed.one_le_len hb
        rw [← hloc, hpop]
        exact fire?_eq hc hlen
      · have hempty : ∀ e ∈ ps, w.dial.locate e.due ≠ w.dial.currentPlace 0 :=
          fun e he hl => hex ⟨e, he, hl⟩
        obtain ⟨hs, hcur, -⟩ := h.advance hnow hle hempty
        have hpos := stride_pos hle
        rw [h.filed.pop_none hempty]
        simp only [advance?_eq h hnow hle hempty]
        exact ih hs (by omega)

theorem poll?_eq {w : Wheel α} {ps : List (Pending α)} (h : w.Sound ps) (now : UInt64) :
    w.poll? now = some (w.poll now) := by
  unfold poll? poll
  rw [popOverdue?_eq h.filed, Option.bind_eq_bind, Option.bind_some, popOverdue_eq]
  by_cases hex : ∃ e ∈ ps, w.dial.locate e.due = .overdue
  · obtain ⟨pre, e, post, rfl, hloc, hpre⟩ := exists_first hex
    obtain ⟨v, hpop, -, hb, hc, -⟩ := h.filed.pop_cons (e := e) (by rwa [hloc])
    have hlen := h.filed.one_le_len hb
    rw [← hloc, hpop]
    exact fire?_eq hc hlen
  · rw [h.filed.pop_none fun e he hl => hex ⟨e, he, hl⟩]
    exact pollRounds?_eq h (tickOf_lt now) (by omega)

theorem execute?_eq {w : Wheel α} {ps : List (Pending α)} (h : w.Sound ps) (now : UInt64)
    (max : Nat) : w.execute? now max = some (w.execute now max) := by
  induction max generalizing w ps with
  | zero => rfl
  | succ max ih =>
    obtain ⟨⟨qs, hq⟩, -⟩ := (h.poll now).sound h
    have hrec := ih hq.finish
    rw [execute?, execute_succ, poll?_eq h now, Option.bind_eq_bind, Option.bind_some]
    rcases hr : w.poll now with ⟨_ | e, v⟩
    · rfl
    · rw [hr] at hrec
      simp [hrec]

theorem align?_eq {w : Wheel α} {ps : List (Pending α)} (h : w.Sound ps) {now : Nat}
    (hnow : now < tickRange) : w.align? now = some (w.align now) := by
  unfold align?
  split
  · rename_i hidle
    obtain rfl : ps = [] := List.eq_nil_of_length_eq_zero (h.filed.len ▸ hidle.1)
    refine if_pos fun k => ⟨?_, ?_⟩
    · have := h.filed.layout.count k
      simpa [placed_nil, count] using this
    · have hu := unit_le k
      have h4 : Level.unit 4 + tickRange < 2 ^ 64 := by decide
      unfold Level.start
      split <;> omega
  · rename_i hbusy
    rw [align, if_neg hbusy]

theorem dueTick?_eq {w : Wheel α} {ps : List (Pending α)} (h : w.Sound ps) {now : Nat}
    (hnow : now < tickRange) (delay : UInt64) :
    w.dueTick? now delay = some (w.dueTick now delay) := by
  have hfour := h.aligned.four_le
  have hreached := h.reached
  have hlimited := h.limited
  have hspan : Level.unit 4 + tickRange + Timer.maxDelay < 2 ^ 64 := by decide
  have hmax : 255 * Level.unit 4 = Timer.maxDelay := by decide
  rw [currentTick_eq] at hreached
  have hcoarsest : w.coarsest.base + 255 * Level.unit 4 < 2 ^ 64 := by
    have hbase : w.coarsest.base = (w.dial 4).base := rfl
    omega
  have hdelay : now + min delay.toNat w.maxDelay < 2 ^ 64 := by omega
  simp [dueTick?, dueTick, plus?_eq hcoarsest, plus?_eq hdelay]

theorem Sound.near {w : Wheel α} {ps : List (Pending α)} (h : w.Sound ps) {due : Nat}
    (hdue : due < tickRange) : Near w.dial due := by
  intro k s hl
  rcases (Fin.le_last k : k ≤ 4).eq_or_lt with rfl | hk4
  · have hround := round_unit_four
    rw [Dial.offset, Nat.div_lt_iff_lt_mul (Level.unit_pos _)]
    change due - (w.dial 4).base < 256 * Level.unit 4
    omega
  · exact (h.aligned.offset_lt hl hk4).trans_le (Nat.sub_le _ _)

theorem file?_eq {w : Wheel α} {ps : List (Pending α)} (h : w.Sound ps) {due : Nat}
    (hdue : due < tickRange) (seq : Nat) (payload : α) :
    w.file? seq due payload = some (w.file seq due payload) := by
  have hlt := (h.filed.shares.acquire seq due payload).lt_capacity
    (List.mem_append_right _ List.mem_cons_self)
  have hself : (w.acquired seq due payload).arena.content? (w.arena.acquire seq due payload).1 =
      some (seq, due, some payload) := h.filed.shares.content?_acquire seq due payload
  have hnear : Near w.dial
      ((w.acquired seq due payload).arena.due (w.arena.acquire seq due payload).1) := by
    rw [due_eq_of_content? hself]
    exact h.near hdue
  rw [file?, Arena.acquire?_eq h.filed.shares, Option.bind_eq_bind, Option.bind_some]
  exact insert?_eq (h.filed.acquired seq due payload) hlt hnear

theorem add?_eq {w : Wheel α} {ps : List (Pending α)} (h : w.Sound ps) (now delay : UInt64)
    (payload : α) : w.add? now delay payload = some (w.add now delay payload) := by
  obtain ⟨ha, -⟩ := h.align (tickOf_lt now)
  have hlt : (w.align (tickOf now)).dueTick (tickOf now) delay < tickRange := by
    have hpos : 0 < tickRange := by decide
    rw [ha.dueTick_eq]
    omega
  have hdue := dueTick?_eq ha (tickOf_lt now) delay
  have hfile := file?_eq ha hlt (nextSeq (w.align (tickOf now)).seq) payload
  rw [add_eq, add?, align?_eq h (tickOf_lt now), Option.bind_eq_bind, Option.bind_some, hdue,
    Option.bind_eq_bind, Option.bind_some, hfile, Option.bind_some]

theorem unlink?_eq {w : Wheel α} {ps : List (Pending α)} (h : w.Sound ps) {due : Nat}
    (hdue : due < tickRange) (seq : Nat) : w.unlink? due seq = some (w.unlink due seq) := by
  have hunlink := Arena.unlink?_eq (h.filed.layout.linked (w.locate due)) due seq
  have hl := h.filed.layout.linked (w.locate due)
  rw [unlink?, unlink, locate?_eq (h.near hdue), Option.bind_eq_bind, Option.bind_some]
  cases hloc : w.locate due with
  | overdue =>
    rw [hloc] at hunlink
    simp only [chain] at hunlink
    rw [hunlink]
    cases w.arena.unlink w.overdue tickRange due seq <;> rfl
  | slot k s =>
    rw [hloc] at hunlink hl
    simp only [chain] at hunlink
    simp only [hunlink]
    cases hu : w.arena.unlink ((w.levels.get k).slots.get s) tickRange due seq with
    | none => rfl
    | some x =>
      have hcount : 1 ≤ (w.levels.get k).count := by
        have hle := h.filed.layout.length_le_count k s
        cases hps : w.dial.placed ps (.slot k s) with
        | nil =>
          rw [hps] at hl
          have hnone : w.arena.unlink ((w.levels.get k).slots.get s) tickRange due seq = none :=
            hl.unlink_none (by simp)
          rw [hu] at hnone
          exact absurd hnone (by simp)
        | cons i is =>
          rw [hps] at hle
          exact (Nat.le_add_left 1 _).trans hle
      simp only [Option.bind_eq_bind, Option.bind_some, minus?_eq hcount, Option.map_some]

theorem unpack_lt (id : TimerId) : (unpack id).1 < tickRange := by
  have := id.toNat_lt
  simp only [unpack, seqRange, tickRange, Nat.reduceShiftLeft]
  omega

theorem delete?_eq {w : Wheel α} {ps : List (Pending α)} (h : w.Sound ps) (id : TimerId) :
    w.delete? id = some (w.delete id) := by
  unfold delete? delete
  split
  · rfl
  · split
    · rfl
    · have hlt := unpack_lt id
      generalize unpack id = named at hlt ⊢
      obtain ⟨due, seq⟩ := named
      have hunlink := unlink?_eq h hlt seq
      by_cases hex : ∃ e ∈ ps, e.seq = seq ∧ e.due = due
      · obtain ⟨pre, e, post, rfl, ⟨rfl, rfl⟩, hpre⟩ := exists_first hex
        obtain ⟨v, hv, -, hb, hc, -⟩ := h.filed.unlink_some h.ticks hpre
        have hlen := h.filed.one_le_len hb
        have hrel := Arena.release?_eq (Arena.lt_capacity_of_content? hc)
        rw [hv] at hunlink
        simp [hunlink, hv, hrel, minus?_eq hlen]
      · have hno : ∀ e ∈ ps, ¬ (e.seq = seq ∧ e.due = due) := fun e he hm => hex ⟨e, he, hm⟩
        rw [h.filed.unlink_none h.ticks hno] at hunlink
        simp [hunlink, h.filed.unlink_none h.ticks hno]

/-- The search for the next slot with a timer stays within the ring. -/
theorem find?_range_le (p : Nat → Bool) (n : Nat) : ((List.range n).find? p).getD n ≤ n := by
  cases hf : (List.range n).find? p with
  | none => exact le_refl n
  | some k => exact (List.mem_range.1 (List.mem_of_find?_eq_some hf)).le

theorem lookahead_le (w : Wheel α) : w.lookahead ≤ w.finest.untilWrap := by
  unfold lookahead
  split
  · exact le_refl _
  · exact find?_range_le _ _

theorem nextWake?_eq {w : Wheel α} {ps : List (Pending α)} (h : w.Sound ps) (now : UInt64) :
    w.nextWake? now = some (w.nextWake now) := by
  have hreached : w.finest.base ≤ tickRange := h.reached
  have hlook := w.lookahead_le
  have hindex : w.finest.index.val + w.finest.untilWrap = 256 :=
    Nat.add_sub_cancel' w.finest.index.isLt.le
  have hsmall : w.finest.base + w.lookahead < 2 ^ 64 := by
    have hround : tickRange + 256 < 2 ^ 64 := by decide
    omega
  unfold nextWake? nextWake
  rw [minus?_eq hindex.le, plus?_eq hsmall]
  split
  · rfl
  · split <;> rfl

theorem call?_eq {w : Wheel α} {ps : List (Pending α)} (h : w.Sound ps) (c : Call α) :
    w.call? c = some (w.call c) := by
  cases c with
  | add now delay payload => simp [call?, call, add?_eq h]
  | delete id => simp [call?, call, delete?_eq h]
  | poll now => simp [call?, call, poll?_eq h]
  | finish => rfl
  | execute now max => simp [call?, call, execute?_eq h]

theorem serve?_eq {w : Wheel α} {ps : List (Pending α)} (h : w.Sound ps) (cs : List (Call α)) :
    w.serve? cs = some (w.serve cs) := by
  induction cs generalizing w ps with
  | nil => rfl
  | cons c cs ih =>
    obtain ⟨⟨qs, hq⟩, -⟩ := h.call c
    simp [serve?, serve, call?_eq h c, ih hq]

end Wheel

end ActorSystem.Timer
