import ActorSystem.Proofs.Consistency
import Mathlib.Order.Bounds.Basic
import Mathlib.Data.Set.Insert

/-!
The nodes of a wheel. Each of them hangs at one place or is free, whatever calls have been made; those
that hang hold a timer and the free ones hold nothing. No more nodes are allocated than were needed
at some moment for the timers that were pending then.
-/

set_option autoImplicit false

namespace ActorSystem.Timer

/-- What has been done of the calls at some moment: those up to it, the last of which may have come
as far as some of its timers only. -/
inductive Call.Partway {α : Type} : List (Call α) → List (Call α) → Prop where
  | start (cs : List (Call α)) : Partway [] cs
  | within {now : UInt64} {m max : Nat} (hm : m ≤ max) (cs : List (Call α)) :
    Partway [.execute now m] (.execute now max :: cs)
  | next {ds cs : List (Call α)} (c : Call α) (h : Partway ds cs) : Partway (c :: ds) (c :: cs)

namespace Wheel

variable {α : Type}

def stock (w : Wheel α) : Option Place → List Nat
  | some p => w.members p
  | none => w.arena.free

/-- No node is lost or has two uses, and no timer is lost with its node. -/
structure Housed (w : Wheel α) : Prop where
  linked : ∀ p, w.arena.Linked (w.chain p) (w.members p)
  inside : ∀ h, ∀ i ∈ w.stock h, i < w.arena.capacity
  once : ∀ h, (w.stock h).Nodup
  home : ∀ i, i < w.arena.capacity → ∃! h, i ∈ w.stock h
  held : ∀ p, ∀ i ∈ w.members p,
    ∃ n x, w.arena.node? i = some n ∧ n.payload = some x ∧ 1 ≤ n.seq
  bare : ∀ i ∈ w.arena.free, ∃ n, w.arena.node? i = some n ∧ n.payload = none
  fires : ∀ p i v, w.pop p = some (i, v) → ∃ e, (v.fire i).1 = some e
  freed : ∀ now max, (w.execute now max).2.arena.pooled =
    w.arena.pooled + (w.execute now max).1.length
  capacity : w.arena.capacity = w.stats.pending + w.stats.pooled
  levels : w.stats.pending = w.stats.overdue + w.stats.levels.sum

theorem relinked_scatter (n : Nat) (c : Chain) (w : Wheel α) :
    Arena.Relinked w.arena (scatter n c w).arena := by
  induction n generalizing c w with
  | zero => exact .refl _
  | succ n ih =>
    unfold scatter
    split
    · exact .refl _
    · rename_i i d arena hpop
      have hinsert := relinked_insert { w with arena } i
      exact (Arena.relinked_popFront hpop).trans (hinsert.trans (ih d _))

theorem relinked_turn (w : Wheel α) (k : Fin 5) : Arena.Relinked w.arena (w.turn k).arena := by
  have h := relinked_scatter (w.chain (w.dial.currentPlace k)).len
    (w.chain (w.dial.currentPlace k)) (w.vacated k)
  rwa [← turn_eq, arena_vacated] at h

theorem relinked_cascade (ks : List (Fin 5)) (w : Wheel α) :
    Arena.Relinked w.arena (w.cascade ks).arena := by
  induction ks generalizing w with
  | nil => exact .refl _
  | cons k ks ih =>
    rw [cascade]
    split
    · exact (w.relinked_turn k).trans (ih _)
    · exact w.relinked_turn k

theorem relinked_advance (w : Wheel α) (now : Nat) :
    Arena.Relinked w.arena (w.advance now).arena := by
  rw [advance_eq]
  split
  · exact relinked_cascade _ (w.skip 0 (w.stride now))
  · exact .refl _

theorem capacity_fire (w : Wheel α) (i : Nat) :
    (w.fire i).2.arena.capacity = w.arena.capacity := by
  have h := w.arena.capacity_release i
  unfold fire
  split <;> rename_i hr <;> rwa [hr] at h

theorem capacity_pop {w v : Wheel α} {p : Place} {i : Nat} (h : w.pop p = some (i, v)) :
    v.arena.capacity = w.arena.capacity := by
  obtain ⟨⟨j, c, arena⟩, hpop, he⟩ := Option.map_eq_some_iff.1 h
  simp only [Prod.mk.injEq] at he
  rw [← he.2, arena_taken]
  exact (Arena.relinked_popFront hpop).capacity

theorem capacity_pollRounds (now n : Nat) (w : Wheel α) :
    (pollRounds now n w).2.arena.capacity = w.arena.capacity := by
  induction n generalizing w with
  | zero => rfl
  | succ n ih =>
    unfold pollRounds
    split
    · rfl
    · split
      · rename_i i v hpop
        rw [capacity_fire, capacity_pop (popCurrent_eq w ▸ hpop)]
      · rw [ih, (w.relinked_advance now).capacity]

theorem capacity_poll (w : Wheel α) (now : UInt64) :
    (w.poll now).2.arena.capacity = w.arena.capacity := by
  unfold poll
  split
  · rename_i i v hpop
    rw [capacity_fire, capacity_pop (popOverdue_eq w ▸ hpop)]
  · exact capacity_pollRounds _ _ w

theorem capacity_execute (w : Wheel α) (now : UInt64) (max : Nat) :
    (w.execute now max).2.arena.capacity = w.arena.capacity := by
  induction max generalizing w with
  | zero => rfl
  | succ max ih =>
    have hpoll := w.capacity_poll now
    rw [execute_succ]
    split
    · exact hpoll
    · exact (ih _).trans hpoll

theorem capacity_delete (w : Wheel α) (id : TimerId) :
    (w.delete id).2.arena.capacity = w.arena.capacity := by
  unfold delete
  split
  · rfl
  · split
    · rfl
    · simp only
      split
      · rename_i i v hunlink
        rw [unlink_eq] at hunlink
        obtain ⟨⟨j, c, arena⟩, hu, he⟩ := Option.map_eq_some_iff.1 hunlink
        simp only [Prod.mk.injEq] at he
        rw [Arena.capacity_release, ← he.2, arena_taken]
        exact (Arena.relinked_unlink hu).capacity
      · rfl

theorem capacity_add (w : Wheel α) (now delay : UInt64) (payload : α) :
    (w.add now delay payload).2.arena.capacity =
      w.arena.capacity + if w.arena.free = [] then 1 else 0 := by
  have harena : (w.align (tickOf now)).arena = w.arena := by
    unfold align
    split <;> rfl
  have hinsert := fun v : Wheel α => fun i => (relinked_insert v i).capacity
  rw [add_eq]
  refine (hinsert _ _).trans ?_
  rw [← harena]
  exact Arena.capacity_acquire _ _ _ _

theorem Filed.capacity_eq {w : Wheel α} {ps : List (Pending α)} (h : w.Filed ps) :
    w.arena.capacity = w.len + w.arena.pooled := by
  have hlen := h.shares.perm.length_eq
  rw [List.length_append, List.length_map, List.length_range] at hlen
  rw [h.len, ← hlen, Arena.pooled]

theorem Filed.mem_members {w : Wheel α} {ps : List (Pending α)} (h : w.Filed ps) {p : Place}
    {i : Nat} : i ∈ w.members p ↔ ∃ e ∈ ps, w.dial.locate e.due = p ∧ e.node = i := by
  rw [h.members_eq, mem_placed]

theorem Filed.free_notMem {w : Wheel α} {ps : List (Pending α)} (h : w.Filed ps) {i : Nat}
    (hi : i ∈ w.arena.free) (p : Place) : i ∉ w.members p := by
  intro hp
  obtain ⟨e, he, -, rfl⟩ := h.mem_members.1 hp
  exact (List.nodup_append.1 h.shares.nodup_append).2.2 _ (List.mem_map_of_mem he) _ hi rfl

theorem Filed.existsUnique_home {w : Wheel α} {ps : List (Pending α)} (h : w.Filed ps) {i : Nat}
    (hi : i < w.arena.capacity) : ∃! o, i ∈ w.stock o := by
  rcases List.mem_append.1 (h.shares.perm.symm.subset (List.mem_range.2 hi)) with hused | hfree
  · obtain ⟨e, he, rfl⟩ := List.mem_map.1 hused
    have hmem : e.node ∈ w.members (w.dial.locate e.due) := h.mem_members.2 ⟨e, he, rfl, rfl⟩
    refine ⟨some (w.dial.locate e.due), hmem, fun o ho => ?_⟩
    cases o with
    | none => exact absurd hmem (h.free_notMem ho _)
    | some p =>
      have hp : e.node ∈ w.members p := ho
      rw [h.members_eq] at hmem hp
      exact congrArg some (h.layout.apart _ _ _ hp hmem)
  · refine ⟨none, hfree, fun o ho => ?_⟩
    cases o with
    | none => rfl
    | some p => exact absurd ho (h.free_notMem hfree p)

theorem Filed.stock_lt_capacity {w : Wheel α} {ps : List (Pending α)} (h : w.Filed ps)
    (o : Option Place) : ∀ i ∈ w.stock o, i < w.arena.capacity := by
  intro i hi
  cases o with
  | none => exact h.shares.lt_capacity_free hi
  | some p =>
    obtain ⟨e, he, -, rfl⟩ := h.mem_members.1 hi
    exact h.shares.lt_capacity (List.mem_map_of_mem he)

theorem Filed.nodup_stock {w : Wheel α} {ps : List (Pending α)} (h : w.Filed ps)
    (o : Option Place) : (w.stock o).Nodup := by
  cases o with
  | none => exact (List.nodup_append.1 h.shares.nodup_append).2.1
  | some p =>
    have hp := (h.layout.linked p).nodup
    rwa [← h.members_eq] at hp

theorem Sound.held {w : Wheel α} {ps : List (Pending α)} (h : w.Sound ps) (p : Place) :
    ∀ i ∈ w.members p, ∃ n x, w.arena.node? i = some n ∧ n.payload = some x ∧ 1 ≤ n.seq := by
  intro i hi
  obtain ⟨e, he, -, rfl⟩ := h.filed.mem_members.1 hi
  obtain ⟨n, hn, hc⟩ := Option.map_eq_some_iff.1 (h.filed.stored e he)
  simp only [Prod.mk.injEq] at hc
  have hseq := (h.seqs e he).1
  exact ⟨n, e.payload, hn, hc.2.2, by omega⟩

theorem Filed.bare {w : Wheel α} {ps : List (Pending α)} (h : w.Filed ps) :
    ∀ i ∈ w.arena.free, ∃ n, w.arena.node? i = some n ∧ n.payload = none := by
  intro i hi
  have hlt := h.shares.lt_capacity_free hi
  have hn : w.arena.node? i = some w.arena.nodes[i] := Array.getElem?_eq_getElem hlt
  refine ⟨w.arena.nodes[i], hn, ?_⟩
  cases hx : w.arena.nodes[i].payload with
  | none => rfl
  | some x =>
    refine absurd ?_ (h.shares.spare i hi w.arena.nodes[i].seq w.arena.nodes[i].due x)
    simp [Arena.content?, hn, hx]

theorem Sound.fires {w v : Wheel α} {ps : List (Pending α)} (h : w.Sound ps) {p : Place} {i : Nat}
    (hpop : w.pop p = some (i, v)) : ∃ e, (v.fire i).1 = some e := by
  by_cases hex : ∃ e ∈ ps, w.dial.locate e.due = p
  · obtain ⟨pre, e, post, rfl, hloc, hpre⟩ := exists_first hex
    obtain ⟨j, u, hpop', hfire, -⟩ := h.fire_pop (e := e) (by rwa [hloc])
    rw [hloc, hpop] at hpop'
    obtain ⟨rfl, rfl⟩ := Prod.mk.inj (Option.some.inj hpop')
    exact ⟨e.expired, hfire⟩
  · rw [h.filed.pop_none fun e he hl => hex ⟨e, he, hl⟩] at hpop
    cases hpop

theorem sum_levels (w : Wheel α) : w.stats.levels.sum = ∑ k : Fin 5, w.count k := by
  have hlist : w.stats.levels = List.ofFn fun k : Fin 5 => w.count k := by
    refine List.ext_getElem (by simp [stats]) fun k _ _ => ?_
    simp only [stats, count, get_eq_getElem, List.getElem_map, Vector.getElem_toList,
      List.getElem_ofFn]
  rw [hlist, List.sum_ofFn]

theorem Polled.len_add {w : Wheel α} {ps : List (Pending α)} {now : Nat}
    {r : Option (Expired α) × Wheel α} (h : Polled w ps now r) (hw : w.len = ps.length) :
    r.2.len + r.1.toList.length = w.len := by
  cases h with
  | idle v hv hdue hcur hmin hb => exact congrArg Books.len hb
  | overdue pre post e v heq hdue hpre hv hcur hb =>
    have hlen := congrArg Books.len hb
    simp only [books, heq, List.length_append, List.length_cons] at hlen hw
    simp only [Option.toList_some, List.length_singleton]
    omega
  | due pre post e v heq hdue hpre hpost hv hcur hb =>
    have hlen := congrArg Books.len hb
    simp only [books, heq, List.length_append, List.length_cons] at hlen hw
    simp only [Option.toList_some, List.length_singleton]
    omega

theorem Sound.execute_len {w : Wheel α} {ps : List (Pending α)} (h : w.Sound ps) (now : UInt64)
    (max : Nat) : (w.execute now max).2.len + (w.execute now max).1.length = w.len := by
  induction max generalizing w ps with
  | zero => rfl
  | succ max ih =>
    have hlen := (h.poll now).len_add h.filed.len
    obtain ⟨⟨qs, hq⟩, -⟩ := (h.poll now).sound h
    rw [execute_succ]
    cases hp : (w.poll now).1 with
    | none => simpa [hp] using hlen
    | some e =>
      have hrest := ih hq.finish
      have hfinish : (w.poll now).2.finish.len = (w.poll now).2.len := rfl
      simp only [hp, Option.toList_some, List.length_singleton] at hlen
      simp only [List.length_cons]
      omega

theorem Sound.freed {w : Wheel α} {ps : List (Pending α)} (h : w.Sound ps) (now : UInt64)
    (max : Nat) :
    (w.execute now max).2.arena.pooled = w.arena.pooled + (w.execute now max).1.length := by
  obtain ⟨⟨qs, hq⟩, -⟩ := h.execute now max
  have hlen := h.execute_len now max
  have hcap := w.capacity_execute now max
  have hbefore := h.filed.capacity_eq
  have hafter := hq.filed.capacity_eq
  omega

theorem Sound.capacity_call {w : Wheel α} {ps : List (Pending α)} (h : w.Sound ps) (c : Call α) :
    (w.call c).2.arena.capacity = max w.arena.capacity (w.call c).2.len := by
  obtain ⟨⟨qs, hq⟩, -⟩ := h.call c
  have hbefore := h.filed.capacity_eq
  have hafter := hq.filed.capacity_eq
  have hsame : (w.call c).2.arena.capacity = w.arena.capacity →
      (w.call c).2.arena.capacity = max w.arena.capacity (w.call c).2.len := by omega
  cases c with
  | add now delay payload =>
    obtain ⟨e, -, -, -, -, -, -, hb⟩ := h.add now delay payload
    have hlen : (w.call (.add now delay payload)).2.len = w.len + 1 := congrArg Books.len hb
    have hcap : (w.call (.add now delay payload)).2.arena.capacity = _ :=
      w.capacity_add now delay payload
    rw [hcap, hlen]
    rw [Arena.pooled] at hbefore
    split
    · rename_i hfree
      rw [hfree, List.length_nil] at hbefore
      omega
    · rename_i hfree
      have hpos := List.length_pos_iff.2 hfree
      omega
  | delete id => exact hsame (w.capacity_delete id)
  | poll now => exact hsame (w.capacity_poll now)
  | finish => exact hsame rfl
  | execute now max => exact hsame (w.capacity_execute now max)

def occupancies (w : Wheel α) (cs : List (Call α)) : Set Nat :=
  {n | ∃ ds, Call.Partway ds cs ∧ n = (w.serve ds).2.len}

/-- Nodes are allocated for as many timers as were pending at some moment, if there were not so many
nodes before. -/
theorem Sound.capacity_serve {w : Wheel α} {ps : List (Pending α)} (h : w.Sound ps)
    (cs : List (Call α)) :
    IsGreatest ({w.arena.capacity} ∪ w.occupancies cs) (w.serve cs).2.arena.capacity := by
  have hlen : w.len ≤ w.arena.capacity := h.filed.capacity_eq ▸ Nat.le_add_right _ _
  induction cs generalizing w ps with
  | nil =>
    refine ⟨.inl rfl, ?_⟩
    rintro n (rfl | ⟨ds, hds, rfl⟩)
    · exact le_refl _
    · cases hds
      exact hlen
  | cons c cs ih =>
    obtain ⟨⟨qs, hq⟩, -⟩ := h.call c
    have hcall := h.capacity_call c
    obtain ⟨hmem, hmax⟩ := ih hq (hq.filed.capacity_eq ▸ Nat.le_add_right _ _)
    have hgrown : (w.call c).2.arena.capacity ≤ (w.serve (c :: cs)).2.arena.capacity :=
      hmax (.inl rfl)
    constructor
    · rcases hmem with hmem | ⟨ds, hds, hmem⟩
      · have hcap : (w.serve (c :: cs)).2.arena.capacity =
            max w.arena.capacity (w.call c).2.len := hmem.trans hcall
        rcases Nat.le_total (w.call c).2.len w.arena.capacity with hle | hle
        · exact .inl (hcap.trans (Nat.max_eq_left hle))
        · exact .inr ⟨[c], .next c (.start cs), hcap.trans (Nat.max_eq_right hle)⟩
      · exact .inr ⟨c :: ds, .next c hds, hmem⟩
    · rintro n (rfl | ⟨ds, hds, rfl⟩)
      · omega
      · cases hds with
        | start => exact hlen.trans (by omega)
        | within hm =>
          rename_i now m max
          have hfewer : (w.serve [.execute now m]).2.len ≤ w.len :=
            (h.execute_len now m) ▸ Nat.le_add_right _ _
          omega
        | next _ hds => exact hmax (.inr ⟨_, hds, rfl⟩)

theorem Sound.housed {w : Wheel α} {ps : List (Pending α)} (h : w.Sound ps) : w.Housed where
  linked := h.consistent.linked
  inside := h.filed.stock_lt_capacity
  once := h.filed.nodup_stock
  home _ hi := h.filed.existsUnique_home hi
  held := h.held
  bare := h.filed.bare
  fires _ _ _ hpop := h.fires hpop
  freed := h.freed
  capacity := h.filed.capacity_eq
  levels := by
    rw [sum_levels]
    exact h.consistent.len

/-- After any calls, at whatever times and with whatever handles, all nodes are housed, there are
exactly as many as were ever needed at one moment, every timer added is accounted for, and no timer
has been dropped or other check has failed on the way. -/
theorem serve_housed (now limit : UInt64) (cs : List (Call α)) :
    ((withMaxDelay now limit).serve cs).2.Housed ∧
      IsGreatest ((withMaxDelay now limit).occupancies cs)
        ((withMaxDelay now limit).serve cs).2.arena.capacity ∧
      Call.adds cs = ((withMaxDelay now limit).serve cs).2.stats.fired +
        ((withMaxDelay now limit).serve cs).2.stats.cancelled +
        ((withMaxDelay now limit).serve cs).2.stats.pending ∧
      (withMaxDelay now limit).serve? cs = some ((withMaxDelay now limit).serve cs) := by
  have hstart := Sound.start (α := α) now limit
  obtain ⟨⟨ps, hs⟩, htotal⟩ := hstart.serve cs
  have hgreatest := hstart.capacity_serve cs
  have hempty : {0} ∪ (withMaxDelay now limit : Wheel α).occupancies cs =
      (withMaxDelay now limit).occupancies cs :=
    Set.union_eq_right.2 (Set.singleton_subset_iff.2 ⟨[], .start cs, rfl⟩)
  refine ⟨hs.housed, hempty ▸ hgreatest, ?_, serve?_eq hstart cs⟩
  have hzero : (withMaxDelay now limit : Wheel α).total = 0 := rfl
  rw [hzero, Nat.zero_add] at htotal
  exact htotal.symm

end Wheel

end ActorSystem.Timer
