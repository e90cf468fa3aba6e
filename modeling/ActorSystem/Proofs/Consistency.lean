import ActorSystem.Proofs.Unfailing

/-!
What can be read off the fields of a wheel after any calls at all, at whatever times: how the levels
follow one another, that each pending timer hangs where it belongs and nowhere else, and that every
count is right.
-/

set_option autoImplicit false

namespace ActorSystem.Timer.Wheel

variable {α : Type}

def members (w : Wheel α) (p : Place) : List Nat := w.arena.members (w.chain p)

def holds (w : Wheel α) (i : Nat) : Bool := ((w.arena.node? i).bind Node.payload).isSome

def pending? (w : Wheel α) (i : Nat) : Option (Pending α) :=
  (w.arena.node? i).bind fun n => n.payload.map (⟨i, n.seq, n.due, ·⟩)

def waiting (w : Wheel α) (p : Place) : List (Pending α) := (w.members p).filterMap w.pending?

structure Consistent (w : Wheel α) : Prop where
  one : (w.levels[(1 : Fin 5)]).base = w.finest.base + 256 - w.finest.index.val
  succ : ∀ k : Fin 5, 1 ≤ k → k ≤ 3 →
    (w.levels[k + 1]).base = (w.levels[k]).base + (255 - (w.levels[k]).index.val) * 256 ^ k.val
  small : ∀ k : Fin 5, (w.levels[k]).base + 256 ^ 5 < 2 ^ 64
  linked : ∀ p, w.arena.Linked (w.chain p) (w.members p)
  placed : ∀ p i, i ∈ w.members p ↔ w.holds i = true ∧ w.locate (w.arena.due i) = p
  near : ∀ k s, ∀ i ∈ w.members (.slot k s),
    (w.levels[k]).base ≤ w.arena.due i ∧ (w.arena.due i - (w.levels[k]).base) / 256 ^ k.val < 256
  alone : ∀ k s, ∀ i ∈ w.members (.slot k s), ∀ j ∈ w.members (.slot k s),
    (w.arena.due i - (w.levels[k]).base) / 256 ^ k.val =
      (w.arena.due j - (w.levels[k]).base) / 256 ^ k.val
  counts : ∀ k : Fin 5, (w.levels[k]).count = ∑ s, (w.chain (.slot k s)).len
  len : w.len = w.overdue.len + ∑ k : Fin 5, (w.levels[k]).count
  pending : w.len = (List.range w.arena.capacity).countP w.holds

theorem sum_ite_place (p : Place) :
    (if p = .overdue then 1 else 0) + ∑ k, ∑ s, (if p = .slot k s then 1 else 0) = 1 := by
  cases p with
  | overdue => simp
  | slot k s =>
    simp only [reduceCtorEq, if_false, Place.slot.injEq, Nat.zero_add, ite_and]
    rw [Finset.sum_eq_single k (by intro j _ hj; simp [hj.symm]) (by simp)]
    simp

theorem sum_length_placed (d : Dial) (ps : List (Pending α)) :
    (d.placed ps .overdue).length + ∑ k, ∑ s, (d.placed ps (.slot k s)).length = ps.length := by
  induction ps with
  | nil => simp [placed_nil]
  | cons e ps ih =>
    have hcons : ∀ p, (d.placed (e :: ps) p).length =
        (if d.locate e.due = p then 1 else 0) + (d.placed ps p).length := by
      intro p
      rw [← List.singleton_append, placed_append, placed_single, List.length_append]
      split <;> rfl
    have hone := sum_ite_place (d.locate e.due)
    simp only [hcons, Finset.sum_add_distrib, List.length_cons]
    omega

theorem Filed.holds_node {w : Wheel α} {ps : List (Pending α)} (h : w.Filed ps) {e : Pending α}
    (he : e ∈ ps) : w.holds e.node = true := by
  obtain ⟨n, hn, hc⟩ := Option.map_eq_some_iff.1 (h.stored e he)
  simp only [Prod.mk.injEq] at hc
  simp [holds, hn, hc.2.2]

theorem content?_of_holds {w : Wheel α} {i : Nat} (h : w.holds i = true) :
    ∃ seq due x, w.arena.content? i = some (seq, due, some x) := by
  unfold holds at h
  cases hn : w.arena.node? i with
  | none => simp [hn] at h
  | some n =>
    rw [hn, Option.bind_some] at h
    obtain ⟨x, hx⟩ := Option.isSome_iff_exists.1 h
    exact ⟨n.seq, n.due, x, by simp [Arena.content?, hn, hx]⟩

theorem Filed.holds_iff {w : Wheel α} {ps : List (Pending α)} (h : w.Filed ps) (i : Nat) :
    w.holds i = true ↔ ∃ e ∈ ps, e.node = i := by
  constructor
  · intro hi
    obtain ⟨seq, due, x, hc⟩ := content?_of_holds hi
    simpa using h.shares.mem_of_content? hc
  · rintro ⟨e, he, rfl⟩
    exact h.holds_node he

theorem Filed.countP_holds {w : Wheel α} {ps : List (Pending α)} (h : w.Filed ps) :
    (List.range w.arena.capacity).countP w.holds = ps.length := by
  have hall : ∀ i ∈ ps.map Pending.node, w.holds i = true := by
    intro i hi
    obtain ⟨e, he, rfl⟩ := List.mem_map.1 hi
    exact h.holds_node he
  have hnone : ∀ i ∈ w.arena.free, ¬ w.holds i = true := by
    intro i hi hh
    obtain ⟨seq, due, x, hc⟩ := content?_of_holds hh
    exact h.shares.spare i hi seq due x hc
  rw [← h.shares.perm.countP_eq, List.countP_append, List.countP_eq_length.2 hall,
    List.countP_eq_zero.2 hnone, List.length_map, Nat.add_zero]

theorem Filed.members_eq {w : Wheel α} {ps : List (Pending α)} (h : w.Filed ps) (p : Place) :
    w.members p = w.dial.placed ps p := (h.layout.linked p).members_eq

theorem Filed.pending?_eq {w : Wheel α} {ps : List (Pending α)} (h : w.Filed ps) {e : Pending α}
    (he : e ∈ ps) : w.pending? e.node = some e := by
  obtain ⟨n, hn, hc⟩ := Option.map_eq_some_iff.1 (h.stored e he)
  simp only [Prod.mk.injEq] at hc
  simp [pending?, hn, hc.1, hc.2.1, hc.2.2]

theorem Filed.waiting_eq {w : Wheel α} {ps : List (Pending α)} (h : w.Filed ps) (p : Place) :
    w.waiting p = ps.filter fun e => decide (w.dial.locate e.due = p) := by
  rw [waiting, h.members_eq, Dial.placed, List.filterMap_map]
  refine (List.filterMap_congr fun e he => ?_).trans List.filterMap_some
  exact h.pending?_eq (List.mem_of_mem_filter he)

theorem Filed.exists_waiting_iff {w : Wheel α} {ps : List (Pending α)} (h : w.Filed ps)
    {q : Pending α → Prop} : (∃ p, ∃ e ∈ w.waiting p, q e) ↔ ∃ e ∈ ps, q e := by
  simp only [h.waiting_eq, List.mem_filter, decide_eq_true_eq]
  constructor
  · rintro ⟨p, e, ⟨he, -⟩, hq⟩
    exact ⟨e, he, hq⟩
  · rintro ⟨e, he, hq⟩
    exact ⟨_, e, ⟨he, rfl⟩, hq⟩

theorem Filed.mem_of_waiting {w : Wheel α} {ps : List (Pending α)} (h : w.Filed ps) {p : Place}
    {e : Pending α} (he : e ∈ w.waiting p) : e ∈ ps := by
  rw [h.waiting_eq] at he
  exact List.mem_of_mem_filter he

/-- Two ticks less than a round ahead that share a slot share its window. -/
theorem offset_eq_of_slotFor_eq {d : Dial} {k : Fin 5} {x y : Nat}
    (h : d.slotFor k x = d.slotFor k y) (hx : d.offset k x < 256) (hy : d.offset k y < 256) :
    d.offset k x = d.offset k y := by
  have hval := congrArg Fin.val h
  have hidx := (d k).index.isLt
  simp only [Dial.slotFor, Fin.ofNat] at hval
  omega

theorem offset_eq_div (w : Wheel α) (k : Fin 5) (due : Nat) :
    w.dial.offset k due = (due - (w.dial k).base) / 256 ^ k.val := by
  rw [Dial.offset, Level.unit_eq]

theorem Sound.consistent {w : Wheel α} {ps : List (Pending α)} (h : w.Sound ps) :
    w.Consistent := by
  have hdue : ∀ e ∈ ps, w.arena.due e.node = e.due := fun e he =>
    due_eq_of_content? (h.filed.stored e he)
  have hat : ∀ p, ∀ i ∈ w.members p, w.dial.locate (w.arena.due i) = p ∧
      w.arena.due i < tickRange := by
    intro p i hi
    rw [h.filed.members_eq] at hi
    obtain ⟨e, he, hp, rfl⟩ := mem_placed.1 hi
    rw [hdue e he]
    exact ⟨hp, h.ticks e he⟩
  refine ⟨?_, fun k hk hk3 => ?_, fun k => ?_, fun p => ?_, fun p i => ?_, fun k s i hi => ?_,
    fun k s i hi j hj => ?_, fun k => ?_, ?_, ?_⟩
  · have hone : (w.levels[(1 : Fin 5)]).base = w.finest.base + (256 - w.finest.index.val) :=
      h.aligned.one
    have hidx := w.finest.index.isLt
    omega
  · have hsucc := h.aligned.succ k (Fin.lt_def.2 hk) (by omega)
    rw [Level.unit_eq] at hsucc
    exact hsucc
  · have hle : (w.levels[k]).base ≤ (w.dial 4).base := h.aligned.le_four k
    have hfour := h.aligned.four_le
    have hreached : (w.dial 0).base ≤ tickRange := h.reached
    have hround : tickRange + Level.unit 4 + 256 ^ 5 < 2 ^ 64 := by decide
    omega
  · rw [h.filed.members_eq]
    exact h.filed.layout.linked p
  · rw [h.filed.members_eq, h.filed.holds_iff, mem_placed]
    constructor
    · rintro ⟨e, he, hp, rfl⟩
      refine ⟨⟨e, he, rfl⟩, ?_⟩
      rw [hdue e he]
      exact hp
    · rintro ⟨⟨e, he, rfl⟩, hp⟩
      rw [hdue e he] at hp
      exact ⟨e, he, hp, rfl⟩
  · obtain ⟨hp, hlt⟩ := hat _ i hi
    have hnear := h.near hlt k s hp
    rw [offset_eq_div] at hnear
    exact ⟨Dial.base_le_of_locate hp, hnear⟩
  · obtain ⟨hpi, hlti⟩ := hat _ i hi
    obtain ⟨hpj, hltj⟩ := hat _ j hj
    have hsi := ((w.dial.locate_eq_slot_iff _ k s).1 hpi).2.2
    have hsj := ((w.dial.locate_eq_slot_iff _ k s).1 hpj).2.2
    have hoffset :=
      offset_eq_of_slotFor_eq (hsi.symm.trans hsj) (h.near hlti k s hpi) (h.near hltj k s hpj)
    rw [offset_eq_div, offset_eq_div] at hoffset
    exact hoffset
  · have hk := h.filed.layout.count k
    simp only [← (h.filed.layout.linked _).len] at hk
    exact hk
  · have hover := (h.filed.layout.linked .overdue).len
    have hsum := sum_length_placed w.dial ps
    simp only [← h.filed.layout.count] at hsum
    rw [h.filed.len, ← hsum, ← hover]
    rfl
  · rw [h.filed.countP_holds, h.filed.len]

/-- After any calls, at whatever times and with whatever handles, the wheel is consistent, each
timer ever added has been accounted for, and no check has failed on the way. -/
theorem serve_consistent (now limit : UInt64) (cs : List (Call α)) :
    ((withMaxDelay now limit).serve cs).2.Consistent ∧
      ((withMaxDelay now limit).serve cs).2.total = Call.adds cs ∧
      (withMaxDelay now limit).serve? cs = some ((withMaxDelay now limit).serve cs) ∧
      ∀ t, ((withMaxDelay now limit).serve cs).2.nextWake? t =
        some (((withMaxDelay now limit).serve cs).2.nextWake t) := by
  have hstart := Sound.start (α := α) now limit
  obtain ⟨⟨ps, hs⟩, htotal⟩ := hstart.serve cs
  refine ⟨hs.consistent, ?_, serve?_eq hstart cs, nextWake?_eq hs⟩
  rw [htotal]
  exact Nat.zero_add _

end ActorSystem.Timer.Wheel
