import ActorSystem.Proofs.Pending

set_option autoImplicit false

namespace ActorSystem.Timer.Wheel

variable {α : Type}

theorem Filed.congr {w v : Wheel α} {ps : List (Pending α)} (h : w.Filed ps)
    (hl : w.levels = v.levels) (ho : w.overdue = v.overdue) (ha : w.arena = v.arena)
    (hn : w.len = v.len) : v.Filed ps := by
  have hd : v.dial = w.dial := by
    funext k
    simp [dial, hl]
  have hc : w.chain = v.chain := chain_congr hl ho
  refine ⟨⟨fun p => ?_, fun p q i => ?_, fun k => ?_⟩, ?_, ?_, hn ▸ h.len⟩
  · rw [hd, ← hc, ← ha]
    exact h.layout.linked p
  · rw [hd]
    exact h.layout.apart p q i
  · rw [hd, ← h.layout.count k, count, count, hl]
  · rw [← ha]
    exact h.stored
  · rw [← ha]
    exact h.shares

theorem placed_nil (d : Dial) (p : Place) : d.placed ([] : List (Pending α)) p = [] := rfl

theorem levels_reset (w : Wheel α) (now : Nat) (k : Fin 5) :
    (w.levels.mapFinIdx fun k l _ => l.reset k now).get k = (w.levels.get k).reset k now := by
  simp [get_eq_getElem]

theorem Filed.align {w : Wheel α} {ps : List (Pending α)} (h : w.Filed ps) (now : Nat) :
    (w.align now).Filed ps := by
  unfold Wheel.align
  split
  · rename_i hlen
    obtain rfl : ps = [] := List.eq_nil_of_length_eq_zero (h.len ▸ hlen.1)
    refine ⟨⟨fun p => ?_, fun p q i hi => ?_, fun k => ?_⟩, h.stored, h.shares, h.len⟩
    · have hp := h.layout.linked p
      rw [placed_nil] at hp ⊢
      cases p with
      | overdue => exact hp
      | slot k s =>
        simp only [chain, levels_reset]
        exact hp
    · simp [placed_nil] at hi
    · have hk := h.layout.count k
      simp only [count, levels_reset]
      exact hk
  · exact h

theorem dial_align (w : Wheel α) (now : Nat) :
    (w.align now).dial =
      if w.len = 0 ∧ w.currentTick ≠ now then Dial.start now else w.dial := by
  unfold align
  split
  · funext k
    simp only [dial, levels_reset]
    rfl
  · rfl

@[simp] theorem books_align (w : Wheel α) (now : Nat) : (w.align now).books = w.books := by
  unfold align
  split <;> rfl

def acquired (w : Wheel α) (seq due : Nat) (payload : α) : Wheel α :=
  { w with seq, arena := (w.arena.acquire seq due payload).2 }

def file (w : Wheel α) (seq due : Nat) (payload : α) : Wheel α :=
  (w.acquired seq due payload).insert (w.arena.acquire seq due payload).1

theorem update_placed_concat (d : Dial) (ps : List (Pending α)) (e : Pending α) :
    Function.update (d.placed ps) (d.locate e.due) (d.placed ps (d.locate e.due) ++ [e.node]) =
      d.placed (ps ++ [e]) := by
  funext p
  rw [placed_append, placed_single]
  by_cases hp : p = d.locate e.due
  · subst hp
    simp
  · simp [hp, Ne.symm hp]

theorem Filed.acquire_notMem {w : Wheel α} {ps : List (Pending α)} (h : w.Filed ps) (seq due : Nat)
    (payload : α) (p : Place) : (w.arena.acquire seq due payload).1 ∉ w.dial.placed ps p := by
  intro hi
  obtain ⟨x, hx, -, hxi⟩ := mem_placed.1 hi
  exact h.shares.acquire_notMem seq due payload (List.mem_map.2 ⟨x, hx, hxi⟩)

theorem Filed.acquired {w : Wheel α} {ps : List (Pending α)} (h : w.Filed ps) (seq due : Nat)
    (payload : α) : (w.acquired seq due payload).Layout (w.dial.placed ps) := by
  refine ⟨fun p => ?_, h.layout.apart, h.layout.count⟩
  rw [chain_congr (w := w.acquired seq due payload) (v := w) rfl rfl]
  refine (h.layout.linked p).frame_node? (Arena.capacity_le_acquire _ _ _ _) fun j hj => ?_
  exact Arena.node?_acquire_ne _ _ _ _ fun e => h.acquire_notMem seq due payload p (e ▸ hj)

theorem Filed.file {w : Wheel α} {ps : List (Pending α)} (h : w.Filed ps) (seq due : Nat)
    (payload : α) :
    ({ w.file seq due payload with len := w.len + 1 } : Wheel α).Filed
        (ps ++ [⟨(w.arena.acquire seq due payload).1, seq, due, payload⟩]) ∧
      (w.file seq due payload).dial = w.dial ∧
      (w.file seq due payload).books = { w.books with seq } := by
  obtain ⟨i, hi⟩ : ∃ i, i = (w.arena.acquire seq due payload).1 := ⟨_, rfl⟩
  have hfile : w.file seq due payload = (w.acquired seq due payload).insert i := by rw [hi]; rfl
  have hv := h.acquired seq due payload
  have hnot : i ∉ ps.map Pending.node := hi ▸ h.shares.acquire_notMem seq due payload
  have hself : (w.acquired seq due payload).arena.content? i = some (seq, due, some payload) :=
    hi ▸ h.shares.content?_acquire seq due payload
  have hshares : (w.acquired seq due payload).arena.Shares (ps.map Pending.node ++ [i]) :=
    hi ▸ h.shares.acquire seq due payload
  have hins := hv.insert (hshares.lt_capacity (by simp)) fun p =>
    hi ▸ h.acquire_notMem seq due payload p
  have hrel := relinked_insert (w.acquired seq due payload) i
  have hdial : ((w.acquired seq due payload).insert i).dial = w.dial := dial_insert _ i
  have hbooks : ((w.acquired seq due payload).insert i).books = { w.books with seq } :=
    books_insert _ i
  have hloc : (w.acquired seq due payload).locate ((w.acquired seq due payload).arena.due i) =
      w.dial.locate due := by
    rw [due_eq_of_content? hself]
    rfl
  rw [hfile, ← hi]
  refine ⟨⟨?_, fun x hx => ?_, ?_, ?_⟩, hdial, hbooks⟩
  · rw [hloc, update_placed_concat w.dial ps ⟨i, seq, due, payload⟩, ← hdial] at hins
    exact ⟨hins.linked, hins.apart, hins.count⟩
  · change ((w.acquired seq due payload).insert i).arena.content? x.node = _
    rw [hrel.content]
    rcases List.mem_append.1 hx with hx | hx
    · have hne : x.node ≠ i := fun e => hnot (e ▸ List.mem_map_of_mem hx)
      rw [Arena.content?, Wheel.acquired, Arena.node?_acquire_ne _ _ _ _ (hi ▸ hne)]
      exact h.stored x hx
    · rw [List.mem_singleton.1 hx]
      exact hself
  · rw [List.map_append]
    exact hshares.relinked hrel
  · simp [h.len]

theorem placed_middle (d : Dial) (pre post : List (Pending α)) (e : Pending α) :
    d.placed (pre ++ e :: post) (d.locate e.due) =
      d.placed pre (d.locate e.due) ++ e.node :: d.placed post (d.locate e.due) := by
  simp [Dial.placed]

theorem placed_sublist (d : Dial) {ps qs : List (Pending α)} (h : ps.Sublist qs) (p : Place) :
    (d.placed ps p).Sublist (d.placed qs p) := (h.filter _).map _

theorem update_placed_without (d : Dial) (pre post : List (Pending α)) (e : Pending α) :
    Function.update (d.placed (pre ++ e :: post)) (d.locate e.due)
      (d.placed (pre ++ post) (d.locate e.due)) = d.placed (pre ++ post) := by
  rw [Function.update_eq_iff]
  refine ⟨rfl, fun p hp => ?_⟩
  simp [Dial.placed, hp.symm]

def taken (w : Wheel α) (p : Place) (c : Chain) (arena : Arena α) : Wheel α :=
  { w with arena }.setChain p c (· - 1)

section taken

variable (w : Wheel α) (p : Place) (c : Chain) (arena : Arena α)

@[simp] theorem dial_taken : (w.taken p c arena).dial = w.dial := dial_setChain _ p c _

@[simp] theorem books_taken : (w.taken p c arena).books = w.books := books_setChain _ p c _

@[simp] theorem arena_taken : (w.taken p c arena).arena = arena := arena_setChain _ p c _

@[simp] theorem len_taken : (w.taken p c arena).len = w.len :=
  congrArg Books.len (books_taken w p c arena)

end taken

theorem Filed.taken {w : Wheel α} {pre post : List (Pending α)} {e : Pending α}
    (h : w.Filed (pre ++ e :: post)) {arena : Arena α} {c : Chain}
    (hc : arena.Linked c (w.dial.placed (pre ++ post) (w.dial.locate e.due)))
    (hrel : Arena.Relinked w.arena arena)
    (hnext : ∀ j ∉ w.dial.placed (pre ++ e :: post) (w.dial.locate e.due),
      arena.next? j = w.arena.next? j) :
    (w.taken (w.dial.locate e.due) c arena).Layout (w.dial.placed (pre ++ post)) := by
  have hless := (List.sublist_cons_self e post).append_left pre
  have hother : ∀ q, q ≠ w.dial.locate e.due →
      arena.Linked (w.chain q) (w.dial.placed (pre ++ e :: post) q) := by
    intro q hq
    refine (h.layout.linked q).frame hrel.capacity.ge fun j hj => hnext j fun hjp => ?_
    exact hq (h.layout.apart q _ j hj hjp)
  have hapart : ∀ q, q ≠ w.dial.locate e.due →
      ∀ i ∈ w.dial.placed (pre ++ post) (w.dial.locate e.due),
        i ∉ w.dial.placed (pre ++ e :: post) q := fun q hq i hi hiq =>
    hq (h.layout.apart q _ i hiq ((placed_sublist _ hless _).subset hi))
  have hcount : ∀ n, (w.dial.placed (pre ++ e :: post) (w.dial.locate e.due)).length ≤ n →
      n - 1 + (w.dial.placed (pre ++ e :: post) (w.dial.locate e.due)).length =
        n + (w.dial.placed (pre ++ post) (w.dial.locate e.due)).length := by
    intro n hn
    rw [placed_middle] at hn ⊢
    rw [placed_append]
    simp only [List.length_append, List.length_cons] at hn ⊢
    omega
  have hset := h.layout.setChain (f := (· - 1)) hc hother hapart hcount
  rwa [update_placed_without] at hset

/-- A timer that has been taken off its chain may be released. -/
theorem Filed.release {w : Wheel α} {pre post : List (Pending α)} {e : Pending α}
    (h : w.Filed (pre ++ e :: post)) {arena : Arena α} {c : Chain}
    (hc : arena.Linked c (w.dial.placed (pre ++ post) (w.dial.locate e.due)))
    (hrel : Arena.Relinked w.arena arena)
    (hnext : ∀ j ∉ w.dial.placed (pre ++ e :: post) (w.dial.locate e.due),
      arena.next? j = w.arena.next? j) :
    ({ w.taken (w.dial.locate e.due) c arena with
        arena := (arena.release e.node).2, len := w.len - 1 } : Wheel α).Filed (pre ++ post) := by
  have hless := (List.sublist_cons_self e post).append_left pre
  have hnot : e.node ∉ (pre ++ post).map Pending.node := by
    have hnodup : ((pre ++ e :: post).map Pending.node).Nodup := h.shares.nodup
    rw [List.map_append, List.map_cons] at hnodup
    rw [List.map_append]
    exact (List.nodup_cons.1 (List.perm_middle.nodup_iff.1 hnodup)).1
  have hset := h.taken hc hrel hnext
  generalize w.dial.locate e.due = p at hset ⊢
  have hdial := w.dial_taken p c arena
  refine ⟨⟨fun q => ?_, fun q r i => ?_, fun k => ?_⟩, fun x hx => ?_, ?_, ?_⟩
  · change Arena.Linked _ _ ((w.taken p c arena).dial.placed (pre ++ post) q)
    have hq := hset.linked q
    rw [arena_taken] at hq
    rw [hdial]
    refine hq.frame_node? (by simp) fun i hi => Arena.node?_release_ne _ fun e' => hnot ?_
    obtain ⟨x, hx, -, hxi⟩ := mem_placed.1 hi
    exact List.mem_map.2 ⟨x, hx, hxi.trans e'⟩
  · change i ∈ (w.taken p c arena).dial.placed (pre ++ post) q →
      i ∈ (w.taken p c arena).dial.placed (pre ++ post) r → q = r
    rw [hdial]
    exact hset.apart q r i
  · change (w.taken p c arena).count k = ∑ s,
      ((w.taken p c arena).dial.placed (pre ++ post) (.slot k s)).length
    rw [hdial]
    exact hset.count k
  · have hne : x.node ≠ e.node := fun e' => hnot (e' ▸ List.mem_map_of_mem hx)
    change ((arena.release e.node).2).content? x.node = _
    rw [Arena.content?, Arena.node?_release_ne _ hne]
    exact (hrel.content x.node).trans (h.stored x (hless.subset hx))
  · rw [List.map_append]
    exact Arena.Shares.release (by simpa using h.shares.relinked hrel)
  · have := h.len
    simp only [List.length_append, List.length_cons] at this ⊢
    omega

end ActorSystem.Timer.Wheel
