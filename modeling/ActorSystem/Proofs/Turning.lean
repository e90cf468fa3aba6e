import ActorSystem.Proofs.Pending

set_option autoImplicit false

namespace ActorSystem.Timer.Wheel

variable {α : Type}

def bound (w : Wheel α) (is : List Nat) (p : Place) : List Nat :=
  is.filter fun i => decide (w.locate (w.arena.due i) = p)

theorem locate_insert (w : Wheel α) (i j : Nat) :
    (w.insert i).locate ((w.insert i).arena.due j) = w.locate (w.arena.due j) := by
  rw [Dial.locate_dial, dial_insert, due_relinked (relinked_insert w i)]
  rfl

theorem bound_insert (w : Wheel α) (i : Nat) (is : List Nat) : (w.insert i).bound is = w.bound is := by
  funext p
  simp [bound, locate_insert]

def loosen (w : Wheel α) (i : Nat) : Wheel α := { w with arena := w.arena.setNext i none }

theorem relinked_loosen (w : Wheel α) (i : Nat) : Arena.Relinked w.arena (w.loosen i).arena :=
  Arena.relinked_setNext _ i none

@[simp] theorem locate_loosen (w : Wheel α) (i j : Nat) :
    (w.loosen i).locate ((w.loosen i).arena.due j) = w.locate (w.arena.due j) := by
  rw [due_relinked (w.relinked_loosen i)]
  rfl

theorem scatter_cons {w : Wheel α} {c : Chain} {i : Nat} {is : List Nat}
    (hc : w.arena.Linked c (i :: is)) (n : Nat) :
    scatter (n + 1) c w = scatter n (w.arena.rest c i) ((w.loosen i).insert i) := by
  rw [scatter, hc.popFront_cons]
  rfl

theorem Layout.loosen {w : Wheel α} {nodes : Place → List Nat} (h : w.Layout nodes) {i : Nat}
    (hnew : ∀ p, i ∉ nodes p) : (w.loosen i).Layout nodes := by
  refine ⟨fun p => ?_, h.apart, h.count⟩
  rw [chain_congr (w := w.loosen i) (v := w) rfl rfl]
  exact (h.linked p).frame (w.relinked_loosen i).capacity.ge fun j hj =>
    w.arena.next?_setNext_ne (ne_of_mem_of_not_mem hj (hnew p)).symm none

/-- The first node of the chain in hand is hung up; the rest of the chain is not touched. -/
theorem Layout.scatter_step {w : Wheel α} {nodes : Place → List Nat} (h : w.Layout nodes)
    {c : Chain} {i : Nat} {is : List Nat} (hc : w.arena.Linked c (i :: is))
    (hnew : ∀ p, ∀ j ∈ i :: is, j ∉ nodes p) :
    ((w.loosen i).insert i).Layout
        (Function.update nodes (w.locate (w.arena.due i))
          (nodes (w.locate (w.arena.due i)) ++ [i])) ∧
      ((w.loosen i).insert i).arena.Linked (w.arena.rest c i) is ∧
      ∀ p, ∀ j ∈ is, j ∉ Function.update nodes (w.locate (w.arena.due i))
        (nodes (w.locate (w.arena.due i)) ++ [i]) p := by
  obtain ⟨hi, hnodup⟩ := List.nodup_cons.1 hc.nodup
  have hrel := w.relinked_loosen i
  have hv := h.loosen fun p => hnew p i (by simp)
  have hcap : i < (w.loosen i).arena.capacity := by
    rw [hrel.capacity]
    exact hc.lt_capacity (by simp)
  have hins := hv.insert hcap fun p => hnew p i (by simp)
  rw [locate_loosen] at hins
  refine ⟨hins, ?_, fun p j hj => ?_⟩
  · refine hc.rest.frame (relinked_insert (w.loosen i) i).capacity.ge fun j hj => ?_
    exact hv.next?_insert (ne_of_mem_of_not_mem hj hi) (hnew _ j (by simp [hj]))
  · by_cases hp : p = w.locate (w.arena.due i)
    · subst hp
      have hji : j ≠ i := ne_of_mem_of_not_mem hj hi
      simpa [hji] using hnew _ j (by simp [hj])
    · rw [Function.update_of_ne hp]
      exact hnew p j (by simp [hj])

theorem bound_loosen (w : Wheel α) (i : Nat) (is : List Nat) : (w.loosen i).bound is = w.bound is := by
  funext p
  simp [bound]

/-- The chain in hand is taken apart from the front; each node goes behind those that are already at
its place. -/
theorem Layout.scatter {w : Wheel α} {nodes : Place → List Nat} (h : w.Layout nodes) {c : Chain}
    {is : List Nat} (hc : w.arena.Linked c is) (hnew : ∀ p, ∀ i ∈ is, i ∉ nodes p) :
    (Wheel.scatter is.length c w).Layout (fun p => nodes p ++ w.bound is p) ∧
      (Wheel.scatter is.length c w).dial = w.dial ∧
      (Wheel.scatter is.length c w).books = w.books ∧
      Arena.Relinked w.arena (Wheel.scatter is.length c w).arena := by
  induction is generalizing w nodes c with
  | nil => simpa [Wheel.scatter, bound] using ⟨h, Arena.Relinked.refl _⟩
  | cons i is ih =>
    obtain ⟨hins, hrest, hnew'⟩ := h.scatter_step hc hnew
    obtain ⟨hl, hd, hb, hr⟩ := ih hins hrest hnew'
    rw [List.length_cons, scatter_cons hc]
    refine ⟨?_, hd.trans (dial_insert _ i), hb.trans (books_insert _ i),
      (w.relinked_loosen i).trans ((relinked_insert _ i).trans hr)⟩
    convert hl using 2 with p
    rw [bound_insert, bound_loosen]
    by_cases hp : p = w.locate (w.arena.due i)
    · subst hp
      simp [bound]
    · simp [bound, hp, Ne.symm hp]

theorem Layout.skip {w : Wheel α} {nodes : Place → List Nat} (h : w.Layout nodes) (k : Fin 5)
    (steps : Nat) : (w.skip k steps).Layout nodes := by
  refine ⟨fun p => ?_, h.apart, fun j => ?_⟩
  · rw [chain_skip]
    exact h.linked p
  · rw [count_skip]
    exact h.count j

theorem placed_congr {d d' : Dial} {ps : List (Pending α)}
    (h : ∀ e ∈ ps, d'.locate e.due = d.locate e.due) : d'.placed ps = d.placed ps := by
  funext p
  unfold Dial.placed
  congr 1
  exact List.filter_congr fun e he => by rw [h e he]

theorem Filed.skip {w : Wheel α} {ps : List (Pending α)} (h : w.Filed ps) {k : Fin 5} {steps : Nat}
    (hpassed : ∀ e ∈ ps, ∀ s, w.dial.locate e.due = .slot k s →
      (w.dial k).base + steps * Level.unit k ≤ e.due) : (w.skip k steps).Filed ps := by
  refine ⟨?_, h.stored, h.shares, h.len⟩
  rw [dial_skip, placed_congr fun e he => Dial.locate_move (hpassed e he)]
  exact h.layout.skip k steps

/-- Level `k` moved on by a slot, and the chain of the slot it left taken in hand. -/
def vacated (w : Wheel α) (k : Fin 5) : Wheel α :=
  (w.setChain (w.dial.currentPlace k) .empty
    (· - (w.chain (w.dial.currentPlace k)).len)).skip k 1

@[simp] theorem dial_vacated (w : Wheel α) (k : Fin 5) : (w.vacated k).dial = w.dial.move k 1 := by
  simp [vacated]

@[simp] theorem arena_vacated (w : Wheel α) (k : Fin 5) : (w.vacated k).arena = w.arena := by
  simp [vacated]

@[simp] theorem books_vacated (w : Wheel α) (k : Fin 5) : (w.vacated k).books = w.books := by
  simp [vacated]

theorem turn_eq (w : Wheel α) (k : Fin 5) :
    w.turn k = scatter (w.chain (w.dial.currentPlace k)).len (w.chain (w.dial.currentPlace k))
      (w.vacated k) := by
  rw [turn, vacated, Wheel.skip, Dial.currentPlace, setChain, modifyLevel_modifyLevel]
  rfl

theorem Filed.vacated {w : Wheel α} {ps : List (Pending α)} (h : w.Filed ps) (k : Fin 5) :
    (w.vacated k).Layout (Function.update (w.dial.placed ps) (w.dial.currentPlace k) []) ∧
      (w.vacated k).arena.Linked (w.chain (w.dial.currentPlace k))
        (w.dial.placed ps (w.dial.currentPlace k)) ∧
      ∀ p, ∀ i ∈ w.dial.placed ps (w.dial.currentPlace k),
        i ∉ Function.update (w.dial.placed ps) (w.dial.currentPlace k) [] p := by
  have hlen := (h.layout.linked (w.dial.currentPlace k)).len
  refine ⟨?_, ?_, fun p i hi => ?_⟩
  · refine (Layout.setChain (f := (· - (w.chain (w.dial.currentPlace k)).len)) h.layout
      w.arena.linked_empty (fun q _ => h.layout.linked q) (by simp) fun n hn => ?_).skip k 1
    simp only [List.length_nil]
    omega
  · rw [arena_vacated]
    exact h.layout.linked _
  · by_cases hp : p = w.dial.currentPlace k
    · simp [hp]
    · rw [Function.update_of_ne hp]
      exact fun hip => hp (h.layout.apart p _ i hip hi)

/-- The timers of the current slot, by the places where they belong after the move, are all that is
new anywhere. -/
theorem placed_turn {d : Dial} {k : Fin 5} (hc : d.Carry k) (hk : k ≠ 0) {ps : List (Pending α)}
    (hnear : ∀ e ∈ ps, ∀ s, d.locate e.due = .slot k s → d.offset k e.due < 256) (p : Place) :
    Function.update (d.placed ps) (d.currentPlace k) [] p ++
        ((ps.filter fun e => decide (d.locate e.due = d.currentPlace k)).filter fun e =>
          decide ((d.move k 1).locate e.due = p)).map Pending.node =
      (d.move k 1).placed ps p := by
  rw [List.filter_filter]
  by_cases hold : p = d.currentPlace k ∨ ∃ j s, j < k ∧ p = .slot j s
  -- nothing was at this place, or it was emptied: what is there now comes from the slot
  · have hnone : Function.update (d.placed ps) (d.currentPlace k) [] p = [] := by
      rcases hold with rfl | ⟨j, s, hj, rfl⟩
      · simp
      · rw [Function.update_of_ne fun e => hj.ne (by simp_all [Dial.currentPlace])]
        simp only [Dial.placed, List.map_eq_nil_iff, List.filter_eq_nil_iff, decide_eq_true_eq]
        exact fun e _ => hc.locate_ne_finer hj s
    rw [hnone, List.nil_append, Dial.placed]
    congr 1
    refine List.filter_congr fun e he => ?_
    have hfrom : (d.move k 1).locate e.due = p → d.locate e.due = d.currentPlace k := by
      intro hto
      by_contra hne
      rw [Dial.locate_move_one hne] at hto
      rcases hold with rfl | ⟨j, s, hj, rfl⟩
      · exact hne hto
      · exact hc.locate_ne_finer hj s hto
    simpa using hfrom
  -- any other place keeps what it had
  · obtain ⟨hp, hfine⟩ := not_or.1 hold
    have hkeep : ∀ e ∈ ps, (d.move k 1).locate e.due = p ↔ d.locate e.due = p := by
      intro e he
      by_cases hloc : d.locate e.due = d.currentPlace k
      · obtain ⟨j, s, hj, hto⟩ := hc.locate_move_finer hk hloc (hnear e he _ hloc)
        rw [hloc, hto]
        exact ⟨fun e' => absurd ⟨j, s, hj, e'.symm⟩ hfine, fun e' => absurd e'.symm hp⟩
      · rw [Dial.locate_move_one hloc]
    have hnone : (ps.filter fun e => decide ((d.move k 1).locate e.due = p) &&
        decide (d.locate e.due = d.currentPlace k)) = [] := by
      simp only [List.filter_eq_nil_iff, Bool.and_eq_true, decide_eq_true_eq]
      rintro e he ⟨hto, hloc⟩
      exact hp (((hkeep e he).1 hto).symm.trans hloc)
    rw [Function.update_of_ne hp, hnone, List.map_nil, List.append_nil, Dial.placed, Dial.placed]
    congr 1
    exact List.filter_congr fun e he => by simp [hkeep e he]

/-- The slot that a level leaves is emptied into finer levels, which hold nothing so far. -/
theorem Filed.turn {w : Wheel α} {ps : List (Pending α)} {k : Fin 5} (h : w.Filed ps) (hk : k ≠ 0)
    (hc : w.dial.Carry k)
    (hnear : ∀ e ∈ ps, ∀ s, w.dial.locate e.due = .slot k s → w.dial.offset k e.due < 256) :
    (w.turn k).Filed ps ∧ (w.turn k).dial = w.dial.move k 1 ∧ (w.turn k).books = w.books := by
  obtain ⟨hempty, hhand, hnew⟩ := h.vacated k
  have hlen := (h.layout.linked (w.dial.currentPlace k)).len
  obtain ⟨hl, hdial, hbooks, hrel⟩ := hempty.scatter hhand hnew
  rw [turn_eq, hlen]
  rw [dial_vacated] at hdial
  rw [books_vacated] at hbooks
  rw [arena_vacated] at hrel
  have hplaced : (fun p => Function.update (w.dial.placed ps) (w.dial.currentPlace k) [] p ++
      (w.vacated k).bound (w.dial.placed ps (w.dial.currentPlace k)) p) =
        (w.dial.move k 1).placed ps := by
    funext p
    rw [← placed_turn hc hk hnear p]
    congr 1
    simp only [bound, Dial.placed, List.filter_map]
    congr 1
    refine List.filter_congr fun e he => ?_
    have hdue := due_eq_of_content? (h.stored e (List.mem_filter.1 he).1)
    simp [Dial.locate_dial, hdue]
  rw [hplaced, ← hdial] at hl
  refine ⟨⟨hl, fun e he => ?_, h.shares.relinked hrel, ?_⟩, hdial, hbooks⟩
  · rw [hrel.content]
    exact h.stored e he
  · exact (congrArg Books.len hbooks).trans h.len

def outward (k : Nat) : List (Fin 5) := (List.finRange 5).drop k

theorem outward_cons (k : Fin 5) : outward k = k :: outward (k + 1 : Nat) := by
  fin_cases k <;> rfl

theorem cascade_outward (w : Wheel α) (k : Fin 5) :
    w.cascade (outward k) =
      if ((w.turn k).dial k).index = 0 then (w.turn k).cascade (outward (k + 1 : Nat))
      else w.turn k := by
  rw [outward_cons, cascade]
  rfl

theorem near_of_carry {d : Dial} {k : Fin 5} (hc : d.Carry k) {due : Nat} {s : Fin 256}
    (hahead : due < (d 4).base + 256 * Level.unit 4) (hl : d.locate due = .slot k s) :
    d.offset k due < 256 := by
  rcases (Fin.le_last k : k ≤ 4).eq_or_lt with rfl | hk4
  · rw [Dial.offset, Nat.div_lt_iff_lt_mul (Level.unit_pos _)]
    have hu : 0 < Level.unit 4 := Level.unit_pos 4
    change due - (d 4).base < 256 * Level.unit 4
    omega
  · have := hc.offset_lt hl hk4
    omega

/-- A carry that has reached level `k` ends with the levels aligned again. -/
theorem Filed.cascade {w : Wheel α} {ps : List (Pending α)} {k : Fin 5} (h : w.Filed ps)
    (hk : k ≠ 0) (hc : w.dial.Carry k)
    (hahead : ∀ e ∈ ps, e.due < (w.dial 4).base + 256 * Level.unit 4) :
    (w.cascade (outward k)).Filed ps ∧ (w.cascade (outward k)).dial.Aligned ∧
      ((w.cascade (outward k)).dial 0).base = (w.dial 0).base ∧
      (w.dial 4).base ≤ ((w.cascade (outward k)).dial 4).base ∧
      (w.cascade (outward k)).books = w.books := by
  induction hn : 4 - k.val generalizing w k with
  | zero =>
    obtain rfl : k = 4 := by omega
    obtain ⟨hf, hd, hb⟩ := h.turn hk hc fun e he s => near_of_carry hc (hahead e he)
    have hstop : w.cascade (outward (4 : Fin 5)) = w.turn 4 := by
      rw [cascade_outward]
      split <;> rfl
    rw [hstop, hd]
    refine ⟨hf, hc.move hk fun h => absurd h (lt_irrefl _), ?_, w.dial.base_le_move 4 4 1, hb⟩
    rw [w.dial.move_ne (by decide)]
  | succ n ih =>
    have hk4 : k < 4 := by omega
    obtain ⟨hf, hd, hb⟩ := h.turn hk hc fun e he s => near_of_carry hc (hahead e he)
    have hlast : ((w.dial.move k 1) 0).base = (w.dial 0).base := by rw [w.dial.move_ne hk.symm]
    have hfour : (w.dial 4).base ≤ ((w.dial.move k 1) 4).base := w.dial.base_le_move k 4 1
    have hidx : ((w.turn k).dial k).index = 0 ↔ (w.dial k).index.val = 255 := by
      rw [hd, Dial.index_move, Fin.ext_iff]
      have := (w.dial k).index.isLt
      simp only [Fin.ofNat, Fin.val_zero]
      omega
    rw [cascade_outward]
    split
    -- the level has gone round, and the carry moves outward
    · rename_i hzero
      have hc' := hc.move_wrap hk hk4 (hidx.1 hzero)
      rw [← hd] at hc' hlast hfour
      have hkv := Dial.val_succ hk4
      have hk' : k + 1 ≠ 0 := fun e => by simp [e] at hkv
      obtain ⟨hf', ha, h0, h4, hb'⟩ := ih hf hk' hc'
        (fun e he => Nat.lt_of_lt_of_le (hahead e he) (Nat.add_le_add_right hfour _)) (by omega)
      rw [hkv] at hf' ha h0 h4 hb'
      exact ⟨hf', ha, h0.trans hlast, hfour.trans h4, hb'.trans hb⟩
    · rename_i hne
      rw [hd]
      exact ⟨hf, hc.move hk fun _ e => hne (hidx.2 e), hlast, hfour, hb⟩

end ActorSystem.Timer.Wheel
