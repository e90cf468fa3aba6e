import ActorSystem.Proofs.Layout

set_option autoImplicit false

namespace ActorSystem.Timer

structure Pending (α : Type) where
  node : Nat
  seq : Nat
  due : Nat
  payload : α

def Dial.placed {α : Type} (d : Dial) (ps : List (Pending α)) (p : Place) : List Nat :=
  (ps.filter fun e => decide (d.locate e.due = p)).map Pending.node

namespace Wheel

variable {α : Type}

structure Filed (w : Wheel α) (ps : List (Pending α)) : Prop where
  layout : w.Layout (w.dial.placed ps)
  stored : ∀ e ∈ ps, w.arena.content? e.node = some (e.seq, e.due, some e.payload)
  shares : w.arena.Shares (ps.map Pending.node)
  len : w.len = ps.length

theorem mem_placed {d : Dial} {ps : List (Pending α)} {p : Place} {i : Nat} :
    i ∈ d.placed ps p ↔ ∃ e ∈ ps, d.locate e.due = p ∧ e.node = i := by
  simp [Dial.placed, and_assoc]

theorem placed_append (d : Dial) (ps qs : List (Pending α)) (p : Place) :
    d.placed (ps ++ qs) p = d.placed ps p ++ d.placed qs p := by
  simp [Dial.placed]

theorem placed_single (d : Dial) (e : Pending α) (p : Place) :
    d.placed [e] p = if d.locate e.due = p then [e.node] else [] := by
  by_cases h : d.locate e.due = p <;> simp [Dial.placed, h]

theorem due_eq_of_content? {a : Arena α} {i seq due : Nat} {x : Option α}
    (h : a.content? i = some (seq, due, x)) : a.due i = due := by
  obtain ⟨n, hn, hc⟩ := Option.map_eq_some_iff.1 h
  simp only [Prod.mk.injEq] at hc
  simp [Arena.due, hn, hc.2.1]

theorem due_relinked {a b : Arena α} (h : Arena.Relinked a b) (i : Nat) : b.due i = a.due i := by
  have hc := h.content i
  unfold Arena.content? at hc
  unfold Arena.due
  cases ha : a.node? i <;> cases hb : b.node? i <;> simp_all

theorem insert_eq (w : Wheel α) (i : Nat) :
    w.insert i =
      { w with arena := (w.arena.pushBack (w.chain (w.locate (w.arena.due i))) i).2 }.setChain
        (w.locate (w.arena.due i)) (w.arena.pushBack (w.chain (w.locate (w.arena.due i))) i).1
        (· + 1) := by
  unfold insert
  split <;> rename_i h <;> rw [h] <;> rfl

@[simp] theorem dial_insert (w : Wheel α) (i : Nat) : (w.insert i).dial = w.dial := by
  rw [insert_eq, dial_setChain]
  rfl

@[simp] theorem books_insert (w : Wheel α) (i : Nat) : (w.insert i).books = w.books := by
  rw [insert_eq, books_setChain]
  rfl

theorem relinked_insert (w : Wheel α) (i : Nat) : Arena.Relinked w.arena (w.insert i).arena := by
  rw [insert_eq, arena_setChain]
  exact Arena.relinked_pushBack _ _ _

/-- Hanging a node up changes the links of no chain but the one it goes to. -/
theorem Layout.next?_insert {w : Wheel α} {nodes : Place → List Nat} (h : w.Layout nodes)
    {i j : Nat} (hij : j ≠ i) (hj : j ∉ nodes (w.locate (w.arena.due i))) :
    (w.insert i).arena.next? j = w.arena.next? j := by
  rw [insert_eq, arena_setChain]
  refine Arena.next?_pushBack _ _ hij fun ht => hj ?_
  rw [(h.linked _).tail] at ht
  exact List.mem_of_getLast? ht

theorem Layout.insert {w : Wheel α} {nodes : Place → List Nat} (h : w.Layout nodes) {i : Nat}
    (hi : i < w.arena.capacity) (hnew : ∀ p, i ∉ nodes p) :
    (w.insert i).Layout
      (Function.update nodes (w.locate (w.arena.due i))
        (nodes (w.locate (w.arena.due i)) ++ [i])) := by
  have hrel := relinked_insert w i
  have hframe := fun j => h.next?_insert (i := i) (j := j)
  rw [insert_eq] at hframe hrel ⊢
  rw [arena_setChain] at hframe hrel
  refine h.setChain ((h.linked _).pushBack hi (hnew _)) (fun q hq => ?_) (fun q hq j hj => ?_) ?_
  · refine (h.linked q).frame hrel.capacity.ge fun j hj => hframe j ?_ ?_
    · exact ne_of_mem_of_not_mem hj (hnew q)
    · exact fun hp => hq (h.apart _ _ j hj hp)
  · rcases List.mem_append.1 hj with hj | hj
    · exact fun hjq => hq (h.apart _ _ j hjq hj)
    · rw [List.mem_singleton.1 hj]
      exact hnew q
  · simp
    omega

end Wheel

end ActorSystem.Timer
