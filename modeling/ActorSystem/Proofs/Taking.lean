import ActorSystem.Proofs.Filing

set_option autoImplicit false

namespace ActorSystem.Timer

variable {α : Type}

def Pending.expired (e : Pending α) : Expired α := ⟨pack e.due e.seq, e.due, e.payload⟩

namespace Wheel

/-- The first that satisfies a test, with what stands before and after it. -/
theorem exists_first {β : Type} {xs : List β} {p : β → Prop} (h : ∃ x ∈ xs, p x) :
    ∃ pre x post, xs = pre ++ x :: post ∧ p x ∧ ∀ y ∈ pre, ¬ p y := by
  classical
  obtain ⟨x, hx, hp⟩ := h
  cases hf : xs.find? (fun x => decide (p x)) with
  | none =>
    have := List.find?_eq_none.1 hf x hx
    simp [hp] at this
  | some y =>
    obtain ⟨hy, pre, post, heq, hpre⟩ := List.find?_eq_some_iff_append.1 hf
    exact ⟨pre, y, post, heq, by simpa using hy, fun z hz => by simpa using hpre z hz⟩

theorem placed_eq_nil {d : Dial} {ps : List (Pending α)} {p : Place} :
    d.placed ps p = [] ↔ ∀ e ∈ ps, d.locate e.due ≠ p := by
  simp [Dial.placed]

def pop (w : Wheel α) (p : Place) : Option (Nat × Wheel α) :=
  (w.arena.popFront (w.chain p)).map fun (i, c, arena) =>
    (i, w.taken p c arena)

theorem popOverdue_eq (w : Wheel α) : w.popOverdue = w.pop .overdue := rfl

theorem popCurrent_eq (w : Wheel α) : w.popCurrent = w.pop (w.dial.currentPlace 0) := rfl

theorem Filed.pop_none {w : Wheel α} {ps : List (Pending α)} (h : w.Filed ps) {p : Place}
    (hp : ∀ e ∈ ps, w.dial.locate e.due ≠ p) : w.pop p = none := by
  have hl := h.layout.linked p
  rw [placed_eq_nil.2 hp] at hl
  simp [pop, hl.popFront_nil]

theorem Filed.pop_cons {w : Wheel α} {pre post : List (Pending α)} {e : Pending α}
    (h : w.Filed (pre ++ e :: post)) (hpre : ∀ x ∈ pre, w.dial.locate x.due ≠ w.dial.locate e.due) :
    ∃ v, w.pop (w.dial.locate e.due) = some (e.node, v) ∧
      v.dial = w.dial ∧ v.books = w.books ∧
      v.arena.content? e.node = some (e.seq, e.due, some e.payload) ∧
      ({ v with arena := (v.arena.release e.node).2, len := v.len - 1 } : Wheel α).Filed
        (pre ++ post) := by
  have hl := h.layout.linked (w.dial.locate e.due)
  rw [placed_middle, placed_eq_nil.2 hpre, List.nil_append] at hl
  have hrel : Arena.Relinked w.arena (w.arena.setNext e.node none) :=
    Arena.relinked_setNext _ _ _
  refine ⟨_, by rw [pop, hl.popFront_cons, Option.map_some], by simp, by simp, ?_, ?_⟩
  · rw [arena_taken]
    exact (hrel.content e.node).trans (h.stored e (by simp))
  · rw [arena_taken, len_taken]
    have hrest := hl.rest
    refine h.release ?_ hrel fun j hj => w.arena.next?_setNext_ne (fun e' => hj ?_) none
    · rw [placed_append, placed_eq_nil.2 hpre, List.nil_append]
      exact hrest
    · rw [← e', placed_middle]
      simp

/-- What firing a node that has been taken off its chain does. -/
theorem fire_eq {w : Wheel α} {e : Pending α}
    (h : w.arena.content? e.node = some (e.seq, e.due, some e.payload)) :
    w.fire e.node =
      (some e.expired,
        { w with arena := (w.arena.release e.node).2, len := w.len - 1, fired := w.fired + 1,
                 running := some e.expired.id }) := by
  have hdue := due_eq_of_content? h
  obtain ⟨n, hn, hc⟩ := Option.map_eq_some_iff.1 h
  simp only [Prod.mk.injEq] at hc
  have hrel : w.arena.release e.node = (some e.payload, (w.arena.release e.node).2) := by
    simp [Arena.release, hn, hc.2.2]
  unfold fire
  rw [hrel]
  simp [hdue, hn, hc.1, Pending.expired]

theorem Filed.fire_pop {w : Wheel α} {pre post : List (Pending α)} {e : Pending α}
    (h : w.Filed (pre ++ e :: post)) (hpre : ∀ x ∈ pre, w.dial.locate x.due ≠ w.dial.locate e.due) :
    ∃ v, w.pop (w.dial.locate e.due) = some (e.node, v) ∧
      (v.fire e.node).1 = some e.expired ∧ (v.fire e.node).2.Filed (pre ++ post) ∧
      (v.fire e.node).2.dial = w.dial ∧
      (v.fire e.node).2.books =
        { w.books with len := w.len - 1, fired := w.fired + 1, running := some e.expired.id } := by
  obtain ⟨v, hpop, hd, hb, hc, hf⟩ := h.pop_cons hpre
  refine ⟨v, hpop, ?_⟩
  rw [fire_eq hc]
  refine ⟨rfl, hf.congr rfl rfl rfl rfl, hd, ?_⟩
  have hlen : v.len = w.len := congrArg Books.len hb
  have hfired : v.fired = w.fired := congrArg Books.fired hb
  have hseq : v.seq = w.seq := congrArg Books.seq hb
  have hmax : v.maxDelay = w.maxDelay := congrArg Books.maxDelay hb
  have hcan : v.cancelled = w.cancelled := congrArg Books.cancelled hb
  simp [books, hlen, hfired, hseq, hmax, hcan]

theorem unlink_eq (w : Wheel α) (due seq : Nat) :
    w.unlink due seq = (w.arena.unlink (w.chain (w.locate due)) tickRange due seq).map
      fun (i, c, arena) => (i, w.taken (w.locate due) c arena) := by
  unfold unlink
  split <;> rename_i h <;> rw [h] <;> rfl

theorem Filed.matches_iff {w : Wheel α} {ps : List (Pending α)} (h : w.Filed ps) {e : Pending α}
    (he : e ∈ ps) (hdue : e.due < tickRange) (due seq : Nat) :
    w.arena.Matches tickRange due seq e.node ↔ e.seq = seq ∧ e.due = due := by
  obtain ⟨n, hn, hc⟩ := Option.map_eq_some_iff.1 (h.stored e he)
  simp only [Prod.mk.injEq] at hc
  rw [Arena.Matches, ← Nat.mod_eq_of_lt hdue, ← hc.1, ← hc.2.1]
  simp [hn]

theorem Filed.unlink_none {w : Wheel α} {ps : List (Pending α)} (h : w.Filed ps)
    (hticks : ∀ e ∈ ps, e.due < tickRange) {due seq : Nat}
    (hno : ∀ e ∈ ps, ¬ (e.seq = seq ∧ e.due = due)) : w.unlink due seq = none := by
  rw [unlink_eq, (h.layout.linked _).unlink_none, Option.map_none]
  intro i hi
  obtain ⟨e, he, -, rfl⟩ := mem_placed.1 hi
  rw [h.matches_iff he (hticks e he)]
  exact hno e he

theorem Filed.unlink_some {w : Wheel α} {pre post : List (Pending α)} {e : Pending α}
    (h : w.Filed (pre ++ e :: post)) (hticks : ∀ x ∈ pre ++ e :: post, x.due < tickRange)
    (hpre : ∀ x ∈ pre, ¬ (x.seq = e.seq ∧ x.due = e.due)) :
    ∃ v, w.unlink e.due e.seq = some (e.node, v) ∧ v.dial = w.dial ∧ v.books = w.books ∧
      v.arena.content? e.node = some (e.seq, e.due, some e.payload) ∧
      ({ v with arena := (v.arena.release e.node).2, len := v.len - 1 } : Wheel α).Filed
        (pre ++ post) := by
  have hl := h.layout.linked (w.dial.locate e.due)
  rw [placed_middle] at hl
  obtain ⟨as, has⟩ : ∃ as, as = w.dial.placed pre (w.dial.locate e.due) := ⟨_, rfl⟩
  rw [← has] at hl
  have hno : ∀ i ∈ as, ¬ w.arena.Matches tickRange e.due e.seq i := by
    intro i hi
    rw [has] at hi
    obtain ⟨x, hx, -, rfl⟩ := mem_placed.1 hi
    rw [h.matches_iff (by simp [hx]) (hticks x (by simp [hx]))]
    exact hpre x hx
  have hit : w.arena.Matches tickRange e.due e.seq e.node :=
    (h.matches_iff (by simp) (hticks e (by simp)) _ _).2 ⟨rfl, rfl⟩
  have hrel := w.arena.relinked_bypass as.getLast? e.node
  refine ⟨_, by rw [unlink_eq, Dial.locate_dial, hl.unlink_some hno hit, Option.map_some],
    by simp, by simp, by rw [arena_taken, hrel.content]; exact h.stored e (by simp), ?_⟩
  rw [arena_taken, len_taken]
  refine h.release ?_ hrel fun j hj => Arena.next?_bypass _ (fun e' => hj ?_) fun e' => hj ?_
  · rw [placed_append, ← has]
    exact hl.without
  · rw [e', placed_middle]
    simp
  · rw [placed_middle, ← has]
    exact List.mem_append_left _ (List.mem_of_getLast? e')

end Wheel

end ActorSystem.Timer
