import ActorSystem.Proofs.Sound

set_option autoImplicit false

namespace ActorSystem.Timer

inductive Call (α : Type) where
  | add (now delay : UInt64) (payload : α)
  | delete (id : TimerId)
  | poll (now : UInt64)
  | finish
  | execute (now : UInt64) (max : Nat)

inductive Answer (α : Type) where
  | handle (id : TimerId)
  | deleted (found : Bool)
  | polled (timer : Option (Expired α))
  | finished
  | executed (timers : List (Expired α))

namespace Call

variable {α : Type}

def time? : Call α → Option UInt64
  | .add now _ _ => some now
  | .poll now => some now
  | .execute now _ => some now
  | .delete _ => none
  | .finish => none

def isAdd : Call α → Bool
  | .add _ _ _ => true
  | _ => false

def times (cs : List (Call α)) : List UInt64 := cs.filterMap time?

def adds (cs : List (Call α)) : Nat := cs.countP isAdd

end Call

namespace Wheel

variable {α : Type}

def call (w : Wheel α) : Call α → Answer α × Wheel α
  | .add now delay payload => (w.add now delay payload).map .handle id
  | .delete id => (w.delete id).map .deleted fun w => w
  | .poll now => (w.poll now).map .polled id
  | .finish => (.finished, w.finish)
  | .execute now max => (w.execute now max).map .executed id

def serve (w : Wheel α) : List (Call α) → List (Answer α) × Wheel α
  | [] => ([], w)
  | c :: cs => ((w.call c).1 :: ((w.call c).2.serve cs).1, ((w.call c).2.serve cs).2)

/-- Timers ever added: each one has been fired or cancelled, or is pending. -/
def total (w : Wheel α) : Nat := w.fired + w.cancelled + w.len

theorem total_congr {w v : Wheel α} (h : v.books = w.books) : v.total = w.total := by
  simp only [books, Books.mk.injEq] at h
  simp [total, h]

theorem Polled.sound {w : Wheel α} {ps : List (Pending α)} {now : Nat}
    {r : Option (Expired α) × Wheel α} (h : Polled w ps now r) (hw : w.Sound ps) :
    (∃ qs, r.2.Sound qs) ∧ r.2.total = w.total := by
  have hlen := hw.filed.len
  cases h with
  | idle v hv hdue hcur hmin hb => exact ⟨⟨ps, hv⟩, total_congr hb⟩
  | overdue pre post e v heq hdue hpre hv hcur hb =>
    refine ⟨⟨pre ++ post, hv⟩, ?_⟩
    simp only [books, Books.mk.injEq, heq, List.length_append, List.length_cons] at hb hlen
    simp only [total]
    omega
  | due pre post e v heq hdue hpre hpost hv hcur hb =>
    refine ⟨⟨pre ++ post, hv⟩, ?_⟩
    simp only [books, Books.mk.injEq, heq, List.length_append, List.length_cons] at hb hlen
    simp only [total]
    omega

theorem execute_succ (w : Wheel α) (now : UInt64) (max : Nat) :
    w.execute now (max + 1) =
      match (w.poll now).1 with
      | none => ([], (w.poll now).2)
      | some e =>
        (e :: ((w.poll now).2.finish.execute now max).1,
          ((w.poll now).2.finish.execute now max).2) := by
  rw [execute]
  rcases w.poll now with ⟨_ | e, v⟩ <;> rfl

theorem Sound.execute {w : Wheel α} {ps : List (Pending α)} (h : w.Sound ps) (now : UInt64)
    (max : Nat) :
    (∃ qs, (w.execute now max).2.Sound qs) ∧ (w.execute now max).2.total = w.total := by
  induction max generalizing w ps with
  | zero => exact ⟨⟨ps, h⟩, rfl⟩
  | succ max ih =>
    obtain ⟨⟨qs, hq⟩, ht⟩ := (h.poll now).sound h
    rw [execute_succ]
    split
    · exact ⟨⟨qs, hq⟩, ht⟩
    · obtain ⟨hs, ht'⟩ := ih hq.finish
      exact ⟨hs, ht'.trans ht⟩

theorem Sound.call {w : Wheel α} {ps : List (Pending α)} (h : w.Sound ps) (c : Call α) :
    (∃ qs, (w.call c).2.Sound qs) ∧ (w.call c).2.total = w.total + if c.isAdd then 1 else 0 := by
  cases c with
  | add now delay payload =>
    obtain ⟨e, -, -, -, -, hs, -, hb⟩ := h.add now delay payload
    refine ⟨⟨ps ++ [e], hs⟩, ?_⟩
    simp only [books, Books.mk.injEq] at hb
    simp only [Wheel.call, Prod.map, total, Call.isAdd, if_true, id]
    omega
  | delete id =>
    have hd := h.delete id
    have hlen := h.filed.len
    simp only [Wheel.call, Prod.map, Call.isAdd, Bool.false_eq_true, if_false]
    generalize w.delete id = r at hd ⊢
    cases hd with
    | missing => exact ⟨⟨ps, h⟩, rfl⟩
    | running => exact ⟨⟨ps, h⟩, rfl⟩
    | removed pre post e v hrun heq hid hpre hv hd hb =>
      refine ⟨⟨pre ++ post, hv⟩, ?_⟩
      simp only [books, Books.mk.injEq, heq, List.length_append, List.length_cons] at hb hlen
      simp only [total]
      omega
  | poll now => exact (h.poll now).sound h
  | finish => exact ⟨⟨ps, h.finish⟩, rfl⟩
  | execute now max => exact h.execute now max

theorem Sound.serve {w : Wheel α} {ps : List (Pending α)} (h : w.Sound ps) (cs : List (Call α)) :
    (∃ qs, (w.serve cs).2.Sound qs) ∧ (w.serve cs).2.total = w.total + Call.adds cs := by
  induction cs generalizing w ps with
  | nil => exact ⟨⟨ps, h⟩, rfl⟩
  | cons c cs ih =>
    obtain ⟨⟨qs, hq⟩, ht⟩ := h.call c
    obtain ⟨hs, ht'⟩ := ih hq
    refine ⟨hs, ?_⟩
    have hcons : Call.adds (c :: cs) = Call.adds cs + if c.isAdd then 1 else 0 := List.countP_cons
    rw [Wheel.serve, ht', ht, hcons]
    omega

end Wheel

end ActorSystem.Timer
