import ActorSystem.Proofs.Calls

set_option autoImplicit false

namespace ActorSystem.Timer

structure Agenda (α : Type) where
  timers : List (Expired α)
  added : List (Expired α)
  fired : List (UInt64 × Expired α)
  cancelled : List (Expired α)
  running : Option TimerId
  maxDelay : Nat

namespace Agenda

variable {α : Type}

def start (limit : UInt64) : Agenda α := ⟨[], [], [], [], none, min limit.toNat Timer.maxDelay⟩

def place (e : Expired α) : List (Expired α) → List (Expired α)
  | [] => [e]
  | x :: xs => if x.due ≤ e.due then x :: place e xs else e :: x :: xs

def next (a : Agenda α) (now delay : UInt64) (payload : α) : Expired α :=
  let due := min (now.toNat + min delay.toNat a.maxDelay) (tickRange - 1)
  ⟨pack due (a.added.length + 1), due, payload⟩

def add (a : Agenda α) (now delay : UInt64) (payload : α) : TimerId × Agenda α :=
  let e := a.next now delay payload
  (e.id, { a with timers := place e a.timers, added := a.added ++ [e] })

def delete (a : Agenda α) (id : TimerId) : Bool × Agenda α :=
  if a.running = some id then (true, a)
  else
    (a.timers.any (·.id == id),
      { a with
        timers := a.timers.filter (·.id != id)
        cancelled := a.cancelled ++ a.timers.filter (·.id == id) })

def poll (a : Agenda α) (now : UInt64) : Option (Expired α) × Agenda α :=
  match a.timers with
  | [] => (none, a)
  | e :: es =>
    if e.due ≤ now.toNat then
      (some e, { a with timers := es, fired := a.fired ++ [(now, e)], running := some e.id })
    else (none, a)

def finish (a : Agenda α) : Agenda α := { a with running := none }

def execute (a : Agenda α) (now : UInt64) : Nat → List (Expired α) × Agenda α
  | 0 => ([], a)
  | max + 1 =>
    match a.poll now with
    | (none, a) => ([], a)
    | (some e, a) =>
      let (es, a) := a.finish.execute now max
      (e :: es, a)

def call (a : Agenda α) : Call α → Answer α × Agenda α
  | .add now delay payload => (a.add now delay payload).map .handle id
  | .delete id => (a.delete id).map .deleted fun a => a
  | .poll now => (a.poll now).map .polled id
  | .finish => (.finished, a.finish)
  | .execute now max => (a.execute now max).map .executed id

def serve (a : Agenda α) : List (Call α) → List (Answer α) × Agenda α
  | [] => ([], a)
  | c :: cs => ((a.call c).1 :: ((a.call c).2.serve cs).1, ((a.call c).2.serve cs).2)

/-- Due before it, or at the same tick and added before it. -/
def Precedes (a : Agenda α) (x y : Expired α) : Prop :=
  x.due < y.due ∨ x.due = y.due ∧ [x, y].Sublist a.added

structure Faithful (a : Agenda α) : Prop where
  sorted : a.timers.Pairwise a.Precedes
  once : (a.fired.map Prod.snd ++ a.cancelled ++ a.timers).Perm a.added
  distinct : (a.added.map Expired.id).Nodup
  inTurn : (a.fired.map Prod.snd).Pairwise a.Precedes
  notEarly : ∀ f ∈ a.fired, f.2.due ≤ f.1.toNat
  idle : ∀ now, (a.poll now).1 = none ↔ ∀ e ∈ a.timers, now.toNat < e.due
  drained : ∀ now, (a.execute now a.timers.length).1 =
    a.timers.filter fun e => decide (e.due ≤ now.toNat)

/-- Handles compare as due ticks, and as sequence numbers within a tick. -/
theorem pack_lt_pack_iff {due due' seq seq' : Nat} (hd : due < tickRange) (hd' : due' < tickRange)
    (hs : seq < 2 ^ 24) (hs' : seq' < 2 ^ 24) :
    pack due seq < pack due' seq' ↔ due < due' ∨ due = due' ∧ seq < seq' := by
  rw [UInt64.lt_iff_toNat_lt, toNat_pack, toNat_pack, Nat.mod_eq_of_lt hd, Nat.mod_eq_of_lt hd']
  simp only [seqRange, Nat.reduceShiftLeft]
  omega

theorem perm_place (e : Expired α) (xs : List (Expired α)) : (place e xs).Perm (e :: xs) := by
  induction xs with
  | nil => exact .refl _
  | cons x xs ih =>
    unfold place
    split
    · exact (ih.cons x).trans (.swap e x xs)
    · exact .refl _

theorem pairwise_place {e : Expired α} {xs : List (Expired α)}
    (h : xs.Pairwise fun x y => x.id < y.id)
    (hle : ∀ x ∈ xs, x.due ≤ e.due → x.id < e.id) (hlt : ∀ x ∈ xs, e.due < x.due → e.id < x.id) :
    (place e xs).Pairwise fun x y => x.id < y.id := by
  induction xs with
  | nil => simp [place]
  | cons x xs ih =>
    obtain ⟨hx, hxs⟩ := List.pairwise_cons.1 h
    unfold place
    split
    · rename_i hdue
      have hrec := ih hxs (fun y hy => hle y (by simp [hy])) (fun y hy => hlt y (by simp [hy]))
      refine List.pairwise_cons.2 ⟨fun y hy => ?_, hrec⟩
      rcases List.mem_cons.1 ((perm_place e xs).subset hy) with rfl | hy
      · exact hle x (by simp) hdue
      · exact hx y hy
    · rename_i hdue
      have hex := hlt x (by simp) (by omega)
      refine List.pairwise_cons.2 ⟨fun y hy => ?_, h⟩
      rcases List.mem_cons.1 hy with rfl | hy
      · exact hex
      · exact UInt64.lt_trans hex (hx y hy)

/-- The state of the agenda at a time `t`. -/
structure Kept (a : Agenda α) (t : UInt64) : Prop where
  sorted : a.timers.Pairwise fun x y => x.id < y.id
  once : (a.fired.map Prod.snd ++ a.cancelled ++ a.timers).Perm a.added
  numbered : ∀ i e, a.added[i]? = some e → e.due < tickRange ∧ e.id = pack e.due (i + 1)
  few : a.added.length ≤ 2 ^ 24 - 2
  inTurn : (a.fired.map Prod.snd).Pairwise fun x y => x.id < y.id
  before : ∀ f ∈ a.fired, ∀ e ∈ a.timers, f.2.id < e.id
  notEarly : ∀ f ∈ a.fired, f.2.due ≤ f.1.toNat ∧ f.1 ≤ t

theorem kept_start (limit t : UInt64) : (start limit : Agenda α).Kept t := by
  refine ⟨?_, ?_, ?_, ?_, ?_, ?_, ?_⟩ <;> simp [start]

theorem Kept.later {a : Agenda α} {t now : UInt64} (h : a.Kept t) (hle : t ≤ now) : a.Kept now :=
  ⟨h.sorted, h.once, h.numbered, h.few, h.inTurn, h.before, fun f hf =>
    ⟨(h.notEarly f hf).1, UInt64.le_trans (h.notEarly f hf).2 hle⟩⟩

theorem Kept.mem_added {a : Agenda α} {t : UInt64} (h : a.Kept t) {e : Expired α}
    (he : e ∈ a.fired.map Prod.snd ∨ e ∈ a.timers) :
    ∃ i, i < a.added.length ∧ a.added[i]? = some e ∧ e.due < tickRange ∧
      e.id = pack e.due (i + 1) := by
  have hmem : e ∈ a.added := by
    apply h.once.subset
    rcases he with he | he
    · exact List.mem_append_left _ (List.mem_append_left _ he)
    · exact List.mem_append_right _ he
  obtain ⟨i, hi, heq⟩ := List.mem_iff_getElem.1 hmem
  have hget : a.added[i]? = some e := by rw [List.getElem?_eq_getElem hi, heq]
  exact ⟨i, hi, hget, h.numbered i e hget⟩

/-- A new timer has a later handle than any timer that is not due after it. -/
theorem Kept.id_lt_next {a : Agenda α} {t : UInt64} (h : a.Kept t)
    (hfew : a.added.length + 1 ≤ 2 ^ 24 - 2) {e : Expired α}
    (he : e ∈ a.fired.map Prod.snd ∨ e ∈ a.timers) (now delay : UInt64) (payload : α) :
    (e.due ≤ (a.next now delay payload).due → e.id < (a.next now delay payload).id) ∧
      ((a.next now delay payload).due < e.due → (a.next now delay payload).id < e.id) := by
  obtain ⟨i, hi, -, hdue, hid⟩ := h.mem_added he
  have hnext : (a.next now delay payload).due < tickRange := by
    have hpos : 0 < tickRange := by decide
    simp only [next]
    omega
  have hidn : (a.next now delay payload).id =
      pack (a.next now delay payload).due (a.added.length + 1) := rfl
  rw [hid, hidn, pack_lt_pack_iff hdue hnext (by omega) (by omega),
    pack_lt_pack_iff hnext hdue (by omega) (by omega)]
  omega

theorem Kept.add {a : Agenda α} {now : UInt64} (h : a.Kept now)
    (hnow : now.toNat < tickRange) (hfew : a.added.length + 1 ≤ 2 ^ 24 - 2) (delay : UInt64)
    (payload : α) : (a.add now delay payload).2.Kept now := by
  have hnew := fun e he => h.id_lt_next hfew (e := e) he now delay payload
  have hdue : now.toNat ≤ (a.next now delay payload).due := by
    simp only [next]
    omega
  refine ⟨?_, ?_, ?_, ?_, h.inTurn, ?_, h.notEarly⟩
  · exact pairwise_place h.sorted (fun x hx => (hnew x (.inr hx)).1) fun x hx => (hnew x (.inr hx)).2
  · have hp := perm_place (a.next now delay payload) a.timers
    refine ((hp.append_left _).trans List.perm_middle).trans ?_
    exact (h.once.cons _).trans (List.perm_append_singleton _ _).symm
  · intro i e hi
    change (a.added ++ [a.next now delay payload])[i]? = some e at hi
    rcases Nat.lt_or_ge i a.added.length with hlt | hge
    · rw [List.getElem?_append_left hlt] at hi
      exact h.numbered i e hi
    · rw [List.getElem?_append_right hge, List.getElem?_singleton] at hi
      split at hi
      · obtain rfl := Option.some.inj hi
        have hpos : 0 < tickRange := by decide
        obtain rfl : i = a.added.length := by omega
        refine ⟨?_, rfl⟩
        simp only [next]
        omega
      · exact absurd hi (by simp)
  · simpa [Agenda.add] using hfew
  · intro f hf e he
    rcases List.mem_cons.1 ((perm_place _ _).subset he) with rfl | he
    · have hf' := h.notEarly f hf
      have hft := UInt64.le_iff_toNat_le.1 hf'.2
      exact (hnew f.2 (.inl (List.mem_map_of_mem hf))).1 (by omega)
    · exact h.before f hf e he

theorem Kept.delete {a : Agenda α} {t : UInt64} (h : a.Kept t) (id : TimerId) :
    (a.delete id).2.Kept t := by
  unfold Agenda.delete
  split
  · exact h
  · refine ⟨h.sorted.filter _, ?_, h.numbered, h.few, h.inTurn, fun f hf e he => ?_, h.notEarly⟩
    · refine List.Perm.trans ?_ h.once
      rw [List.append_assoc, List.append_assoc, List.append_assoc]
      refine List.Perm.append_left _ (List.Perm.append_left _ ?_)
      have hsplit := List.filter_append_perm (fun x : Expired α => x.id == id) a.timers
      simpa [bne] using hsplit
    · exact h.before f hf e (List.mem_filter.1 he).1

theorem Kept.poll {a : Agenda α} {now : UInt64} (h : a.Kept now) : (a.poll now).2.Kept now := by
  unfold Agenda.poll
  split
  · exact h
  · rename_i e es hes
    have hsorted := h.sorted
    have honce := h.once
    have hbefore := h.before
    rw [hes] at hsorted honce hbefore
    obtain ⟨he, hsorted⟩ := List.pairwise_cons.1 hsorted
    split
    · rename_i hdue
      refine ⟨hsorted, ?_, h.numbered, h.few, ?_, ?_, ?_⟩
      · refine List.Perm.trans ?_ honce
        simp only [List.map_append, List.map_cons, List.map_nil, List.append_assoc,
          List.singleton_append]
        exact List.perm_middle.symm.append_left _
      · rw [List.map_append, List.pairwise_append]
        refine ⟨h.inTurn, List.pairwise_singleton _ _, fun x hx y hy => ?_⟩
        obtain ⟨f, hf, rfl⟩ := List.mem_map.1 hx
        obtain rfl := List.mem_singleton.1 hy
        exact hbefore f hf _ (by simp)
      · intro f hf y hy
        rcases List.mem_append.1 hf with hf | hf
        · exact hbefore f hf y (by simp [hy])
        · obtain rfl := List.mem_singleton.1 hf
          exact he y hy
      · intro f hf
        rcases List.mem_append.1 hf with hf | hf
        · exact h.notEarly f hf
        · obtain rfl := List.mem_singleton.1 hf
          exact ⟨hdue, UInt64.le_refl _⟩
    · exact h

theorem Kept.finish {a : Agenda α} {t : UInt64} (h : a.Kept t) : a.finish.Kept t :=
  ⟨h.sorted, h.once, h.numbered, h.few, h.inTurn, h.before, h.notEarly⟩

theorem execute_succ (a : Agenda α) (now : UInt64) (max : Nat) :
    a.execute now (max + 1) =
      match (a.poll now).1 with
      | none => ([], (a.poll now).2)
      | some e =>
        (e :: ((a.poll now).2.finish.execute now max).1,
          ((a.poll now).2.finish.execute now max).2) := by
  rw [execute]
  rcases a.poll now with ⟨_ | e, b⟩ <;> rfl

theorem Kept.execute {a : Agenda α} {now : UInt64} (h : a.Kept now) (max : Nat) :
    (a.execute now max).2.Kept now := by
  induction max generalizing a with
  | zero => exact h
  | succ max ih =>
    rw [execute_succ]
    split
    · exact h.poll
    · exact ih h.poll.finish

/-- The times of a call and those before it do not run backwards. -/
theorem Kept.call {a : Agenda α} {t : UInt64} (h : a.Kept t) (c : Call α)
    (htime : ∀ now, c.time? = some now → t ≤ now ∧ now.toNat < tickRange)
    (hfew : (a.added.length + if c.isAdd then 1 else 0) ≤ 2 ^ 24 - 2) :
    (a.call c).2.Kept (c.time?.getD t) := by
  cases c with
  | add now delay payload =>
    obtain ⟨hle, hnow⟩ := htime now rfl
    exact (h.later hle).add hnow hfew delay payload
  | delete id => exact h.delete id
  | poll now => exact (h.later (htime now rfl).1).poll
  | finish => exact h.finish
  | execute now max => exact (h.later (htime now rfl).1).execute max

@[simp] theorem added_poll (a : Agenda α) (now : UInt64) : (a.poll now).2.added = a.added := by
  unfold poll
  split
  · rfl
  · split <;> rfl

@[simp] theorem added_execute (a : Agenda α) (now : UInt64) (max : Nat) :
    (a.execute now max).2.added = a.added := by
  induction max generalizing a with
  | zero => rfl
  | succ max ih =>
    rw [execute_succ]
    split
    · simp
    · simp [ih, Agenda.finish]

theorem length_added_call (a : Agenda α) (c : Call α) :
    (a.call c).2.added.length = a.added.length + if c.isAdd then 1 else 0 := by
  cases c with
  | add now delay payload => simp [call, add, Call.isAdd]
  | delete id =>
    simp only [call, delete, Call.isAdd]
    split <;> rfl
  | poll now => simp [call, Call.isAdd]
  | finish => rfl
  | execute now max => simp [call, Call.isAdd]

theorem pair_sublist {xs : List (Expired α)} {i j : Nat} {x y : Expired α} (hij : i < j)
    (hx : xs[i]? = some x) (hy : xs[j]? = some y) : [x, y].Sublist xs := by
  obtain ⟨hj, rfl⟩ := List.getElem?_eq_some_iff.1 hy
  have hmem : x ∈ xs.take j := by
    refine List.mem_of_getElem? (i := i) ?_
    rw [List.getElem?_take_of_lt hij, hx]
  have hsplit : xs.take j ++ xs[j] :: xs.drop (j + 1) = xs := by
    rw [← List.drop_eq_getElem_cons hj, List.take_append_drop]
  have hpair : ([x] ++ [xs[j]]).Sublist (xs.take j ++ xs[j] :: xs.drop (j + 1)) :=
    (List.singleton_sublist.2 hmem).append (List.singleton_sublist.2 List.mem_cons_self)
  exact hpair.trans (by rw [hsplit])

theorem Kept.precedes {a : Agenda α} {t : UInt64} (h : a.Kept t) {x y : Expired α}
    (hx : x ∈ a.fired.map Prod.snd ∨ x ∈ a.timers) (hy : y ∈ a.fired.map Prod.snd ∨ y ∈ a.timers)
    (hlt : x.id < y.id) : a.Precedes x y := by
  obtain ⟨i, hi, hgeti, hdi, hidi⟩ := h.mem_added hx
  obtain ⟨j, hj, hgetj, hdj, hidj⟩ := h.mem_added hy
  have hfew := h.few
  rw [hidi, hidj, pack_lt_pack_iff hdi hdj (by omega) (by omega)] at hlt
  rcases hlt with hlt | ⟨heq, hlt⟩
  · exact .inl hlt
  · exact .inr ⟨heq, pair_sublist (by omega) hgeti hgetj⟩

theorem Precedes.due_le {a : Agenda α} {x y : Expired α} (h : a.Precedes x y) : x.due ≤ y.due := by
  rcases h with h | h
  · exact h.le
  · exact h.1.le

theorem poll_idle {a : Agenda α} {now : UInt64} (h : ∀ e ∈ a.timers, now.toNat < e.due) :
    a.poll now = (none, a) := by
  unfold poll
  split
  · rfl
  · rename_i e es hes
    have := h e (by simp [hes])
    exact if_neg (by omega)

theorem poll_due {a : Agenda α} {now : UInt64} {e : Expired α} {es : List (Expired α)}
    (hes : a.timers = e :: es) (hdue : e.due ≤ now.toNat) :
    a.poll now =
      (some e, { a with timers := es, fired := a.fired ++ [(now, e)], running := some e.id }) := by
  rw [poll, hes]
  exact if_pos hdue

theorem poll_eq_none_iff {a : Agenda α} (h : a.timers.Pairwise fun x y => x.due ≤ y.due)
    (now : UInt64) : (a.poll now).1 = none ↔ ∀ e ∈ a.timers, now.toNat < e.due := by
  constructor
  · intro hnone x hx
    cases hes : a.timers with
    | nil => simp [hes] at hx
    | cons e es =>
      rw [hes] at h hx
      have hlt : now.toNat < e.due := by
        by_contra hge
        rw [poll_due hes (by omega)] at hnone
        exact absurd hnone (by simp)
      rcases List.mem_cons.1 hx with rfl | hx
      · exact hlt
      · exact hlt.trans_le ((List.pairwise_cons.1 h).1 x hx)
  · intro hall
    rw [poll_idle hall]

/-- Polling for as long as there are timers returns all that are due. -/
theorem execute_eq_filter {a : Agenda α} (h : a.timers.Pairwise fun x y => x.due ≤ y.due)
    (now : UInt64) :
    (a.execute now a.timers.length).1 = a.timers.filter fun e => decide (e.due ≤ now.toNat) := by
  induction hes : a.timers generalizing a with
  | nil => rfl
  | cons e es ih =>
    rw [hes] at h
    obtain ⟨he, hrest⟩ := List.pairwise_cons.1 h
    rw [List.length_cons, execute_succ]
    by_cases hdue : e.due ≤ now.toNat
    · simp only [poll_due hes hdue]
      rw [List.filter_cons_of_pos (by simpa using hdue)]
      congr 1
      exact ih (a := (Agenda.finish _)) hrest rfl
    · have hnone : ∀ x ∈ a.timers, now.toNat < x.due := by
        intro x hx
        rw [hes] at hx
        rcases List.mem_cons.1 hx with rfl | hx
        · omega
        · have := he x hx
          omega
      rw [hes] at hnone
      simp only [poll_idle (hes ▸ hnone)]
      rw [eq_comm, List.filter_eq_nil_iff]
      intro x hx
      have := hnone x hx
      simp
      omega

theorem Kept.faithful {a : Agenda α} {t : UInt64} (h : a.Kept t) : a.Faithful := by
  have hsorted : a.timers.Pairwise a.Precedes := by
    refine h.sorted.imp_of_mem fun hx hy hlt => ?_
    exact h.precedes (.inr hx) (.inr hy) hlt
  have hdue := hsorted.imp fun hp => Precedes.due_le hp
  refine ⟨hsorted, h.once, ?_, ?_, fun f hf => (h.notEarly f hf).1, poll_eq_none_iff hdue,
    execute_eq_filter hdue⟩
  · rw [List.Nodup, List.pairwise_map, List.pairwise_iff_getElem]
    intro i j hi hj hij heq
    have hidi := (h.numbered i _ (List.getElem?_eq_getElem hi)).2
    have hidj := (h.numbered j _ (List.getElem?_eq_getElem hj)).2
    have hfew := h.few
    have hseq := congrArg (fun id => (unpack id).2) (hidi.symm.trans (heq.trans hidj))
    simp only [unpack_pack, seqRange, Nat.reduceShiftLeft] at hseq
    omega
  · refine h.inTurn.imp_of_mem fun hx hy hlt => ?_
    exact h.precedes (.inl hx) (.inl hy) hlt

end Agenda

end ActorSystem.Timer
