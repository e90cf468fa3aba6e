import ActorSystem.Timer.Arena
import Mathlib.Data.List.Nodup
import Mathlib.Tactic.Common

set_option autoImplicit false

namespace ActorSystem.Timer.Arena

variable {α : Type}

/-- What a node holds, its link apart: sequence number, due tick, payload. -/
def content? (a : Arena α) (i : Nat) : Option (Nat × Nat × Option α) :=
  (a.node? i).map fun n => (n.seq, n.due, n.payload)

def Leads (a : Arena α) : Option Nat → List Nat → Option Nat → Prop
  | h, [], e => h = e
  | h, i :: is, e => h = some i ∧ i < a.capacity ∧ a.Leads (a.next? i) is e

structure Linked (a : Arena α) (c : Chain) (is : List Nat) : Prop where
  path : a.Leads c.head is none
  nodup : is.Nodup
  tail : c.tail = is.getLast?
  len : c.len = is.length

structure Relinked (a b : Arena α) : Prop where
  content : ∀ i, b.content? i = a.content? i
  capacity : b.capacity = a.capacity
  free : b.free = a.free

theorem lt_capacity_of_content? {a : Arena α} {i : Nat} {c : Nat × Nat × Option α}
    (h : a.content? i = some c) : i < a.capacity := by
  by_contra hge
  have hnone : a.node? i = none := Array.getElem?_eq_none (Nat.le_of_not_lt hge)
  simp [content?, hnone] at h

theorem Relinked.refl (a : Arena α) : Relinked a a := ⟨fun _ => rfl, rfl, rfl⟩

theorem Relinked.trans {a b c : Arena α} (h : Relinked a b) (h' : Relinked b c) : Relinked a c :=
  ⟨fun i => (h'.content i).trans (h.content i), h'.capacity.trans h.capacity, h'.free.trans h.free⟩

theorem node?_setNext (a : Arena α) (i j : Nat) (x : Option Nat) :
    (a.setNext i x).node? j =
      if i = j then (a.node? j).map fun n => { n with next := x } else a.node? j := by
  simp [setNext, node?, Array.getElem?_modify]

@[simp] theorem capacity_setNext (a : Arena α) (i : Nat) (x : Option Nat) :
    (a.setNext i x).capacity = a.capacity := by
  simp [setNext, capacity]

theorem next?_setNext_ne (a : Arena α) {i j : Nat} (h : i ≠ j) (x : Option Nat) :
    (a.setNext i x).next? j = a.next? j := by
  simp [next?, node?_setNext, h]

theorem next?_setNext_self (a : Arena α) {i : Nat} (h : i < a.capacity) (x : Option Nat) :
    (a.setNext i x).next? i = x := by
  have hi : a.node? i = some a.nodes[i] := Array.getElem?_eq_getElem h
  simp [next?, node?_setNext, hi]

theorem relinked_setNext (a : Arena α) (i : Nat) (x : Option Nat) :
    Relinked a (a.setNext i x) := by
  refine ⟨fun j => ?_, capacity_setNext a i x, rfl⟩
  simp only [content?, node?_setNext]
  split
  · cases a.node? j <;> rfl
  · rfl

theorem leads_append (a : Arena α) (h : Option Nat) (is js : List Nat) (e : Option Nat) :
    a.Leads h (is ++ js) e ↔ ∃ m, a.Leads h is m ∧ a.Leads m js e := by
  induction is generalizing h with
  | nil => simp [Leads]
  | cons i is ih =>
    simp only [List.cons_append, Leads, ih]
    constructor
    · rintro ⟨hh, hi, m, h₁, h₂⟩
      exact ⟨m, ⟨hh, hi, h₁⟩, h₂⟩
    · rintro ⟨m, ⟨hh, hi, h₁⟩, h₂⟩
      exact ⟨hh, hi, m, h₁, h₂⟩

theorem Leads.lt_capacity {a : Arena α} {h e : Option Nat} {is : List Nat} (hp : a.Leads h is e)
    {i : Nat} (hi : i ∈ is) : i < a.capacity := by
  induction is generalizing h with
  | nil => simp at hi
  | cons j is ih =>
    obtain ⟨-, hj, hrest⟩ := hp
    rcases List.mem_cons.mp hi with rfl | hi
    · exact hj
    · exact ih hrest hi

theorem Leads.frame {a b : Arena α} {h e : Option Nat} {is : List Nat} (hp : a.Leads h is e)
    (hcap : a.capacity ≤ b.capacity) (hnext : ∀ i ∈ is, b.next? i = a.next? i) :
    b.Leads h is e := by
  induction is generalizing h with
  | nil => exact hp
  | cons i is ih =>
    obtain ⟨hh, hi, hrest⟩ := hp
    refine ⟨hh, Nat.lt_of_lt_of_le hi hcap, ?_⟩
    rw [hnext i (by simp)]
    exact ih hrest fun j hj => hnext j (by simp [hj])

theorem Leads.setNext {a : Arena α} {h e : Option Nat} {is : List Nat} (hp : a.Leads h is e)
    {i : Nat} (hi : i ∉ is) (x : Option Nat) : (a.setNext i x).Leads h is e :=
  hp.frame (by simp) fun j hj => a.next?_setNext_ne (ne_of_mem_of_not_mem hj hi).symm x

theorem follow_eq {a : Arena α} {h : Option Nat} {is : List Nat} (hp : a.Leads h is none) :
    a.follow is.length h = is := by
  induction is generalizing h with
  | nil => cases hp; rfl
  | cons i is ih =>
    obtain ⟨rfl, -, hrest⟩ := hp
    simp [follow, ih hrest]

theorem Linked.members_eq {a : Arena α} {c : Chain} {is : List Nat} (h : a.Linked c is) :
    a.members c = is := by
  rw [members, h.len]
  exact follow_eq h.path

theorem linked_empty (a : Arena α) : a.Linked .empty [] := ⟨rfl, .nil, rfl, rfl⟩

theorem Linked.lt_capacity {a : Arena α} {c : Chain} {is : List Nat} (h : a.Linked c is)
    {i : Nat} (hi : i ∈ is) : i < a.capacity := h.path.lt_capacity hi

theorem Linked.frame {a b : Arena α} {c : Chain} {is : List Nat} (h : a.Linked c is)
    (hcap : a.capacity ≤ b.capacity) (hnext : ∀ i ∈ is, b.next? i = a.next? i) :
    b.Linked c is :=
  ⟨h.path.frame hcap hnext, h.nodup, h.tail, h.len⟩

theorem Linked.isEmpty_iff {a : Arena α} {c : Chain} {is : List Nat} (h : a.Linked c is) :
    c.isEmpty = true ↔ is = [] := by
  have hp := h.path
  cases is with
  | nil => simpa [Chain.isEmpty, Leads] using hp
  | cons i is =>
    obtain ⟨hh, -⟩ := hp
    simp [Chain.isEmpty, hh]

/-- Only the appended node and the former last one get a new link. -/
theorem next?_pushBack (a : Arena α) (c : Chain) {i j : Nat} (hi : j ≠ i) (ht : c.tail ≠ some j) :
    (a.pushBack c i).2.next? j = a.next? j := by
  unfold pushBack
  cases h : c.tail with
  | none => exact a.next?_setNext_ne hi.symm none
  | some t =>
    have hj : t ≠ j := fun e => ht (by rw [h, e])
    simp only [next?_setNext_ne _ hj, next?_setNext_ne a hi.symm]

theorem relinked_pushBack (a : Arena α) (c : Chain) (i : Nat) :
    Relinked a (a.pushBack c i).2 := by
  unfold pushBack
  cases c.tail with
  | none => exact relinked_setNext a i none
  | some t => exact (relinked_setNext a i none).trans (relinked_setNext _ t (some i))

theorem Linked.pushBack {a : Arena α} {c : Chain} {is : List Nat} (h : a.Linked c is) {i : Nat}
    (hi : i < a.capacity) (hnew : i ∉ is) :
    (a.pushBack c i).2.Linked (a.pushBack c i).1 (is ++ [i]) := by
  have hnodup : (is ++ [i]).Nodup := by
    rw [List.nodup_append]
    refine ⟨h.nodup, List.nodup_singleton i, fun x hx y hy => ?_⟩
    rw [List.mem_singleton.1 hy]
    exact ne_of_mem_of_not_mem hx hnew
  have hpath := h.path
  have htail := h.tail
  have hlen := h.len
  rcases List.eq_nil_or_concat is with rfl | ⟨js, t, rfl⟩
  · have ht : c.tail = none := by simpa using htail
    have hl : c.len = 0 := by simpa using hlen
    simp only [Arena.pushBack, ht]
    refine ⟨⟨rfl, by simpa using hi, ?_⟩, hnodup, rfl, by simp [hl]⟩
    exact a.next?_setNext_self hi none
  · have ht : c.tail = some t := by simpa using htail
    simp only [List.concat_eq_append] at hpath hlen hnew hnodup ⊢
    simp only [Arena.pushBack, ht]
    obtain ⟨m, hjs, hm, htc, -⟩ := (leads_append a c.head js [t] none).1 hpath
    subst hm
    have hit : i ≠ t := fun e => hnew (by simp [e])
    have htjs : t ∉ js := by
      have := h.nodup
      simp only [List.concat_eq_append, List.nodup_append] at this
      exact fun hx => this.2.2 t hx t (by simp) rfl
    have hijs : i ∉ js := fun hx => hnew (by simp [hx])
    refine ⟨?_, hnodup, by simp, by simp [hlen]⟩
    simp only [List.append_assoc, List.singleton_append]
    refine (leads_append _ _ js [t, i] none).2 ⟨some t, ?_, rfl, by simpa using htc, ?_⟩
    · exact (hjs.setNext hijs none).setNext htjs (some i)
    · refine ⟨next?_setNext_self _ (by simpa using htc) _, by simpa using hi, ?_⟩
      rw [next?_setNext_ne _ hit.symm]
      exact a.next?_setNext_self hi none

theorem Linked.popFront_nil {a : Arena α} {c : Chain} (h : a.Linked c []) :
    a.popFront c = none := by
  have hh : c.head = none := h.path
  simp [popFront, hh]

def rest (a : Arena α) (c : Chain) (i : Nat) : Chain :=
  ⟨a.next? i, if (a.next? i).isNone then none else c.tail, c.len - 1⟩

theorem Linked.popFront_cons {a : Arena α} {c : Chain} {i : Nat} {is : List Nat}
    (h : a.Linked c (i :: is)) : a.popFront c = some (i, a.rest c i, a.setNext i none) := by
  obtain ⟨hh, -⟩ := h.path
  simp [popFront, hh, rest]

theorem Linked.rest {a : Arena α} {c : Chain} {i : Nat} {is : List Nat}
    (h : a.Linked c (i :: is)) : (a.setNext i none).Linked (a.rest c i) is := by
  obtain ⟨-, -, hrest⟩ := h.path
  have hnodup := List.nodup_cons.1 h.nodup
  refine ⟨hrest.setNext hnodup.1 none, hnodup.2, ?_, by simp [Arena.rest, h.len]⟩
  cases is with
  | nil => simp [Arena.rest, show a.next? i = none from hrest]
  | cons j is =>
    obtain ⟨hj, -⟩ := hrest
    simp [Arena.rest, hj, h.tail]

theorem relinked_popFront {a b : Arena α} {c d : Chain} {i : Nat}
    (h : a.popFront c = some (i, d, b)) : Relinked a b := by
  obtain ⟨j, -, he⟩ := Option.map_eq_some_iff.1 h
  simp only [Prod.mk.injEq] at he
  rw [← he.2.2]
  exact a.relinked_setNext j none

def Matches (a : Arena α) (tickRange due seq i : Nat) : Prop :=
  ∃ n, a.node? i = some n ∧ n.seq = seq ∧ n.due % tickRange = due

theorem search_miss {a : Arena α} {tickRange due seq : Nat} {is : List Nat} {h : Option Nat}
    (hp : a.Leads h is none) (hno : ∀ i ∈ is, ¬ a.Matches tickRange due seq i) (n : Nat)
    (prev : Option Nat) : a.search tickRange due seq n prev h = none := by
  induction is generalizing h n prev with
  | nil =>
    cases hp
    cases n <;> rfl
  | cons i is ih =>
    obtain ⟨rfl, hi, hrest⟩ := hp
    cases n with
    | zero => rfl
    | succ n =>
      have hnode : a.node? i = some a.nodes[i] := Array.getElem?_eq_getElem hi
      have hmiss : ¬ (a.nodes[i].seq = seq ∧ a.nodes[i].due % tickRange = due) :=
        fun hm => hno i (by simp) ⟨_, hnode, hm⟩
      have hnext : a.next? i = a.nodes[i].next := by simp [next?, hnode]
      simp only [search, hnode, hmiss, if_false]
      rw [← hnext]
      exact ih hrest (fun j hj => hno j (by simp [hj])) n (some i)

theorem search_hit {a : Arena α} {tickRange due seq : Nat} {pre post : List Nat} {i : Nat}
    {h : Option Nat} (hp : a.Leads h (pre ++ i :: post) none)
    (hno : ∀ j ∈ pre, ¬ a.Matches tickRange due seq j) (hit : a.Matches tickRange due seq i)
    {n : Nat} (hn : pre.length < n) (prev : Option Nat) :
    a.search tickRange due seq n prev h = some (pre.getLast?.or prev, i) := by
  induction pre generalizing h n prev with
  | nil =>
    obtain ⟨rfl, -, -⟩ := hp
    obtain ⟨m, hm, heq⟩ := hit
    obtain ⟨n, rfl⟩ := Nat.exists_eq_succ_of_ne_zero (Nat.ne_of_gt hn)
    simp [search, hm, heq]
  | cons j pre ih =>
    obtain ⟨rfl, hj, hrest⟩ := hp
    obtain ⟨n, rfl⟩ := Nat.exists_eq_succ_of_ne_zero (Nat.ne_of_gt (Nat.zero_lt_of_lt hn))
    have hnode : a.node? j = some a.nodes[j] := Array.getElem?_eq_getElem hj
    have hmiss : ¬ (a.nodes[j].seq = seq ∧ a.nodes[j].due % tickRange = due) :=
      fun hm => hno j (by simp) ⟨_, hnode, hm⟩
    have hnext : a.next? j = a.nodes[j].next := by simp [next?, hnode]
    simp only [search, hnode, hmiss, if_false]
    rw [← hnext, ih hrest (fun k hk => hno k (by simp [hk])) (by simpa using hn) (some j)]
    cases pre <;> simp [List.getLast?_cons]

def bypass (a : Arena α) (prev : Option Nat) (i : Nat) : Arena α :=
  match prev with
  | some p => (a.setNext p (a.next? i)).setNext i none
  | none => a.setNext i none

def without (a : Arena α) (c : Chain) (prev : Option Nat) (i : Nat) : Chain :=
  ⟨if prev.isNone then a.next? i else c.head, if c.tail = some i then prev else c.tail, c.len - 1⟩

theorem Linked.unlink_none {a : Arena α} {c : Chain} {is : List Nat} (h : a.Linked c is)
    {tickRange due seq : Nat} (hno : ∀ i ∈ is, ¬ a.Matches tickRange due seq i) :
    a.unlink c tickRange due seq = none := by
  simp [unlink, search_miss h.path hno]

theorem Linked.unlink_some {a : Arena α} {c : Chain} {pre post : List Nat} {i : Nat}
    (h : a.Linked c (pre ++ i :: post)) {tickRange due seq : Nat}
    (hno : ∀ j ∈ pre, ¬ a.Matches tickRange due seq j) (hit : a.Matches tickRange due seq i) :
    a.unlink c tickRange due seq =
      some (i, a.without c pre.getLast? i, a.bypass pre.getLast? i) := by
  have hn : pre.length < c.len := by simp [h.len]
  rw [unlink, search_hit h.path hno hit hn none]
  cases pre.getLast? <;> rfl

theorem next?_bypass (a : Arena α) {prev : Option Nat} {i j : Nat} (hi : j ≠ i)
    (hp : prev ≠ some j) : (a.bypass prev i).next? j = a.next? j := by
  cases prev with
  | none => exact a.next?_setNext_ne hi.symm none
  | some p =>
    have hj : p ≠ j := fun e => hp (by rw [e])
    simp only [bypass, next?_setNext_ne _ hi.symm, next?_setNext_ne a hj]

theorem relinked_bypass (a : Arena α) (prev : Option Nat) (i : Nat) :
    Relinked a (a.bypass prev i) := by
  cases prev with
  | none => exact relinked_setNext a i none
  | some p => exact (relinked_setNext a p _).trans (relinked_setNext _ i none)

theorem relinked_unlink {a b : Arena α} {c d : Chain} {tickRange due seq i : Nat}
    (h : a.unlink c tickRange due seq = some (i, d, b)) : Relinked a b := by
  obtain ⟨⟨prev, j⟩, -, he⟩ := Option.map_eq_some_iff.1 h
  have hb : b = a.bypass prev j := by
    cases prev <;> simp only [Prod.mk.injEq] at he <;> exact he.2.2.symm
  rw [hb]
  exact a.relinked_bypass prev j

theorem Linked.without {a : Arena α} {c : Chain} {pre post : List Nat} {i : Nat}
    (h : a.Linked c (pre ++ i :: post)) :
    (a.bypass pre.getLast? i).Linked (a.without c pre.getLast? i) (pre ++ post) := by
  obtain ⟨m, hpre, rfl, hi, hpost⟩ := (leads_append a c.head pre (i :: post) none).1 h.path
  have hnodup := h.nodup
  have htail := h.tail
  have hipre : i ∉ pre := fun hx => (List.nodup_append.1 hnodup).2.2 i hx i (by simp) rfl
  have hipost : i ∉ post := (List.nodup_cons.1 (List.nodup_append.1 hnodup).2.1).1
  have hrest : (pre ++ post).Nodup :=
    hnodup.sublist (List.Sublist.append_left (List.sublist_cons_self i post) pre)
  -- the last node of the chain is `i` exactly when nothing comes behind it
  have hlast : (if c.tail = some i then pre.getLast? else c.tail) = (pre ++ post).getLast? := by
    rcases List.eq_nil_or_concat post with rfl | ⟨qs, q, rfl⟩
    · simp [htail]
    · have hq : q ≠ i := fun e => hipost (by simp [e])
      have ht : c.tail = some q := by rw [htail]; simp [List.getLast?_cons]
      simp [ht, hq]
  refine ⟨?_, hrest, hlast, by simp [Arena.without, h.len]⟩
  rcases List.eq_nil_or_concat pre with rfl | ⟨ps, p, rfl⟩
  · simpa [Arena.without, bypass] using hpost.setNext hipost none
  · simp only [List.concat_eq_append] at hpre hnodup hipre ⊢
    obtain ⟨m, hps, rfl, hp, -⟩ := (leads_append a c.head ps [p] (some i)).1 hpre
    have hpi : p ≠ i := fun e => hipre (by simp [e])
    have hpps : p ∉ ps := by
      have := (List.nodup_append.1 (List.nodup_append.1 hnodup).1).2.2
      exact fun hx => this p hx p (by simp) rfl
    have hppost : p ∉ post := fun hx =>
      (List.nodup_append.1 hnodup).2.2 p (by simp) p (by simp [hx]) rfl
    have hips : i ∉ ps := fun hx => hipre (by simp [hx])
    simp only [Arena.without, bypass, List.getLast?_append, List.getLast?_singleton, Option.some_or,
      Option.isNone_some, Bool.false_eq_true, if_false, List.append_assoc, List.singleton_append]
    refine (leads_append _ _ ps (p :: post) none).2 ⟨some p, ?_, rfl, by simpa using hp, ?_⟩
    · exact (hps.setNext hpps _).setNext hips none
    · rw [next?_setNext_ne _ hpi.symm, next?_setNext_self a hp]
      exact (hpost.setNext hppost _).setNext hipost none

/-- A node comes from the free list if there is one there, else it is new. -/
theorem acquire_eq (a : Arena α) (seq due : Nat) (payload : α) :
    (∃ i free, a.free = i :: free ∧ a.acquire seq due payload =
      (i, ⟨a.nodes.setIfInBounds i ⟨seq, due, some payload, none⟩, free⟩)) ∨
    (a.free = [] ∧ a.acquire seq due payload =
      (a.capacity, ⟨a.nodes.push ⟨seq, due, some payload, none⟩, []⟩)) := by
  cases h : a.free with
  | nil => exact .inr ⟨rfl, by simp [acquire, h, capacity]⟩
  | cons i free => exact .inl ⟨i, free, rfl, by simp [acquire, h]⟩

theorem node?_acquire_ne (a : Arena α) (seq due : Nat) (payload : α) {j : Nat}
    (hj : j ≠ (a.acquire seq due payload).1) :
    (a.acquire seq due payload).2.node? j = a.node? j := by
  rcases a.acquire_eq seq due payload with ⟨i, free, -, e⟩ | ⟨-, e⟩ <;> rw [e] at hj ⊢
  · simp [node?, Ne.symm hj]
  · simp only [capacity] at hj
    simp [node?, Array.getElem?_push, hj]

theorem capacity_acquire (a : Arena α) (seq due : Nat) (payload : α) :
    (a.acquire seq due payload).2.capacity = a.capacity + if a.free = [] then 1 else 0 := by
  rcases a.acquire_eq seq due payload with ⟨i, free, hf, e⟩ | ⟨hf, e⟩ <;> rw [e] <;>
    simp [capacity, hf]

theorem capacity_le_acquire (a : Arena α) (seq due : Nat) (payload : α) :
    a.capacity ≤ (a.acquire seq due payload).2.capacity :=
  a.capacity_acquire seq due payload ▸ Nat.le_add_right _ _

/-- Every node is either in use, as one of `is`, or free, and then it holds nothing. -/
structure Shares (a : Arena α) (is : List Nat) : Prop where
  perm : (is ++ a.free).Perm (List.range a.capacity)
  spare : ∀ i ∈ a.free, ∀ seq due x, a.content? i ≠ some (seq, due, some x)

theorem shares_empty : (empty : Arena α).Shares [] := ⟨.refl _, fun _ hi => absurd hi (by simp [empty])⟩

section Shares

variable {a b : Arena α} {is : List Nat} {i : Nat}

theorem Shares.lt_capacity (h : a.Shares is) (hi : i ∈ is) : i < a.capacity :=
  List.mem_range.1 (h.perm.subset (List.mem_append_left _ hi))

theorem Shares.lt_capacity_free (h : a.Shares is) (hi : i ∈ a.free) : i < a.capacity :=
  List.mem_range.1 (h.perm.subset (List.mem_append_right _ hi))

theorem Shares.nodup_append (h : a.Shares is) : (is ++ a.free).Nodup :=
  h.perm.nodup_iff.2 List.nodup_range

theorem Shares.nodup (h : a.Shares is) : is.Nodup := (List.nodup_append.1 h.nodup_append).1

theorem Shares.mem_of_content? (h : a.Shares is) {seq due : Nat} {x : α}
    (hc : a.content? i = some (seq, due, some x)) : i ∈ is := by
  have hlt := lt_capacity_of_content? hc
  rcases List.mem_append.1 (h.perm.symm.subset (List.mem_range.2 hlt)) with hi | hi
  · exact hi
  · exact absurd hc (h.spare i hi seq due x)

theorem Shares.relinked (h : a.Shares is) (hb : Relinked a b) : b.Shares is := by
  refine ⟨?_, fun i hi seq due x => ?_⟩
  · rw [hb.free, hb.capacity]
    exact h.perm
  · rw [hb.content]
    exact h.spare i (hb.free ▸ hi) seq due x

theorem Shares.acquire_notMem (h : a.Shares is) (seq due : Nat) (payload : α) :
    (a.acquire seq due payload).1 ∉ is := by
  intro hi
  rcases a.acquire_eq seq due payload with ⟨j, free, hf, e⟩ | ⟨-, e⟩ <;> rw [e] at hi
  · exact (List.nodup_append.1 h.nodup_append).2.2 j hi j (by simp [hf]) rfl
  · exact absurd (h.lt_capacity hi) (Nat.lt_irrefl _)

theorem Shares.acquire (h : a.Shares is) (seq due : Nat) (payload : α) :
    (a.acquire seq due payload).2.Shares (is ++ [(a.acquire seq due payload).1]) := by
  have hperm := h.perm
  have hkeep := fun j => a.node?_acquire_ne seq due payload (j := j)
  rcases a.acquire_eq seq due payload with ⟨i, free, hf, e⟩ | ⟨hf, e⟩ <;> rw [e] at hkeep ⊢ <;>
    rw [hf] at hperm
  · refine ⟨by simpa [capacity] using hperm, fun j hj s d x => ?_⟩
    have hnodup := (List.nodup_append.1 h.nodup_append).2.1
    rw [hf] at hnodup
    have hne : j ≠ i := ne_of_mem_of_not_mem hj (List.nodup_cons.1 hnodup).1
    rw [content?, hkeep j hne]
    exact h.spare j (by simp [hf, hj]) s d x
  · refine ⟨by simpa [capacity, List.range_succ] using hperm.append_right [a.capacity], ?_⟩
    simp

theorem Shares.content?_acquire (h : a.Shares is) (seq due : Nat) (payload : α) :
    (a.acquire seq due payload).2.content? (a.acquire seq due payload).1 =
      some (seq, due, some payload) := by
  have hlt := (h.acquire seq due payload).lt_capacity (List.mem_append_right is List.mem_cons_self)
  rcases a.acquire_eq seq due payload with ⟨i, free, hf, e⟩ | ⟨hf, e⟩ <;> rw [e] at hlt ⊢
  · have hi : i < a.nodes.size := by simpa [capacity] using hlt
    simp [content?, node?, hi]
  · simp [content?, node?, capacity]

theorem node?_release_ne (a : Arena α) {i j : Nat} (hj : j ≠ i) :
    (a.release i).2.node? j = a.node? j := by
  simp [release, node?, Array.getElem?_modify, Ne.symm hj]

@[simp] theorem capacity_release (a : Arena α) (i : Nat) :
    (a.release i).2.capacity = a.capacity := by
  simp [release, capacity]

theorem content?_release_self (a : Arena α) (i seq due : Nat) (x : α) :
    (a.release i).2.content? i ≠ some (seq, due, some x) := by
  simp [release, content?, node?, Array.getElem?_modify]

theorem Shares.release {pre post : List Nat} (h : a.Shares (pre ++ i :: post)) :
    (a.release i).2.Shares (pre ++ post) := by
  refine ⟨?_, fun j hj s d x => ?_⟩
  · rw [capacity_release]
    refine List.Perm.trans ?_ h.perm
    simp only [List.append_assoc, List.cons_append]
    exact (List.perm_middle.trans (List.Perm.refl _)).append_left pre
  · by_cases hji : j = i
    · subst hji
      exact a.content?_release_self j s d x
    · rw [content?, a.node?_release_ne hji]
      exact h.spare j (by simpa [Arena.release, hji] using hj) s d x

end Shares

theorem Linked.frame_node? {a b : Arena α} {c : Chain} {is : List Nat} (h : a.Linked c is)
    (hcap : a.capacity ≤ b.capacity) (hnode : ∀ i ∈ is, b.node? i = a.node? i) : b.Linked c is :=
  h.frame hcap fun i hi => by simp [next?, hnode i hi]

section Strung

variable {ι : Type*}

structure Strung (a : Arena α) (chains : ι → Chain) (seqs : ι → List Nat) : Prop where
  linked : ∀ k, a.Linked (chains k) (seqs k)
  apart : ∀ k l i, i ∈ seqs k → i ∈ seqs l → k = l

/-- One chain may be exchanged if the others stay what they are and share no node with it. -/
theorem Strung.update [DecidableEq ι] {a b : Arena α} {chains : ι → Chain} {seqs : ι → List Nat}
    (h : a.Strung chains seqs) {k : ι} {c : Chain} {is : List Nat} (hc : b.Linked c is)
    (hother : ∀ l, l ≠ k → b.Linked (chains l) (seqs l))
    (hapart : ∀ l, l ≠ k → ∀ j ∈ is, j ∉ seqs l) :
    b.Strung (Function.update chains k c) (Function.update seqs k is) := by
  refine ⟨fun l => ?_, fun l m j hl hm => ?_⟩
  · by_cases hlk : l = k
    · subst hlk
      simpa using hc
    · rw [Function.update_of_ne hlk, Function.update_of_ne hlk]
      exact hother l hlk
  · by_cases hlk : l = k <;> by_cases hmk : m = k
    · rw [hlk, hmk]
    · subst hlk
      rw [Function.update_self] at hl
      rw [Function.update_of_ne hmk] at hm
      exact absurd hm (hapart m hmk j hl)
    · subst hmk
      rw [Function.update_self] at hm
      rw [Function.update_of_ne hlk] at hl
      exact absurd hl (hapart l hlk j hm)
    · rw [Function.update_of_ne hlk] at hl
      rw [Function.update_of_ne hmk] at hm
      exact h.apart l m j hl hm

end Strung

end ActorSystem.Timer.Arena
