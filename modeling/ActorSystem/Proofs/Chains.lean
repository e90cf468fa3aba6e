import ActorSystem.Proofs.Unfailing

/-!
Chains side by side. Any number of chains may share one arena; each of them acts as a sequence of
nodes of its own. What is done to one of them leaves all others the sequences that they are, and
neither taking a node into use nor giving one back is noticed by any.
-/

set_option autoImplicit false

namespace ActorSystem.Timer.Arena

variable {α : Type} {ι : Type*}

structure Family (a : Arena α) (chains : ι → Chain) (seqs : ι → List Nat) : Prop where
  strung : a.Strung chains seqs
  spare : ∀ k, ∀ i ∈ seqs k, i ∉ a.free

variable {a b : Arena α} {chains : ι → Chain} {seqs : ι → List Nat} {i : Nat}

/-- The chains do not notice what happens to nodes that they do not have. -/
theorem Family.frame (h : a.Family chains seqs) (hcap : a.capacity ≤ b.capacity)
    (hnode : ∀ k, ∀ j ∈ seqs k, b.node? j = a.node? j) (hfree : ∀ k, ∀ j ∈ seqs k, j ∉ b.free) :
    b.Family chains seqs :=
  ⟨⟨fun k => (h.strung.linked k).frame_node? hcap (hnode k), h.strung.apart⟩, hfree⟩

theorem Family.acquire_notMem (h : a.Family chains seqs) (seq due : Nat) (x : α) (k : ι) :
    (a.acquire seq due x).1 ∉ seqs k := by
  rcases a.acquire_eq seq due x with ⟨i, free, hf, he⟩ | ⟨-, he⟩ <;> rw [he] <;> intro hi
  · exact h.spare k i hi (by simp [hf])
  · exact absurd ((h.strung.linked k).lt_capacity hi) (Nat.lt_irrefl _)

theorem Family.node?_acquire (h : a.Family chains seqs) (seq due : Nat) (x : α) (k : ι) :
    ∀ j ∈ seqs k, (a.acquire seq due x).2.node? j = a.node? j := fun _ hj =>
  a.node?_acquire_ne seq due x (ne_of_mem_of_not_mem hj (h.acquire_notMem seq due x k))

theorem Family.acquire (h : a.Family chains seqs) (seq due : Nat) (x : α) :
    (a.acquire seq due x).2.Family chains seqs := by
  refine h.frame (a.capacity_le_acquire seq due x) (h.node?_acquire seq due x) fun k j hj => ?_
  have hspare := h.spare k j hj
  rcases a.acquire_eq seq due x with ⟨i, free, hf, he⟩ | ⟨-, he⟩ <;> rw [he]
  · rw [hf] at hspare
    exact fun hmem => hspare (List.mem_cons_of_mem i hmem)
  · simp

theorem Family.release (h : a.Family chains seqs) (hi : ∀ k, i ∉ seqs k) :
    (a.release i).2.Family chains seqs := by
  refine h.frame (a.capacity_release i).ge (fun k j hj => ?_) fun k j hj => ?_
  · exact a.node?_release_ne (ne_of_mem_of_not_mem hj (hi k))
  · have hne : j ≠ i := ne_of_mem_of_not_mem hj (hi k)
    simpa [Arena.release, hne] using h.spare k j hj

section

variable [DecidableEq ι] {k : ι}

/-- What is left when the chain at `k` has been edited: it is another sequence now, and besides some
links nothing else is new. -/
structure Edited (a : Arena α) (chains : ι → Chain) (seqs : ι → List Nat) (k : ι) (is : List Nat)
    (r : Chain × Arena α) : Prop where
  family : r.2.Family (Function.update chains k r.1) (Function.update seqs k is)
  relinked : Relinked a r.2

/-- How the operations on chains act on their sequences. None of them leaves the arena, counts below
zero or goes round in a circle. -/
structure Sequential (a : Arena α) (chains : ι → Chain) (seqs : ι → List Nat) : Prop where
  pushBack : ∀ k i, i < a.capacity → (∀ l, i ∉ seqs l) →
    a.pushBack? (chains k) i = some (a.pushBack (chains k) i) ∧
      (a.pushBack (chains k) i).2.Strung
        (Function.update chains k (a.pushBack (chains k) i).1)
        (Function.update seqs k (seqs k ++ [i])) ∧
      (i ∉ a.free → a.Edited chains seqs k (seqs k ++ [i]) (a.pushBack (chains k) i))
  popFront : ∀ k,
    a.popFront? (chains k) = some (a.popFront (chains k)) ∧
      (seqs k = [] → a.popFront (chains k) = none) ∧
      ∀ i is, seqs k = i :: is →
        ∃ r, a.popFront (chains k) = some (i, r) ∧ a.Edited chains seqs k is r
  unlink : ∀ k due seq,
    a.unlink? (chains k) due seq = some (a.unlink (chains k) tickRange due seq) ∧
      ((∀ i ∈ seqs k, ¬a.Matches tickRange due seq i) →
        a.unlink (chains k) tickRange due seq = none) ∧
      ∀ pre i post, seqs k = pre ++ i :: post → (∀ j ∈ pre, ¬a.Matches tickRange due seq j) →
        a.Matches tickRange due seq i →
        ∃ r, a.unlink (chains k) tickRange due seq = some (i, r) ∧
          a.Edited chains seqs k (pre ++ post) r
  take : ∀ k, a.Family
    (fun o : Option ι => o.elim (chains k).take.1 (Function.update chains k (chains k).take.2))
    fun o => o.elim (seqs k) (Function.update seqs k [])
  acquire : ∀ seq due x,
    ((∀ i ∈ a.free, i < a.capacity) → a.acquire? seq due x = some (a.acquire seq due x)) ∧
      (a.acquire seq due x).2.Family chains seqs ∧
      ∀ k, (a.acquire seq due x).1 ∉ seqs k ∧
        ∀ i ∈ seqs k, (a.acquire seq due x).2.node? i = a.node? i
  release : ∀ i, (∀ k, i ∉ seqs k) →
    (i < a.capacity → a.release? i = some (a.release i)) ∧
      (a.release i).2.Family chains seqs ∧
      ∀ k, ∀ j ∈ seqs k, (a.release i).2.node? j = a.node? j

theorem Family.edited (h : a.Family chains seqs) {is : List Nat} {r : Chain × Arena α}
    (hstrung : r.2.Strung (Function.update chains k r.1) (Function.update seqs k is))
    (hrel : Relinked a r.2) (hspare : ∀ j ∈ is, j ∉ a.free) : a.Edited chains seqs k is r := by
  refine ⟨⟨hstrung, fun l j hj => ?_⟩, hrel⟩
  rw [hrel.free]
  by_cases hl : l = k
  · subst hl
    rw [Function.update_self] at hj
    exact hspare j hj
  · rw [Function.update_of_ne hl] at hj
    exact h.spare l j hj

theorem Family.shorten (h : a.Family chains seqs) {c : Chain} {is : List Nat} (hc : b.Linked c is)
    (hsub : ∀ j ∈ is, j ∈ seqs k) (hrel : Relinked a b)
    (hnext : ∀ j ∉ seqs k, b.next? j = a.next? j) : a.Edited chains seqs k is (c, b) := by
  have hother : ∀ l, l ≠ k → ∀ j ∈ seqs l, j ∉ seqs k := fun l hl j hj hjk =>
    hl (h.strung.apart l k j hj hjk)
  have hlinked : ∀ l, l ≠ k → b.Linked (chains l) (seqs l) := fun l hl =>
    (h.strung.linked l).frame hrel.capacity.ge fun j hj => hnext j (hother l hl j hj)
  refine h.edited ?_ hrel fun j hj => h.spare k j (hsub j hj)
  exact h.strung.update hc hlinked fun l hl j hj hjl => hother l hl j hjl (hsub j hj)

theorem Strung.pushBack (h : a.Strung chains seqs) (hi : i < a.capacity) (hnew : ∀ l, i ∉ seqs l) :
    (a.pushBack (chains k) i).2.Strung (Function.update chains k (a.pushBack (chains k) i).1)
      (Function.update seqs k (seqs k ++ [i])) := by
  have hrel := a.relinked_pushBack (chains k) i
  refine h.update ((h.linked k).pushBack hi (hnew k)) (fun l hl => ?_) fun l hl j hj hjl => ?_
  · refine (h.linked l).frame hrel.capacity.ge fun j hj => ?_
    refine a.next?_pushBack _ (ne_of_mem_of_not_mem hj (hnew l)) fun htail => ?_
    rw [(h.linked k).tail] at htail
    exact hl (h.apart l k j hj (List.mem_of_getLast? htail))
  · rcases List.mem_append.1 hj with hj | hj
    · exact hl (h.apart l k j hjl hj)
    · rw [List.mem_singleton.1 hj] at hjl
      exact hnew l hjl

theorem Family.pushBack (h : a.Family chains seqs) (hi : i < a.capacity) (hnew : ∀ l, i ∉ seqs l)
    (hfree : i ∉ a.free) : a.Edited chains seqs k (seqs k ++ [i]) (a.pushBack (chains k) i) := by
  refine h.edited (h.strung.pushBack hi hnew) (a.relinked_pushBack (chains k) i) fun j hj => ?_
  rcases List.mem_append.1 hj with hj | hj
  · exact h.spare k j hj
  · rwa [List.mem_singleton.1 hj]

theorem Family.popFront (h : a.Family chains seqs) {is : List Nat} (hk : seqs k = i :: is) :
    ∃ r, a.popFront (chains k) = some (i, r) ∧ a.Edited chains seqs k is r := by
  have hl := h.strung.linked k
  rw [hk] at hl
  refine ⟨_, hl.popFront_cons, h.shorten hl.rest (fun j hj => ?_) (a.relinked_setNext i none)
    fun j hj => a.next?_setNext_ne (fun hij => hj ?_) none⟩
  · rw [hk]
    exact List.mem_cons_of_mem i hj
  · rw [hk, hij]
    exact List.mem_cons_self

theorem Family.unlink (h : a.Family chains seqs) {due seq : Nat} {pre post : List Nat}
    (hk : seqs k = pre ++ i :: post) (hno : ∀ j ∈ pre, ¬a.Matches tickRange due seq j)
    (hit : a.Matches tickRange due seq i) :
    ∃ r, a.unlink (chains k) tickRange due seq = some (i, r) ∧
      a.Edited chains seqs k (pre ++ post) r := by
  have hl := h.strung.linked k
  rw [hk] at hl
  refine ⟨_, hl.unlink_some hno hit, h.shorten hl.without (fun j hj => ?_)
    (a.relinked_bypass pre.getLast? i)
    fun j hj => a.next?_bypass (fun hij => hj ?_) fun hlast => hj ?_⟩
  · rw [hk]
    rcases List.mem_append.1 hj with hj | hj <;> simp [hj]
  · rw [hk, hij]
    simp
  · rw [hk]
    exact List.mem_append_left _ (List.mem_of_getLast? hlast)

theorem Family.take (h : a.Family chains seqs) (k : ι) : a.Family
    (fun o : Option ι => o.elim (chains k).take.1 (Function.update chains k (chains k).take.2))
    fun o => o.elim (seqs k) (Function.update seqs k []) := by
  have hleft : ∀ l j, j ∈ Function.update seqs k [] l → l ≠ k ∧ j ∈ seqs l := by
    intro l j hj
    by_cases hl : l = k
    · subst hl
      simp at hj
    · rw [Function.update_of_ne hl] at hj
      exact ⟨hl, hj⟩
  refine ⟨⟨fun o => ?_, fun o o' j hj hj' => ?_⟩, fun o j hj => ?_⟩
  · cases o with
    | none => exact h.strung.linked k
    | some l =>
      by_cases hl : l = k
      · subst hl
        simpa [Chain.take] using a.linked_empty
      · simpa [hl] using h.strung.linked l
  · cases o <;> cases o'
    case none.none => rfl
    case none.some l => exact absurd (h.strung.apart _ _ j (hleft l j hj').2 hj) (hleft l j hj').1
    case some.none l => exact absurd (h.strung.apart _ _ j (hleft l j hj).2 hj') (hleft l j hj).1
    case some.some l m =>
      exact congrArg some (h.strung.apart l m j (hleft l j hj).2 (hleft m j hj').2)
  · cases o with
    | none => exact h.spare k j hj
    | some l => exact h.spare l j (hleft l j hj).2

/-- Chains of one arena that are apart from each other and from the free nodes act as sequences, and
stay apart. -/
theorem Family.sequential (h : a.Family chains seqs) : a.Sequential chains seqs where
  pushBack k i hi hnew := by
    refine ⟨?_, h.strung.pushBack hi hnew, h.pushBack hi hnew⟩
    exact pushBack?_eq (h.strung.linked k) hi
  popFront k := by
    refine ⟨popFront?_eq (h.strung.linked k), fun hk => ?_, fun i is hk => h.popFront hk⟩
    exact Linked.popFront_nil (hk ▸ h.strung.linked k)
  unlink k due seq := by
    refine ⟨unlink?_eq (h.strung.linked k) due seq, ?_, fun pre i post hk => h.unlink hk⟩
    exact (h.strung.linked k).unlink_none
  take := h.take
  acquire seq due x := by
    refine ⟨fun hfree => ?_, h.acquire seq due x, fun k =>
      ⟨h.acquire_notMem seq due x k, h.node?_acquire seq due x k⟩⟩
    unfold acquire?
    split
    · rename_i i free hf
      exact if_pos (hfree i (by simp [hf]))
    · rfl
  release i hi := by
    refine ⟨fun hlt => release?_eq hlt, h.release hi, fun k j hj => ?_⟩
    exact a.node?_release_ne (ne_of_mem_of_not_mem hj (hi k))

end

def trio : Arena Char where
  nodes := #[⟨1, 7, some 'a', some 1⟩, ⟨2, 7, some 'b', some 2⟩, ⟨3, 7, some 'c', none⟩,
    ⟨4, 7, some 'd', none⟩, ⟨0, 7, none, none⟩]
  free := [4]

def trioChains : Bool → Chain
  | true => ⟨some 0, some 2, 3⟩
  | false => ⟨some 3, some 3, 1⟩

def trioSeqs : Bool → List Nat
  | true => [0, 1, 2]
  | false => [3]

theorem sequential_trio :
    trio.Family trioChains trioSeqs ∧
      ∃ r, trio.unlink (trioChains true) tickRange 7 2 = some (1, r) ∧
        trio.Edited trioChains trioSeqs true [0, 2] r := by
  have hfamily : trio.Family trioChains trioSeqs := by
    refine ⟨⟨fun k => ?_, fun k l i => ?_⟩, fun k i => ?_⟩
    · cases k
      · exact ⟨⟨rfl, by decide, rfl⟩, by decide, rfl, rfl⟩
      · exact ⟨⟨rfl, by decide, rfl, by decide, rfl, by decide, rfl⟩, by decide, rfl, rfl⟩
    · cases k <;> cases l <;> simp [trioSeqs] <;> omega
    · cases k <;> simp [trioSeqs, trio] <;> omega
  refine ⟨hfamily, (hfamily.sequential.unlink true 7 2).2.2 [0] 1 [2] rfl ?_ ⟨_, rfl, rfl, rfl⟩⟩
  rintro j hj ⟨n, hn, hseq, -⟩
  obtain rfl := List.mem_singleton.1 hj
  cases hn
  cases hseq

end ActorSystem.Timer.Arena
