import ActorSystem.Proofs.Consistency
import ActorSystem.Proofs.Refinement

/-!
What a handle does. Cancelling by any number at all takes out the timer that the number names, if
one waits under it, and otherwise changes nothing; and until sequence numbers start over, a number
that has been returned for one timer never names another.
-/

set_option autoImplicit false

namespace ActorSystem.Timer

variable {α : Type}

/-- The handles that have been returned, each with the payload that was added. -/
def Call.issued : List (Call α) → List (Answer α) → List (TimerId × α)
  | .add _ _ payload :: cs, .handle id :: as => (id, payload) :: issued cs as
  | _ :: cs, _ :: as => issued cs as
  | _, _ => []

theorem Call.issued_cons (c : Call α) (cs : List (Call α)) (a : Answer α) (as : List (Answer α)) :
    issued (c :: cs) (a :: as) = issued [c] [a] ++ issued cs as := by
  cases c <;> cases a <;> rfl

namespace Wheel

def after (now limit : UInt64) (cs : List (Call α)) : Wheel α :=
  ((withMaxDelay now limit).serve cs).2

def withdrawn (w : Wheel α) : Call α → List TimerId
  | .add _ _ _ => []
  | .delete id => if (w.delete id).1 = true ∧ w.running ≠ some id then [id] else []
  | .poll now => ((w.poll now).1.map Expired.id).toList
  | .finish => []
  | .execute now max => (w.execute now max).1.map Expired.id

/-- A new timer comes last at its place, and its handle says which it is. -/
structure Joins (w : Wheel α) (payload : α) (id : TimerId) (v : Wheel α) : Prop where
  last : ∃ p e, v.waiting = Function.update w.waiting p (w.waiting p ++ [e]) ∧
    e.payload = payload ∧ unpack id = (e.due, e.seq)
  nonzero : id ≠ 0

/-- What cancelling by `id` does. -/
structure Exact (w : Wheel α) (id : TimerId) : Prop where
  found : (w.delete id).1 = true ↔
    id ≠ 0 ∧ (w.running = some id ∨ ∃ p, ∃ e ∈ w.waiting p, pack e.due e.seq = id)
  kept : w.running = some id ∨ (w.delete id).1 = false → (w.delete id).2 = w
  removed : (w.delete id).1 = true → w.running ≠ some id →
    ∃ p pre e post, w.waiting p = pre ++ e :: post ∧ pack e.due e.seq = id ∧
      (w.delete id).2.waiting = Function.update w.waiting p (pre ++ post) ∧
      (w.delete id).2.dial = w.dial ∧ (w.delete id).2.len + 1 = w.len ∧
      (w.delete id).2.books =
        { w.books with len := (w.delete id).2.len, cancelled := w.cancelled + 1 }

structure Apart (w : Wheel α) (hs : List (TimerId × α)) : Prop where
  nonzero : ∀ h ∈ hs, h.1 ≠ 0
  distinct : (hs.map Prod.fst).Nodup
  own : ∀ p, ∀ e ∈ w.waiting p, (pack e.due e.seq, e.payload) ∈ hs ∧
    unpack (pack e.due e.seq) = (e.due, e.seq)
  single : ∀ p q, ∀ x ∈ w.waiting p, ∀ y ∈ w.waiting q,
    pack x.due x.seq = pack y.due y.seq → x = y

theorem dial_file (w : Wheel α) (seq due : Nat) (payload : α) :
    (w.file seq due payload).dial = w.dial := dial_insert _ _

theorem dial_add (w : Wheel α) (now delay : UInt64) (payload : α) :
    (w.add now delay payload).2.dial = (w.align (tickOf now)).dial := by
  rw [add_eq]
  exact dial_file _ _ _ _

theorem Filed.waiting_align {w : Wheel α} {ps : List (Pending α)} (h : w.Filed ps) (now : Nat)
    (p : Place) :
    w.waiting p = ps.filter fun e => decide ((w.align now).dial.locate e.due = p) := by
  rw [h.waiting_eq, dial_align]
  split
  · rename_i hempty
    obtain rfl : ps = [] := List.eq_nil_of_length_eq_zero (h.len ▸ hempty.1)
    rw [List.filter_nil, List.filter_nil]
  · rfl

theorem Sound.joins {w : Wheel α} {ps : List (Pending α)} (h : w.Sound ps) (now delay : UInt64)
    (payload : α) :
    Joins w payload (w.add now delay payload).1 (w.add now delay payload).2 := by
  obtain ⟨e, -, hpay, -, hid, hs, -, -⟩ := h.add now delay payload
  have hseq := hs.seqs e (by simp)
  have hdial := w.dial_add now delay payload
  rw [hid]
  refine ⟨⟨(w.align (tickOf now)).dial.locate e.due, e, ?_, hpay, ?_⟩, expired_id_ne_zero hseq⟩
  · funext p
    rw [hs.filed.waiting_eq, hdial, List.filter_append, ← h.filed.waiting_align]
    by_cases hp : p = (w.align (tickOf now)).dial.locate e.due
    · subst hp
      simp
    · rw [Function.update_of_ne hp, List.filter_cons_of_neg (by simpa using Ne.symm hp),
        List.filter_nil, List.append_nil]
  · exact unpack_expired (hs.ticks e (by simp)) hseq.2

theorem Sound.exact {w : Wheel α} {ps : List (Pending α)} (h : w.Sound ps) (id : TimerId) :
    Exact w id := by
  have hd := h.delete id
  have hpending : (∃ p, ∃ e ∈ w.waiting p, pack e.due e.seq = id) ↔ ∃ e ∈ ps, e.expired.id = id :=
    h.filed.exists_waiting_iff
  constructor
  · rw [hpending]
    generalize w.delete id = r at hd
    cases hd with
    | missing hrun hno =>
      have hnone : ¬ ∃ e ∈ ps, e.expired.id = id := fun ⟨e, he, hid⟩ => hno e he hid
      rcases hrun with hrun | hzero
      · simp [hrun, hnone]
      · simp [hzero]
    | running hid hrun => simp [hid, hrun]
    | removed pre post e v hrun heq hid =>
      have he : e ∈ ps := by simp [heq]
      have hne : id ≠ 0 := hid ▸ expired_id_ne_zero (h.seqs e he)
      exact iff_of_true rfl ⟨hne, .inr ⟨e, he, hid⟩⟩
  · intro hcase
    generalize w.delete id = r at hd hcase ⊢
    cases hd with
    | missing => rfl
    | running => rfl
    | removed pre post e v hrun =>
      rcases hcase with hcase | hcase
      · exact absurd hcase hrun
      · cases hcase
  · intro hfound hnot
    generalize w.delete id = r at hd hfound ⊢
    cases hd with
    | missing => cases hfound
    | running hid hrun => exact absurd hrun hnot
    | removed pre post e v hrun heq hid hpre hv hdial hb =>
      have hlen := h.filed.len
      have hlen' := hv.filed.len
      rw [heq] at hlen
      simp only [List.length_append, List.length_cons] at hlen hlen'
      have hmore : v.len + 1 = w.len := by omega
      have hb' : v.books = { w.books with len := v.len, cancelled := w.cancelled + 1 } := by
        rw [hb, ← hmore, Nat.add_sub_cancel]
      refine ⟨w.dial.locate e.due,
        pre.filter fun x => decide (w.dial.locate x.due = w.dial.locate e.due), e,
        post.filter fun x => decide (w.dial.locate x.due = w.dial.locate e.due), ?_, hid, ?_, hdial,
        hmore, hb'⟩
      · rw [h.filed.waiting_eq, heq, List.filter_append, List.filter_cons_of_pos (by simp)]
      · funext p
        rw [hv.filed.waiting_eq, hdial, List.filter_append]
        by_cases hp : p = w.dial.locate e.due
        · subst hp
          rw [Function.update_self]
        · rw [Function.update_of_ne hp, h.filed.waiting_eq, heq, List.filter_append,
            List.filter_cons_of_neg (by simpa using Ne.symm hp)]

theorem Sound.delete_absent {w : Wheel α} {ps : List (Pending α)} (h : w.Sound ps) {id : TimerId}
    (hno : ∀ e ∈ ps, e.expired.id ≠ id) : (w.delete id).2 = w := by
  have hd := h.delete id
  generalize w.delete id = r at hd ⊢
  cases hd with
  | missing => rfl
  | running => rfl
  | removed pre post e v hrun heq hid => exact absurd hid (hno e (by simp [heq]))

/-- Of the pending timers `ps` those with the handles `ids` have gone, and `qs` are left. -/
def Leaves (ps qs : List (Pending α)) (ids : List TimerId) : Prop :=
  qs.Sublist ps ∧ ∃ es : List (Pending α),
    (es ++ qs).Perm ps ∧ es.map (fun e => e.expired.id) = ids

namespace Leaves

variable {ps qs rs : List (Pending α)} {ids ids' : List TimerId}

theorem refl (ps : List (Pending α)) : Leaves ps ps [] := ⟨.refl ps, [], .refl ps, rfl⟩

theorem one (pre post : List (Pending α)) (e : Pending α) :
    Leaves (pre ++ e :: post) (pre ++ post) [e.expired.id] :=
  ⟨(List.sublist_cons_self e post).append_left pre, [e],
    (List.perm_middle : (pre ++ e :: post).Perm (e :: (pre ++ post))).symm, rfl⟩

theorem trans (h : Leaves ps qs ids) (h' : Leaves qs rs ids') : Leaves ps rs (ids ++ ids') := by
  obtain ⟨hsub, es, hperm, rfl⟩ := h
  obtain ⟨hsub', es', hperm', rfl⟩ := h'
  refine ⟨hsub'.trans hsub, es ++ es', ?_, List.map_append⟩
  rw [List.append_assoc]
  exact (hperm'.append_left es).trans hperm

/-- What has gone had one of the handles, and was not the same as what is left. -/
theorem gone (h : Leaves ps qs ids) (hdistinct : (ps.map fun e => e.expired.id).Nodup) :
    ∀ id ∈ ids, (∃ e ∈ ps, e.expired.id = id) ∧ ∀ e ∈ qs, e.expired.id ≠ id := by
  obtain ⟨-, es, hperm, rfl⟩ := h
  have hsplit := (hperm.map fun e => e.expired.id).nodup_iff.2 hdistinct
  rw [List.map_append, List.nodup_append] at hsplit
  intro id hid
  obtain ⟨e, he, rfl⟩ := List.mem_map.1 hid
  refine ⟨⟨e, hperm.subset (List.mem_append_left _ he), rfl⟩, fun x hx hxe => ?_⟩
  exact hsplit.2.2 _ hid _ (List.mem_map_of_mem hx) hxe.symm

end Leaves

theorem Sound.poll_leaves {w : Wheel α} {ps : List (Pending α)} (h : w.Sound ps) (now : UInt64) :
    ∃ qs, (w.poll now).2.Sound qs ∧ Leaves ps qs (w.withdrawn (.poll now)) ∧
      (w.poll now).2.seq = w.seq := by
  have hp := h.poll now
  rw [withdrawn]
  generalize w.poll now = r at hp ⊢
  cases hp with
  | idle v hv hdue hcur hmin hb => exact ⟨ps, hv, .refl ps, congrArg Books.seq hb⟩
  | overdue pre post e v heq hdue hpre hv hcur hb =>
    exact ⟨_, hv, heq ▸ .one pre post e, congrArg Books.seq hb⟩
  | due pre post e v heq hdue hpre hpost hv hcur hb =>
    exact ⟨_, hv, heq ▸ .one pre post e, congrArg Books.seq hb⟩

theorem Sound.execute_leaves {w : Wheel α} {ps : List (Pending α)} (h : w.Sound ps) (now : UInt64)
    (max : Nat) :
    ∃ qs, (w.execute now max).2.Sound qs ∧ Leaves ps qs (w.withdrawn (.execute now max)) ∧
      (w.execute now max).2.seq = w.seq := by
  induction max generalizing w ps with
  | zero => exact ⟨ps, h, .refl ps, rfl⟩
  | succ max ih =>
    obtain ⟨qs, hq, hleaves, hseq⟩ := h.poll_leaves now
    simp only [withdrawn] at hleaves ih ⊢
    rw [execute_succ]
    cases he : (w.poll now).1 with
    | none =>
      rw [he] at hleaves
      exact ⟨qs, hq, hleaves, hseq⟩
    | some e =>
      obtain ⟨rs, hr, hrest, hseq'⟩ := ih hq.finish
      rw [he] at hleaves
      exact ⟨rs, hr, hleaves.trans hrest, hseq'.trans hseq⟩

theorem Sound.call_leaves {w : Wheel α} {ps : List (Pending α)} (h : w.Sound ps) {c : Call α}
    (hc : c.isAdd = false) :
    ∃ qs, (w.call c).2.Sound qs ∧ Leaves ps qs (w.withdrawn c) ∧ (w.call c).2.seq = w.seq := by
  cases c with
  | add => cases hc
  | delete id =>
    have hd := h.delete id
    change ∃ qs, (w.delete id).2.Sound qs ∧ _ ∧ (w.delete id).2.seq = w.seq
    rw [withdrawn]
    generalize w.delete id = r at hd ⊢
    cases hd with
    | missing => exact ⟨ps, h, by simpa using .refl ps, rfl⟩
    | running hid hrun => exact ⟨ps, h, by simpa [hrun] using .refl ps, rfl⟩
    | removed pre post e v hrun heq hid hpre hv hdial hb =>
      subst heq hid
      exact ⟨_, hv, by simpa [hrun] using .one pre post e, congrArg Books.seq hb⟩
  | poll now => exact h.poll_leaves now
  | finish => exact ⟨ps, h.finish, .refl ps, rfl⟩
  | execute now max => exact h.execute_leaves now max

/-- The handles `hs` have been returned, the `j`-th of them with the sequence number `j + 1`. -/
structure Marked (w : Wheel α) (ps : List (Pending α)) (hs : List (TimerId × α)) : Prop where
  sound : w.Sound ps
  seq : w.seq = hs.length
  numbered : ∀ (j : Nat) (h : TimerId × α), hs[j]? = some h → (unpack h.1).2 = j + 1
  own : ∀ e ∈ ps, (e.expired.id, e.payload) ∈ hs
  distinct : (ps.map fun e => e.expired.id).Nodup

theorem serve_append (w : Wheel α) (cs ds : List (Call α)) :
    (w.serve (cs ++ ds)).2 = ((w.serve cs).2.serve ds).2 := by
  induction cs generalizing w with
  | nil => rfl
  | cons c cs ih => exact ih (w.call c).2

theorem length_issued_call (w : Wheel α) (c : Call α) :
    (Call.issued [c] [(w.call c).1]).length = if c.isAdd then 1 else 0 := by
  cases c <;> rfl

theorem length_issued (cs : List (Call α)) (w : Wheel α) :
    (Call.issued cs (w.serve cs).1).length = Call.adds cs := by
  induction cs generalizing w with
  | nil => rfl
  | cons c cs ih =>
    rw [serve, Call.issued_cons, List.length_append, ih, length_issued_call, Call.adds, Call.adds,
      List.countP_cons, Nat.add_comm]

namespace Marked

variable {w : Wheel α} {ps : List (Pending α)} {hs : List (TimerId × α)}

theorem start (now limit : UInt64) : (withMaxDelay now limit : Wheel α).Marked [] [] :=
  ⟨.start now limit, rfl, by simp, by simp, by simp⟩

theorem seq_le (h : w.Marked ps hs) {x : TimerId × α} (hx : x ∈ hs) : (unpack x.1).2 ≤ w.seq := by
  obtain ⟨j, hj, hget⟩ := List.mem_iff_getElem.1 hx
  rw [h.numbered j x (by rw [List.getElem?_eq_getElem hj, hget]), h.seq]
  exact hj

theorem add (h : w.Marked ps hs) (hfew : hs.length + 1 ≤ 2 ^ 24 - 2) (now delay : UInt64)
    (payload : α) :
    ∃ e, (w.add now delay payload).2.Marked (ps ++ [e])
        (hs ++ [((w.add now delay payload).1, payload)]) ∧
      (unpack e.expired.id).2 = hs.length + 1 := by
  obtain ⟨e, hseq, hpay, -, hid, hs', -, hb⟩ := h.sound.add now delay payload
  have hunpack := unpack_expired (hs'.ticks e (by simp)) (hs'.seqs e (by simp)).2
  rw [h.seq, Mirrors.nextSeq_eq hfew] at hseq
  have hnew : (unpack e.expired.id).2 = hs.length + 1 := by rw [hunpack, hseq]
  have hlen : (hs ++ [((w.add now delay payload).1, payload)]).length = hs.length + 1 :=
    List.length_append
  refine ⟨e, ⟨hs', ?_, fun j x hx => ?_, fun x hx => ?_, ?_⟩, hnew⟩
  · rw [← Mirrors.nextSeq_eq hfew, ← h.seq] at hlen
    exact (congrArg Books.seq hb).trans hlen.symm
  · rcases Nat.lt_or_ge j hs.length with hj | hj
    · rw [List.getElem?_append_left hj] at hx
      exact h.numbered j x hx
    · rw [List.getElem?_append_right hj, List.getElem?_singleton] at hx
      split at hx
      · rw [← Option.some.inj hx, hid, hnew]
        omega
      · cases hx
  · rcases List.mem_append.1 hx with hx | hx
    · exact List.mem_append_left _ (h.own x hx)
    · rw [List.mem_singleton.1 hx, hid, hpay]
      exact List.mem_append_right _ (List.mem_singleton_self _)
  · rw [List.map_append, List.nodup_append]
    refine ⟨h.distinct, List.nodup_singleton _, fun id hold id' hid' heq => ?_⟩
    obtain ⟨x, hx, rfl⟩ := List.mem_map.1 hold
    have hle := h.seq_le (h.own x hx)
    rw [heq, List.mem_singleton.1 hid', hnew, h.seq] at hle
    omega

theorem leaves {v : Wheel α} {qs : List (Pending α)} {ids : List TimerId} (h : w.Marked ps hs)
    (hv : v.Sound qs) (hleaves : Leaves ps qs ids) (hseq : v.seq = w.seq) : v.Marked qs hs :=
  ⟨hv, hseq.trans h.seq, h.numbered, fun e he => h.own e (hleaves.1.subset he),
    h.distinct.sublist (hleaves.1.map _)⟩

/-- A call returns the next handle or takes timers out, and never brings a handle back. -/
theorem call (h : w.Marked ps hs) (c : Call α)
    (hfew : hs.length + (if c.isAdd then 1 else 0) ≤ 2 ^ 24 - 2) :
    ∃ qs, (w.call c).2.Marked qs (hs ++ Call.issued [c] [(w.call c).1]) ∧
      (∀ id ∈ w.withdrawn c, (unpack id).2 ≤ w.seq ∧ ∀ e ∈ qs, e.expired.id ≠ id) ∧
      ∀ id, (unpack id).2 ≤ w.seq → (∀ e ∈ ps, e.expired.id ≠ id) → ∀ e ∈ qs, e.expired.id ≠ id := by
  cases hc : c.isAdd with
  | true =>
    cases c with
    | add now delay payload =>
      obtain ⟨e, hm, hnew⟩ := h.add hfew now delay payload
      refine ⟨ps ++ [e], hm, by simp [withdrawn], fun id hle hno x hx => ?_⟩
      rcases List.mem_append.1 hx with hx | hx
      · exact hno x hx
      · rintro rfl
        rw [List.mem_singleton.1 hx, hnew, h.seq] at hle
        omega
    | delete | poll | finish | execute => cases hc
  | false =>
    obtain ⟨qs, hv, hleaves, hseq⟩ := h.sound.call_leaves hc
    have hnone : Call.issued [c] [(w.call c).1] = [] := by
      cases c with
      | add => cases hc
      | delete | poll | finish | execute => rfl
    rw [hnone, List.append_nil]
    refine ⟨qs, h.leaves hv hleaves hseq, fun id hid => ?_, fun id _ hno e he =>
      hno e (hleaves.1.subset he)⟩
    obtain ⟨⟨e, he, rfl⟩, hgone⟩ := hleaves.gone h.distinct id hid
    exact ⟨h.seq_le (h.own e he), hgone⟩

theorem serve (h : w.Marked ps hs) (cs : List (Call α))
    (hfew : hs.length + Call.adds cs ≤ 2 ^ 24 - 2) :
    ∃ qs, (w.serve cs).2.Marked qs (hs ++ Call.issued cs (w.serve cs).1) ∧
      ∀ id, (unpack id).2 ≤ w.seq → (∀ e ∈ ps, e.expired.id ≠ id) → ∀ e ∈ qs, e.expired.id ≠ id := by
  induction cs generalizing w ps hs with
  | nil => exact ⟨ps, by simpa [Wheel.serve, Call.issued] using h, fun _ _ hno => hno⟩
  | cons c cs ih =>
    have hadds : Call.adds (c :: cs) = Call.adds cs + if c.isAdd then 1 else 0 := List.countP_cons
    obtain ⟨qs, hq, -, hnever⟩ := h.call c (by omega)
    have hlen := w.length_issued_call c
    obtain ⟨rs, hr, hnever'⟩ := ih hq (by rw [List.length_append]; omega)
    refine ⟨rs, ?_, fun id hle hno => hnever' id ?_ (hnever id hle hno)⟩
    · rw [Wheel.serve, Call.issued_cons, ← List.append_assoc]
      exact hr
    · rw [hq.seq, List.length_append, ← h.seq]
      omega

theorem delete_withdrawn (h : w.Marked ps hs) {c : Call α} {cs : List (Call α)}
    (hfew : hs.length + Call.adds (c :: cs) ≤ 2 ^ 24 - 2) {id : TimerId} (hid : id ∈ w.withdrawn c) :
    ((w.serve (c :: cs)).2.delete id).2 = (w.serve (c :: cs)).2 := by
  have hadds : Call.adds (c :: cs) = Call.adds cs + if c.isAdd then 1 else 0 := List.countP_cons
  obtain ⟨qs, hq, hgone, -⟩ := h.call c (by omega)
  obtain ⟨hle, hno⟩ := hgone id hid
  have hlen := w.length_issued_call c
  have hmore : w.seq ≤ (w.call c).2.seq := by
    rw [hq.seq, List.length_append, ← h.seq]
    omega
  obtain ⟨rs, hr, hnever⟩ := hq.serve cs (by rw [List.length_append]; omega)
  exact hr.sound.delete_absent (hnever id (hle.trans hmore) hno)

theorem apart (h : w.Marked ps hs) : Apart w hs := by
  have hnumber : ∀ x ∈ hs, 0 < (unpack x.1).2 := by
    intro x hx
    obtain ⟨j, hj, hget⟩ := List.mem_iff_getElem.1 hx
    rw [h.numbered j x (by rw [List.getElem?_eq_getElem hj, hget])]
    exact Nat.succ_pos j
  refine ⟨fun x hx hzero => ?_, ?_, fun p e he => ?_, fun p q x hx y hy heq => ?_⟩
  · have hpos := hnumber x hx
    rw [hzero] at hpos
    exact absurd hpos (by decide)
  · rw [List.nodup_iff_getElem?_ne_getElem?]
    intro i j hij hj heq
    rw [List.length_map] at hj
    rw [List.getElem?_map, List.getElem?_map, List.getElem?_eq_getElem (hij.trans hj),
      List.getElem?_eq_getElem hj, Option.map_some, Option.map_some] at heq
    have hi' := h.numbered i _ (List.getElem?_eq_getElem (hij.trans hj))
    have hj' := h.numbered j _ (List.getElem?_eq_getElem hj)
    rw [Option.some.inj heq, hj'] at hi'
    omega
  · have hmem := h.sound.filed.mem_of_waiting he
    exact ⟨h.own e hmem, unpack_expired (h.sound.ticks e hmem) (h.sound.seqs e hmem).2⟩
  · exact List.inj_on_of_nodup_map h.distinct (h.sound.filed.mem_of_waiting hx)
      (h.sound.filed.mem_of_waiting hy) heq

end Marked

/-- After any calls, at whatever times, cancelling by any number is exact. As long as no sequence
number has come twice, the handle of a timer that has been fired or cancelled is no handle of
another one. -/
theorem delete_exact (now limit : UInt64) (cs : List (Call α)) :
    (∀ id, Exact (after now limit cs) id) ∧
      (∀ t delay payload, Joins (after now limit cs) payload
        ((after now limit cs).add t delay payload).1 ((after now limit cs).add t delay payload).2) ∧
      (Call.adds cs ≤ 2 ^ 24 - 2 →
        Apart (after now limit cs) (Call.issued cs ((withMaxDelay now limit).serve cs).1) ∧
        ∀ pre c post, cs = pre ++ c :: post → ∀ id ∈ (after now limit pre).withdrawn c,
          ((after now limit cs).delete id).2 = after now limit cs) := by
  have hstart := Marked.start (α := α) now limit
  obtain ⟨⟨ps, hs⟩, -⟩ := hstart.sound.serve cs
  refine ⟨fun id => hs.exact id, fun t delay payload => hs.joins t delay payload, fun hfew => ?_⟩
  obtain ⟨qs, hq, -⟩ := hstart.serve cs (by simpa using hfew)
  refine ⟨hq.apart, ?_⟩
  rintro pre c post rfl id hid
  have hsplit : Call.adds (pre ++ c :: post) = Call.adds pre + Call.adds (c :: post) :=
    List.countP_append
  obtain ⟨ps', hpre, -⟩ := hstart.serve pre (by simp only [List.length_nil]; omega)
  have hlen := length_issued pre (withMaxDelay now limit : Wheel α)
  rw [after, serve_append]
  exact hpre.delete_withdrawn (by rw [List.nil_append, hlen]; omega) hid

/-- The number of a cancelled timer is tried again when another one is pending. -/
theorem delete_exact_of_stale :
    ((after 250 1000 [.add 250 300 'a', .delete 9227468801, .add 250 300 'b']).delete
        9227468801).2 =
      after 250 1000 [.add 250 300 'a', .delete 9227468801, .add 250 300 'b'] :=
  ((delete_exact 250 1000 [.add 250 300 'a', .delete 9227468801, .add 250 300 'b']).2.2
    (by decide)).2 [.add 250 300 'a'] (.delete 9227468801) [.add 250 300 'b'] rfl 9227468801
    (by rw [withdrawn, if_pos ⟨rfl, nofun⟩]; exact List.mem_singleton_self _)

end Wheel

end ActorSystem.Timer
