import ActorSystem.Proofs.Ledgers
import Mathlib.Data.List.Nodup

set_option autoImplicit false

namespace ActorSystem

section

variable {calls : Array Call} {c : CallRef} {state : CallState} {call : Call}

theorem Call.settle_waiting (h : call.state.isWaiting = true) (state : CallState) :
    (call.settle state).state = state := by
  simp [Call.settle, h]

theorem Call.settle_settled (h : call.state.isWaiting = false) (state : CallState) :
    call.settle state = call := by
  simp [Call.settle, h]

@[simp] theorem size_settleAll (calls : Array Call) (xs : List (CallRef × CallState)) :
    (settleAll calls xs).size = calls.size := by
  induction xs generalizing calls with
  | nil => rfl
  | cons x xs ih =>
    change (settleAll (calls.modify x.1 (Call.settle x.2)) xs).size = _
    rw [ih, Array.size_modify]

theorem settleAll_append (calls : Array Call) (xs ys : List (CallRef × CallState)) :
    settleAll calls (xs ++ ys) = settleAll (settleAll calls xs) ys := List.foldl_append

theorem settleAll_other (calls : Array Call) {xs : List (CallRef × CallState)}
    (h : c ∉ xs.map Prod.fst) : (settleAll calls xs)[c]? = calls[c]? := by
  induction xs generalizing calls with
  | nil => rfl
  | cons x xs ih =>
    simp only [List.map_cons, List.mem_cons, not_or] at h
    change (settleAll (calls.modify x.1 (Call.settle x.2)) xs)[c]? = _
    rw [ih _ h.2, Array.getElem?_modify, if_neg (Ne.symm h.1)]

theorem settleAll_settled {xs : List (CallRef × CallState)} (hcall : calls[c]? = some call)
    (h : call.state.isWaiting = false) : (settleAll calls xs)[c]? = some call := by
  induction xs generalizing calls with
  | nil => exact hcall
  | cons x xs ih =>
    refine ih ?_
    rw [Array.getElem?_modify]
    split
    · simp [hcall, Call.settle_settled h]
    · exact hcall

theorem settleAll_exists (hcall : calls[c]? = some call) (xs : List (CallRef × CallState)) :
    ∃ after, (settleAll calls xs)[c]? = some after := by
  obtain ⟨hlt, -⟩ := Array.getElem?_eq_some_iff.1 hcall
  exact ⟨_, Array.getElem?_eq_getElem (by simpa using hlt)⟩

/-- A call stays as it is, or it waited and gets a state that is given. -/
theorem settleAll_elim {xs : List (CallRef × CallState)}
    (h : (settleAll calls xs)[c]? = some call) :
    ∃ before, calls[c]? = some before ∧
      (call = before ∨ before.state.isWaiting = true ∧ (c, call.state) ∈ xs) := by
  induction xs generalizing calls with
  | nil => exact ⟨call, h, .inl rfl⟩
  | cons x xs ih =>
    obtain ⟨between, hbetween, hcase⟩ := ih h
    rw [Array.getElem?_modify] at hbetween
    split at hbetween
    · rename_i hx
      obtain ⟨before, hbefore, rfl⟩ := Option.map_eq_some_iff.1 hbetween
      refine ⟨before, hbefore, ?_⟩
      cases hw : before.state.isWaiting with
      | false =>
        rw [Call.settle_settled hw] at hcase
        rcases hcase with rfl | ⟨hwaiting, -⟩
        · exact .inl rfl
        · simp [hw] at hwaiting
      | true =>
        rcases hcase with rfl | ⟨-, hmem⟩
        · exact .inr ⟨rfl, by simp [Call.settle_waiting hw, ← hx]⟩
        · exact .inr ⟨rfl, List.mem_cons_of_mem _ hmem⟩
    · refine ⟨between, hbetween, ?_⟩
      rcases hcase with rfl | ⟨hw, hmem⟩
      · exact .inl rfl
      · exact .inr ⟨hw, List.mem_cons_of_mem _ hmem⟩

/-- A call that still waits was not among those that were served. -/
theorem settleAll_waiting {xs : List (CallRef × CallState)} (hserved : ∀ x ∈ xs, x.2.isServed = true)
    (h : (settleAll calls xs)[c]? = some call) (hw : call.state.isWaiting = true) :
    c ∉ xs.map Prod.fst ∧ calls[c]? = some call := by
  induction xs generalizing calls with
  | nil => exact ⟨by simp, h⟩
  | cons x xs ih =>
    obtain ⟨hnot, hbetween⟩ := ih (fun y hy => hserved y (List.mem_cons_of_mem _ hy)) h
    rw [Array.getElem?_modify] at hbetween
    split at hbetween
    · rename_i hx
      obtain ⟨before, hbefore, rfl⟩ := Option.map_eq_some_iff.1 hbetween
      have hx2 := hserved x (by simp)
      cases hb : before.state.isWaiting with
      | false => simp [Call.settle_settled hb, hb] at hw
      | true =>
        rw [Call.settle_waiting hb] at hw
        cases hst : x.2 <;> simp [hst, CallState.isWaiting, CallState.isServed] at hw hx2
    · rename_i hx
      exact ⟨by simpa [Ne.symm hx] using hnot, hbetween⟩

end

def Happening.sent? {κ : Type} : Happening κ → Option (CallRef × List Value)
  | replied c vs => some (c, vs)
  | _ => none

def Happening.called? {κ : Type} : Happening κ → Option CallRef
  | accepted e => e.call?
  | _ => none

def answered? : CallRef × CallState → Option (CallRef × List Value)
  | (c, .answered vs) => some (c, vs)
  | _ => none

theorem mem_answered {xs : List (CallRef × CallState)} {c : CallRef} {vs : List Value} :
    (c, vs) ∈ xs.filterMap answered? ↔ (c, .answered vs) ∈ xs := by
  simp only [List.mem_filterMap]
  constructor
  · rintro ⟨⟨d, state⟩, hmem, hx⟩
    cases state <;> simp [answered?] at hx
    exact hx.1 ▸ hx.2 ▸ hmem
  · exact fun hmem => ⟨_, hmem, rfl⟩

theorem map_fst_answered (xs : List (CallRef × CallState)) :
    ((xs.filterMap answered?).map Prod.fst).Sublist (xs.map Prod.fst) := by
  induction xs with
  | nil => exact .slnil
  | cons x xs ih =>
    obtain ⟨c, state⟩ := x
    cases state with
    | answered vs => exact ih.cons_cons c
    | _ => exact ih.cons c

@[simp] theorem answered_drops (cs : List CallRef) : (drops cs).filterMap answered? = [] := by
  simp [drops, List.filterMap_map, Function.comp_def, answered?]

namespace History

variable {κ : Type}

def called (h : History κ) : List CallRef := h.filterMap fun x => x.2.called?

def sent (h : History κ) : List (CallRef × List Value) := h.filterMap fun x => x.2.sent?

theorem called_append (h h' : History κ) : called (h ++ h') = h.called ++ h'.called :=
  List.filterMap_append

theorem sent_append (h h' : History κ) : sent (h ++ h') = h.sent ++ h'.sent := List.filterMap_append

theorem called_map (hs : List (Happening κ)) (r : ActorRef) :
    called (hs.map fun x => (r, x)) = hs.filterMap Happening.called? := by
  simp [called, List.filterMap_map]

theorem sent_map (hs : List (Happening κ)) (r : ActorRef) :
    sent (hs.map fun x => (r, x)) = hs.filterMap Happening.sent? := by
  simp [sent, List.filterMap_map]

theorem mem_sent {h : History κ} {c : CallRef} {vs : List Value} :
    (c, vs) ∈ h.sent ↔ ∃ r, (r, .replied c vs) ∈ h := by
  simp only [sent, List.mem_filterMap]
  constructor
  · rintro ⟨⟨r, x⟩, hmem, hx⟩
    cases x <;> simp [Happening.sent?] at hx
    exact ⟨r, hx.1 ▸ hx.2 ▸ hmem⟩
  · rintro ⟨r, hmem⟩
    exact ⟨_, hmem, rfl⟩

end History

section

variable {κ : Type} {config : Config} {mode mode' : Mode κ} {l l' : Ledger κ}
  {hs : List (Happening κ)} {xs : List (CallRef × CallState)} {ins outs : List CallRef} {c : CallRef}

@[simp] theorem map_fst_drops (cs : List CallRef) : (drops cs).map Prod.fst = cs := by
  simp [drops, Function.comp_def]

theorem served_drops (cs : List CallRef) : ∀ x ∈ drops cs, x.2.isServed = true := by
  simp [drops, CallState.isServed]

@[simp] theorem callsOf_nil : callsOf ([] : List (Event κ)) = [] := rfl

@[simp] theorem callsOf_cons (e : Event κ) (es : List (Event κ)) :
    callsOf (e :: es) = e.calls ++ callsOf es := List.flatMap_cons

@[simp] theorem callsOf_append (es es' : List (Event κ)) :
    callsOf (es ++ es') = callsOf es ++ callsOf es' := List.flatMap_append

theorem Event.calls_eq (e : Event κ) : e.calls = e.call?.toList ++ e.parcel.values := by
  cases e <;> rfl

theorem pursesOf_perm (ps : List (Timer.TimerId × Replies)) (id : Timer.TimerId) :
    (pursesOf ps).Perm
      ((((ps.find? fun p => p.1 == id).map Prod.snd).getD .empty).values ++
        pursesOf (ps.eraseP fun p => p.1 == id)) := by
  induction ps with
  | nil => exact .refl _
  | cons p ps ih =>
    by_cases hp : p.1 = id
    · simp [pursesOf, hp]
    · have hne : (p.1 == id) = false := by simpa using hp
      rw [List.find?_cons_of_neg (by simp [hne]), List.eraseP_cons_of_neg (by simp [hne])]
      refine List.perm_iff_count.2 fun c => ?_
      have hc := ih.count_eq c
      simp only [pursesOf, List.flatMap_cons, List.count_append] at hc ⊢
      omega

namespace Ledger

theorem stored_accept (l : Ledger κ) (e : Event κ) :
    (l.accept e).senders.Perm (e.calls ++ l.senders) := by
  refine List.perm_iff_count.2 fun c => ?_
  simp [senders, stored, accept, List.count_append]
  omega

theorem senders_board (l : Ledger κ) (e : Event κ) :
    (l.board (.put e)).senders.Perm (e.calls ++ l.senders) := by
  refine List.perm_iff_count.2 fun c => ?_
  simp [senders, stored, board, Leg.calls, List.count_append]
  omega

theorem senders_afterPanic (config : Config) (l : Ledger κ) :
    l.senders.Perm
      (l.hand.values ++ l.reply.toList ++ callsOf (l.dropped config) ++
        (l.afterPanic config).senders) := by
  have hinbox : (l.afterPanic config).inbox = l.inbox := rfl
  have hreply : (l.afterPanic config).reply = none := rfl
  have hhand : (l.afterPanic config).hand = .empty := rfl
  have hkept : (l.afterPanic config).kept = l.kept := rfl
  have hpurses : (l.afterPanic config).purses = l.purses := rfl
  have hlegs : (l.afterPanic config).legs = l.legs := rfl
  refine List.perm_iff_count.2 fun c => ?_
  rcases dropped_or config l with ⟨hd, hb⟩ | ⟨hd, hb⟩ <;>
    simp [senders, stored, List.count_append, hd, hb, hinbox, hreply, hhand, hkept, hpurses,
      hlegs] <;> omega

theorem perm_purse (l : Ledger κ) (id : Timer.TimerId) :
    (pursesOf l.purses).Perm
      ((l.purse id).values ++ pursesOf (l.purses.eraseP fun p => p.1 == id)) :=
  pursesOf_perm l.purses id

end Ledger

/-- Replies come in and go out as is said, and besides one goes only with its call being settled. -/
theorem Effect.senders (he : Effect mode l ins hs xs outs l') :
    (l.senders ++ ins).Perm (xs.map Prod.fst ++ outs ++ l'.senders) := by
  refine List.perm_iff_count.2 fun d => ?_
  have hkept := fun slot => (Table.values_perm_erase l.kept slot).count_eq d
  have hhand := fun slot => (Table.values_perm_erase l.hand slot).count_eq d
  have howned := fun owned => (Table.values_only l.hand owned).count_eq d
  cases he with
  | accept e hcall hopen =>
    have haccept := (l.stored_accept e).count_eq d
    simp only [List.count_append, List.map_nil, List.count_nil] at haccept ⊢
    omega
  | board e hcall hopen =>
    have hboard := (l.senders_board e).count_eq d
    simp only [List.count_append, List.map_nil, List.count_nil] at hboard ⊢
    omega
  | start | close => simp [Ledger.senders, Ledger.stored]
  | claim | warn => simp [Ledger.senders, Ledger.stored, Ledger.board, Leg.calls]
  | cancel gone rest hd hswept =>
    simp [Ledger.senders, Ledger.stored, hswept.inbox, List.count_append]
  | answer c vs hr =>
    simp [Ledger.senders, Ledger.stored, List.count_append, List.count_cons, hr]
    omega
  | keep c slot hr =>
    have hk := hkept slot
    simp [Ledger.senders, Ledger.stored, List.count_append, List.count_cons, hr,
      Table.values_replace] at hk ⊢
    omega
  | answerKept c slot vs h =>
    have hk := hkept slot
    simp [Ledger.senders, Ledger.stored, List.count_append, List.count_cons, h] at hk ⊢
    omega
  | dropKept slot =>
    have hk := hkept slot
    simp [Ledger.senders, Ledger.stored, List.count_append] at hk ⊢
    omega
  | unshelve c slot hmode h =>
    have hk := hkept slot
    have hh := hhand slot
    simp [Ledger.senders, Ledger.stored, List.count_append, List.count_cons, h,
      Table.values_replace] at hk hh ⊢
    omega
  | shelve c slot hmode h =>
    have hk := hkept slot
    have hh := hhand slot
    simp [Ledger.senders, Ledger.stored, List.count_append, List.count_cons, h,
      Table.values_replace] at hk hh ⊢
    omega
  | release c slot h =>
    have hh := hhand slot
    simp [Ledger.senders, Ledger.stored, List.count_append, List.count_cons, h] at hh ⊢
    omega
  | entrust owned =>
    have ho := howned owned
    simp [Ledger.senders, Ledger.stored, List.count_append] at ho ⊢
    omega
  | stow id owned hmode =>
    have ho := howned owned
    simp [Ledger.senders, Ledger.stored, List.count_append, pursesOf] at ho ⊢
    omega
  | tear id =>
    have hp := (l.perm_purse id).count_eq d
    simp [Ledger.senders, Ledger.stored, List.count_append] at hp ⊢
    omega

/-- Events that have been called for get on board only with their calls. -/
theorem Effect.boarding (he : Effect mode l ins hs xs outs l') :
    l.boarding = hs.filterMap Happening.called? ++ l'.boarding := by
  cases he with
  | accept e hcall hopen => simp [Happening.called?, hcall, Ledger.boarding, Ledger.accept]
  | board e hcall hopen => simp [hcall, Ledger.boarding, Ledger.board, Leg.boarding]
  | claim | warn => simp [Ledger.boarding, Ledger.board, Leg.boarding]
  | _ => simp [Happening.called?, Ledger.boarding]

theorem Effect.sent (he : Effect mode l ins hs xs outs l') :
    hs.filterMap Happening.sent? = xs.filterMap answered? := by
  cases he <;> simp [Happening.sent?, answered?]

theorem Effect.served (he : Effect mode l ins hs xs outs l') : ∀ x ∈ xs, x.2.isServed = true := by
  cases he with
  | cancel | keep | dropKept | unshelve | shelve | tear => exact served_drops _
  | answer | answerKept => simp [CallState.isServed]
  | _ => simp

theorem Flies.senders {leg : Leg κ} {next : Option (Leg κ)} (hf : Flies l leg next hs xs l') :
    (leg.calls ++ l.stored).Perm
      (xs.map Prod.fst ++ (next.toList.flatMap Leg.calls ++ l'.stored)) := by
  refine List.perm_iff_count.2 fun d => ?_
  cases hf with
  | put e =>
    simp [Leg.calls, Ledger.stored, List.count_append]
    omega
  | recheck => cases l.closed <;> simp [Leg.calls]
  | signal unstarted => cases unstarted <;> simp [Leg.calls, Ledger.stored]
  | outrun own | void own => cases own <;> simp [Leg.calls, Leg.rest]
  | lift own es rest hinbox hes =>
    simp [Leg.calls, Ledger.stored, hinbox, List.count_append]
  | leave =>
    simp [Leg.calls, Ledger.stored, List.count_append, pursesOf]
    omega
  | _ => simp [Leg.calls, Ledger.stored]

theorem Flies.boarding {leg : Leg κ} {next : Option (Leg κ)} (hf : Flies l leg next hs xs l') :
    leg.boarding = hs.filterMap Happening.called? ++ next.toList.flatMap Leg.boarding := by
  cases hf with
  | put e => cases h : e.call? <;> simp [Leg.boarding, Happening.called?, h]
  | recheck => cases l.closed <;> simp [Leg.boarding]
  | signal unstarted => cases unstarted <;> simp [Leg.boarding]
  | outrun own | void own => cases own <;> simp [Leg.boarding, Leg.rest]
  | _ => simp [Leg.boarding, Happening.called?]

theorem Flies.legs {leg : Leg κ} {next : Option (Leg κ)} (hf : Flies l leg next hs xs l') :
    l'.legs = l.legs := by
  cases hf <;> rfl

/-- No reply comes, and one goes only with its call being settled. -/
theorem Change.senders (hc : Change config mode l hs xs mode' l') (hf : l.Fit config mode) :
    l.senders.Perm (xs.map Prod.fst ++ l'.senders) := by
  refine List.perm_iff_count.2 fun d => ?_
  cases hc with
  | take items inbox halive hfree hbatch hinbox hsize hnone =>
    simp [Ledger.senders, Ledger.stored, List.count_append, hbatch, hinbox]
    omega
  | begin e batch reply gone hfree hbatch hcall =>
    have hd := hcall.count_eq d
    simp [Ledger.senders, Ledger.stored, List.count_append, hbatch, hf.reply_ready, hf.hand rfl,
      e.calls_eq] at hd ⊢
    omega
  | complete e =>
    simp [Ledger.senders, Ledger.stored, List.count_append]
    omega
  | panic e => exact (by simpa using Ledger.senders_afterPanic config l : List.Perm _ _).count_eq d
  | fire id halive hfree hbatch =>
    have hp := (l.perm_purse id).count_eq d
    simp [Ledger.senders, Ledger.stored, List.count_append, hf.hand rfl] at hp ⊢
    omega
  | fired =>
    simp [Ledger.senders, Ledger.stored, List.count_append]
    omega
  | timerPanic => exact (by simpa using Ledger.senders_afterPanic config l : List.Perm _ _).count_eq d
  | dismantle gone rest halive hfree hbatch hclosing hnone hswept =>
    simp [Ledger.senders, Ledger.stored, hswept.inbox, List.count_append, pursesOf]
    omega
  | retire halive hfree hbatch hclosing hnone =>
    simp [Ledger.senders, Ledger.stored, Ledger.board, Leg.calls]
  | fly before leg after next hlegs h =>
    have hd := h.senders.count_eq d
    simp [Ledger.senders, hlegs, List.count_append] at hd ⊢
    simp only [Ledger.stored, List.count_append] at hd ⊢
    omega

theorem Change.boarding (hc : Change config mode l hs xs mode' l') :
    l.boarding.Perm (hs.filterMap Happening.called? ++ l'.boarding) := by
  cases hc with
  | retire halive hfree hbatch hclosing hnone =>
    simp [Ledger.boarding, Ledger.board, Leg.boarding, Happening.called?, List.filterMap_cons]
  | fly before leg after next hlegs h =>
    have hboarding := h.boarding
    refine List.perm_iff_count.2 fun d => ?_
    simp [Ledger.boarding, hlegs, hboarding, List.count_append]
    omega
  | _ => simp [Ledger.boarding, Happening.called?, List.filterMap_cons, Ledger.afterPanic]

theorem Change.sent (hc : Change config mode l hs xs mode' l') :
    hs.filterMap Happening.sent? = xs.filterMap answered? := by
  cases hc with
  | fly before leg after next hlegs h => cases h <;> simp [Happening.sent?]
  | _ => simp [Happening.sent?]

/-- The calls whose replies have gone are dropped, or they have been answered before. -/
theorem Change.served (hc : Change config mode l hs xs mode' l') : ∀ x ∈ xs, x.2.isServed = true := by
  cases hc with
  | take | fire | retire => simp
  | fly before leg after next hlegs h =>
    cases h with
    | shed | leave => exact served_drops _
    | _ => simp
  | _ => exact served_drops _

end

namespace Books

variable {κ : Type} {b b' b'' : Books κ} {forgets : Option (CallRef × CallState)} {h h' : History κ}
  {c : CallRef} {r : ActorRef} {l l' : Ledger κ} {xs ys : List (CallRef × CallState)}

/-- What is gathered from all actors is what one of them has, and the rest. -/
theorem gather_split (g : Ledger κ → List CallRef) (hr : r < b.size) (hl : b.ledger r = some l) :
    ∃ rest, (b.gather g).Perm (g l ++ rest) ∧ ∀ (b' : Books κ) (l' : Ledger κ), b'.size = b.size →
      b'.ledger = Function.update b.ledger r (some l') → (b'.gather g).Perm (g l' ++ rest) := by
  let others := (List.range b.size).erase r
  have hrange : (List.range b.size).Perm (r :: others) :=
    List.perm_cons_erase (List.mem_range.2 hr)
  have hnot : r ∉ others := List.nodup_range.not_mem_erase
  refine ⟨others.flatMap fun r => ((b.ledger r).map g).getD [], ?_, fun b' l' hsize hledger => ?_⟩
  · have hperm := hrange.flatMap_right fun r => ((b.ledger r).map g).getD []
    simpa [gather, hl] using hperm
  · have hperm := hrange.flatMap_right fun r => ((b'.ledger r).map g).getD []
    have hothers : (others.flatMap fun r => ((b'.ledger r).map g).getD []) =
        others.flatMap fun r => ((b.ledger r).map g).getD [] := by
      refine List.flatMap_congr fun r' hr' => ?_
      rw [hledger, Function.update_of_ne (ne_of_mem_of_not_mem hr' hnot)]
    rw [List.flatMap_cons, hothers] at hperm
    simpa [gather, hledger, hsize] using hperm

structure Settles (b b' : Books κ) (h : History κ) (xs : List (CallRef × CallState)) : Prop where
  replies : b.replies.Perm (xs.map Prod.fst ++ b'.replies)
  boarding : b.boarding.Perm (h.called ++ b'.boarding)
  calls : b'.calls = settleAll b.calls xs
  served : ∀ x ∈ xs, x.2.isServed = true
  sent : h.sent = xs.filterMap answered?

theorem Settles.trans (hs : b.Settles b' h xs) (hs' : b'.Settles b'' h' ys) :
    b.Settles b'' (h ++ h') (xs ++ ys) where
  replies := by
    rw [List.map_append, List.append_assoc]
    exact hs.replies.trans (hs'.replies.append_left _)
  boarding := by
    rw [History.called_append, List.append_assoc]
    exact hs.boarding.trans (hs'.boarding.append_left _)
  calls := by rw [hs'.calls, hs.calls, settleAll_append]
  served := by
    intro x hx
    exact (List.mem_append.1 hx).elim (hs.served x) (hs'.served x)
  sent := by rw [History.sent_append, hs.sent, hs'.sent, List.filterMap_append]

theorem gather_call (g : Ledger κ → List CallRef) (hb : b.Fit) (hl : b.ledger r = some l)
    (name : String) (cs : List CallRef) (hg : (g l').Perm (cs ++ g l)) :
    ((b.call r l' name).gather g).Perm (cs ++ b.gather g) := by
  obtain ⟨rest, hrest, hrest'⟩ := gather_split g (hb.lt hl) hl
  refine (hrest' (b.call r l' name) l' rfl rfl).trans ?_
  exact ((hg.append_right rest).trans (.of_eq (List.append_assoc ..))).trans
    (hrest.symm.append_left cs)

theorem replies_call (hb : b.Fit) (hl : b.ledger r = some l) (name : String)
    (hsenders : l'.senders.Perm (c :: l.senders)) :
    (b.call r l' name).replies.Perm (c :: b.replies) := by
  have hgather := gather_call Ledger.senders hb hl name [c] hsenders
  exact (hgather.append_left (b.abroad.map Prod.snd)).trans List.perm_middle

theorem act_settles (hb : b.Fit) {ins outs : List CallRef} {hs : List (Happening κ)}
    {taken abroad : List (ActorRef × CallRef)} (hl : b.ledger r = some l)
    (he : Effect (b.mode r) l ins hs xs outs l')
    (habroad : (b.abroad ++ outs.map fun c => (r, c)).Perm (taken ++ abroad))
    (hins : taken.map Prod.snd = ins) :
    b.Settles (b.act r l' abroad xs) (hs.map fun x => (r, x)) xs where
  replies := by
    obtain ⟨rest, hrest, hrest'⟩ := gather_split Ledger.senders (hb.lt hl) hl
    have hnew := hrest' (b.act r l' abroad xs) l' rfl rfl
    have houter := habroad.map Prod.snd
    refine List.perm_iff_count.2 fun d => ?_
    have h₁ := hrest.count_eq d
    have h₂ := hnew.count_eq d
    have h₃ := houter.count_eq d
    have h₄ := he.senders.count_eq d
    simp only [List.map_append, List.map_map, Function.comp_def, List.map_id', hins,
      List.count_append] at h₁ h₂ h₃ h₄
    simp only [replies, List.count_append]
    have h₅ : (b.act r l' abroad xs).abroad = abroad := rfl
    rw [h₅]
    omega
  boarding := by
    obtain ⟨rest, hrest, hrest'⟩ := gather_split Ledger.boarding (hb.lt hl) hl
    have hnew := hrest' (b.act r l' abroad xs) l' rfl rfl
    rw [he.boarding, List.append_assoc] at hrest
    rw [History.called_map]
    exact hrest.trans (hnew.symm.append_left _)
  calls := rfl
  served := he.served
  sent := by rw [History.sent_map, he.sent]

theorem change_settles (hb : b.Fit) {mode : Mode κ} {hs : List (Happening κ)}
    (hl : b.ledger r = some l) (hc : Change b.config (b.mode r) l hs xs mode l') :
    b.Settles (b.change r mode l' xs) (hs.map fun x => (r, x)) xs where
  replies := by
    obtain ⟨rest, hrest, hrest'⟩ := gather_split Ledger.senders (hb.lt hl) hl
    have hnew := hrest' (b.change r mode l' xs) l' rfl rfl
    refine List.perm_iff_count.2 fun d => ?_
    have h₁ := hrest.count_eq d
    have h₂ := hnew.count_eq d
    have h₃ := (hc.senders (hb.ledger r l hl)).count_eq d
    simp only [List.count_append] at h₁ h₂ h₃
    simp only [replies, List.count_append]
    have h₄ : (b.change r mode l' xs).abroad = b.abroad := rfl
    rw [h₄]
    omega
  boarding := by
    obtain ⟨rest, hrest, hrest'⟩ := gather_split Ledger.boarding (hb.lt hl) hl
    have hnew := hrest' (b.change r mode l' xs) l' rfl rfl
    have hboarding := (hc.boarding.append_right rest).trans (.of_eq (List.append_assoc ..))
    rw [History.called_map]
    exact (hrest.trans hboarding).trans (hnew.symm.append_left _)
  calls := rfl
  served := hc.served
  sent := by rw [History.sent_map, hc.sent]

theorem Deal.settles (hd : b.Deal h b') (hb : b.Fit) : ∃ xs, b.Settles b' h xs := by
  induction hd with
  | shuffle abroad habroad =>
    exact ⟨[], (habroad.map Prod.snd).append_right _, .refl _, rfl, by simp, rfl⟩
  | act r taken abroad hl he habroad hins => exact ⟨_, act_settles hb hl he habroad hins⟩
  | waste x abroad habroad =>
    exact ⟨[(x.2, .dropped)], (habroad.map Prod.snd).append_right _, .refl _, rfl,
      by simp [CallState.isServed], rfl⟩
  | reply x vs abroad habroad =>
    exact ⟨[(x.2, .answered vs)], (habroad.map Prod.snd).append_right _, .refl _, rfl,
      by simp [CallState.isServed], rfl⟩
  | both hd hd' ih ih' =>
    obtain ⟨xs, hxs⟩ := ih hb
    obtain ⟨ys, hys⟩ := ih' (hd.fit hb)
    exact ⟨xs ++ ys, hxs.trans hys⟩

/-- Every reply is in at most one place, that of a waiting call in one; a reply that is still
somewhere has not been used. -/
structure Linear (b : Books κ) (h : History κ) : Prop where
  nodup : b.replies.Nodup
  unserved : ∀ c ∈ b.replies, ∃ call, b.calls[c]? = some call ∧ call.state.isServed = false
  whole : ∀ c call, b.calls[c]? = some call → call.state.isWaiting = true → c ∈ b.replies
  numbered : (h.called ++ b.boarding).Perm (List.range b.calls.size)
  once : (h.sent.map Prod.fst).Nodup
  sent : ∀ x ∈ h.sent, x.1 ∉ b.replies ∧
    ∃ call, b.calls[x.1]? = some call ∧ call.state.isWaiting = false ∧ call.state ≠ .dropped
  answered : ∀ c call vs, b.calls[c]? = some call → call.state = .answered vs → (c, vs) ∈ h.sent

namespace Linear

theorem start (config : Config) (clock : Clock) :
    (Machine.resting (System.new config clock) : Machine κ).books.Linear [] := by
  constructor <;>
    simp [Machine.books, Machine.booksWith, Machine.resting, System.new, System.books, replies,
      boarding, gather, History.called, History.sent]

theorem lt (hL : b.Linear h) (hc : c ∈ b.replies) : c < b.calls.size := by
  obtain ⟨call, hcall, -⟩ := hL.unserved c hc
  exact (Array.getElem?_eq_some_iff.1 hcall).1

/-- The call of a reply that has been used is answered, unless its caller had gone before. -/
theorem settled_of_sent (hL : b.Linear h) (hs : b.Settles b' h' xs) {vs : List Value}
    (hmem : (c, CallState.answered vs) ∈ xs) :
    ∃ call, b'.calls[c]? = some call ∧ call.state.isWaiting = false ∧ call.state ≠ .dropped := by
  obtain ⟨hkeys, -, -⟩ := List.nodup_append.1 (hs.replies.nodup_iff.1 hL.nodup)
  have hkey : c ∈ xs.map Prod.fst := List.mem_map.2 ⟨_, hmem, rfl⟩
  obtain ⟨before, hbefore, hunserved⟩ :=
    hL.unserved c (hs.replies.mem_iff.2 (List.mem_append_left _ hkey))
  rw [hs.calls]
  obtain ⟨call, hcall⟩ := settleAll_exists hbefore xs
  refine ⟨call, hcall, ?_, fun hdropped => ?_⟩
  · rw [Bool.eq_false_iff]
    exact fun hw => (settleAll_waiting hs.served hcall hw).1 hkey
  · obtain ⟨before', hbefore', hcase⟩ := settleAll_elim hcall
    obtain rfl : before = before' := Option.some.inj (hbefore.symm.trans hbefore')
    rcases hcase with rfl | ⟨-, hlast⟩
    · simp [hdropped, CallState.isServed] at hunserved
    · have hsame := List.inj_on_of_nodup_map hkeys hlast hmem rfl
      simp [hdropped] at hsame

theorem settle (hL : b.Linear h) (hs : b.Settles b' h' xs) : b'.Linear (h ++ h') := by
  obtain ⟨hkeys, hafter, hapart⟩ := List.nodup_append.1 (hs.replies.nodup_iff.1 hL.nodup)
  -- A reply that is still somewhere was somewhere before, and its call has not been settled.
  have hthere : ∀ c, c ∈ b'.replies ↔ c ∈ b.replies ∧ c ∉ xs.map Prod.fst := by
    intro c
    rw [hs.replies.mem_iff, List.mem_append]
    exact ⟨fun hc => ⟨.inr hc, fun hx => hapart c hx c hc rfl⟩,
      fun hc => hc.1.resolve_left hc.2⟩
  constructor
  case nodup => exact hafter
  case unserved =>
    intro c hc
    obtain ⟨hold, hnot⟩ := (hthere c).1 hc
    obtain ⟨call, hcall, hopen⟩ := hL.unserved c hold
    exact ⟨call, by rw [hs.calls, settleAll_other _ hnot, hcall], hopen⟩
  case whole =>
    intro c call hcall hw
    rw [hs.calls] at hcall
    obtain ⟨hnot, hbefore⟩ := settleAll_waiting hs.served hcall hw
    exact (hthere c).2 ⟨hL.whole c call hbefore hw, hnot⟩
  case numbered =>
    rw [hs.calls, size_settleAll, History.called_append, List.append_assoc]
    exact (hs.boarding.symm.append_left _).trans hL.numbered
  case once =>
    rw [History.sent_append, List.map_append, hs.sent]
    refine List.nodup_append.2 ⟨hL.once, hkeys.sublist (map_fst_answered xs), ?_⟩
    rintro c hold _ hnew rfl
    obtain ⟨x, hx, rfl⟩ := List.mem_map.1 hold
    refine (hL.sent x hx).1 (hs.replies.mem_iff.2 (List.mem_append_left _ ?_))
    exact (map_fst_answered xs).subset hnew
  case sent =>
    rw [History.sent_append, hs.sent]
    intro x hx
    rcases List.mem_append.1 hx with hold | hnew
    · obtain ⟨hnot, call, hcall, hw, hne⟩ := hL.sent x hold
      refine ⟨fun hc => hnot ((hthere _).1 hc).1, call, ?_, hw, hne⟩
      rw [hs.calls, settleAll_settled hcall hw]
    · have hanswered := mem_answered.1 hnew
      exact ⟨fun hc => ((hthere _).1 hc).2 (List.mem_map.2 ⟨_, hanswered, rfl⟩),
        hL.settled_of_sent hs hanswered⟩
  case answered =>
    intro c call vs hcall hstate
    rw [hs.calls] at hcall
    rw [History.sent_append, hs.sent]
    obtain ⟨before, hbefore, hcase⟩ := settleAll_elim hcall
    rcases hcase with rfl | ⟨-, hmem⟩
    · exact List.mem_append_left _ (hL.answered c _ vs hbefore hstate)
    · exact List.mem_append_right _ (mem_answered.2 (hstate ▸ hmem))

/-- Nothing has happened to the replies; a caller may have gone. -/
theorem forget (hL : b.Linear h) (c : CallRef) {state : CallState} (hopen : state.isServed = false) :
    Linear { b with calls := settleAll b.calls [(c, state)] } h where
  nodup := hL.nodup
  unserved d hd := by
    obtain ⟨before, hbefore, hs⟩ := hL.unserved d hd
    obtain ⟨call, hcall⟩ := settleAll_exists hbefore [(c, state)]
    refine ⟨call, hcall, ?_⟩
    obtain ⟨before', hbefore', hcase⟩ := settleAll_elim hcall
    obtain rfl : before = before' := Option.some.inj (hbefore.symm.trans hbefore')
    rcases hcase with rfl | ⟨-, hmem⟩
    · exact hs
    · simp only [List.mem_singleton, Prod.mk.injEq] at hmem
      exact hmem.2 ▸ hopen
  whole d call hcall hw := by
    obtain ⟨before, hbefore, hcase⟩ := settleAll_elim hcall
    rcases hcase with rfl | ⟨hw', -⟩
    · exact hL.whole d _ hbefore hw
    · exact hL.whole d _ hbefore hw'
  numbered := by simpa [boarding, gather] using hL.numbered
  once := hL.once
  sent x hx := by
    obtain ⟨hnot, call, hcall, hw, hne⟩ := hL.sent x hx
    exact ⟨hnot, call, settleAll_settled hcall hw, hw, hne⟩
  answered d call vs hcall hstate := by
    obtain ⟨before, hbefore, hcase⟩ := settleAll_elim hcall
    rcases hcase with rfl | ⟨-, hmem⟩
    · exact hL.answered d _ vs hbefore hstate
    · simp only [List.mem_singleton, Prod.mk.injEq] at hmem
      rw [← hmem.2, hstate] at hopen
      simp [CallState.isServed] at hopen

theorem opened (hL : b.Linear h) {name : String}
    (hreplies : b'.replies.Perm (b.calls.size :: b.replies))
    (hboarding : (h'.called ++ b'.boarding).Perm (b.calls.size :: b.boarding))
    (hcalls : b'.calls = b.calls.push ⟨name, .waiting⟩) (hsent : h'.sent = []) :
    b'.Linear (h ++ h') := by
  have hpush : ∀ {c : CallRef} {call : Call}, b.calls[c]? = some call →
      b'.calls[c]? = some call := by
    intro c call hcall
    rw [hcalls, Array.getElem?_push, if_neg (Nat.ne_of_lt (Array.getElem?_eq_some_iff.1 hcall).1)]
    exact hcall
  constructor
  case nodup =>
    refine hreplies.nodup_iff.2 (List.nodup_cons.2 ⟨fun hc => ?_, hL.nodup⟩)
    exact Nat.lt_irrefl _ (hL.lt hc)
  case unserved =>
    intro c hc
    rcases List.mem_cons.1 (hreplies.mem_iff.1 hc) with rfl | hold
    · exact ⟨⟨name, .waiting⟩, by simp [hcalls], rfl⟩
    · obtain ⟨call, hcall, hopen⟩ := hL.unserved c hold
      exact ⟨call, hpush hcall, hopen⟩
  case whole =>
    intro c call hcall hw
    refine hreplies.mem_iff.2 (List.mem_cons.2 ?_)
    by_cases hc : c = b.calls.size
    · exact .inl hc
    · rw [hcalls] at hcall
      exact .inr (hL.whole c call (by simpa [Array.getElem?_push, hc] using hcall) hw)
  case numbered =>
    rw [History.called_append, List.append_assoc, hcalls, Array.size_push, List.range_succ]
    have hmiddle := (hboarding.append_left h.called).trans List.perm_middle
    exact (hmiddle.trans (hL.numbered.cons _)).trans (List.perm_append_singleton _ _).symm
  case once => simpa [History.sent_append, hsent] using hL.once
  case sent =>
    intro x hx
    rw [History.sent_append, hsent, List.append_nil] at hx
    obtain ⟨hnot, call, hcall, hstate⟩ := hL.sent x hx
    refine ⟨fun hc => ?_, call, hpush hcall, hstate⟩
    rcases List.mem_cons.1 (hreplies.mem_iff.1 hc) with heq | hold
    · simp [heq] at hcall
    · exact hnot hold
  case answered =>
    intro c call vs hcall hstate
    rw [History.sent_append, hsent, List.append_nil]
    by_cases hc : c = b.calls.size
    · subst hc
      simp only [hcalls, Array.getElem?_push_size, Option.some.injEq] at hcall
      simp [← hcall] at hstate
    · rw [hcalls] at hcall
      exact hL.answered c call vs (by simpa [Array.getElem?_push, hc] using hcall) hstate

end Linear

theorem gather_spawn (g : Ledger κ → List CallRef) (hnew : g .new = []) :
    gather { b with size := b.size + 1, ledger := Function.update b.ledger b.size (some .new) } g =
      b.gather g := by
  simp only [gather, List.range_succ, List.flatMap_append]
  rw [List.flatMap_congr (g := fun r => ((b.ledger r).map g).getD []) fun r hr => ?_]
  · simp [hnew]
  · rw [Function.update_of_ne (Nat.ne_of_lt (List.mem_range.1 hr))]

theorem Linear.spawn (hL : b.Linear h) :
    Linear { b with size := b.size + 1, ledger := Function.update b.ledger b.size (some .new) } h := by
  have hsenders := gather_spawn (b := b) Ledger.senders rfl
  have hboarding := gather_spawn (b := b) Ledger.boarding rfl
  constructor
  case nodup => simpa [replies, hsenders] using hL.nodup
  case unserved => simpa [replies, hsenders] using hL.unserved
  case whole => simpa [replies, hsenders] using hL.whole
  case numbered => simpa [boarding, hboarding] using hL.numbered
  case once => exact hL.once
  case sent => simpa [replies, hsenders] using hL.sent
  case answered => exact hL.answered

theorem Step.linear (hs : b.Step forgets h' b') (hb : b.Fit) (hL : b.Linear h) :
    b'.Linear (h ++ h') := by
  cases hs with
  | deal hd =>
    obtain ⟨xs, hxs⟩ := hd.settles hb
    exact hL.settle hxs
  | forget c state hopen => simpa using hL.forget c hopen
  | spawn => simpa using hL.spawn
  | request r name args hl hopen =>
    refine hL.opened (replies_call hb hl name (Ledger.stored_accept _ _)) (.cons _ ?_) rfl rfl
    exact gather_call Ledger.boarding hb hl name [] (.refl _)
  | book r name args hl hopen =>
    refine hL.opened (replies_call hb hl name (Ledger.senders_board _ _)) ?_ rfl rfl
    refine gather_call Ledger.boarding hb hl name [b.calls.size] ?_
    simp [Ledger.boarding, Ledger.board, Leg.boarding, Event.call?]
  | change r hl hc => exact hL.settle (change_settles hb hl hc)

theorem Settles.settled (hs : b.Settles b' h xs) {call : Call} (hcall : b.calls[c]? = some call)
    (hw : call.state.isWaiting = false) : b'.calls[c]? = some call := by
  rw [hs.calls, settleAll_settled hcall hw]

theorem Step.settled (hs : b.Step forgets h b') (hb : b.Fit) {call : Call}
    (hcall : b.calls[c]? = some call) (hw : call.state.isWaiting = false) :
    b'.calls[c]? = some call := by
  cases hs with
  | deal hd =>
    obtain ⟨xs, hxs⟩ := hd.settles hb
    exact hxs.settled hcall hw
  | forget => exact settleAll_settled hcall hw
  | spawn => exact hcall
  | request | book =>
    change (b.calls.push _)[c]? = _
    rw [Array.getElem?_push, if_neg (Nat.ne_of_lt (Array.getElem?_eq_some_iff.1 hcall).1)]
    exact hcall
  | change r hl hc => exact (change_settles hb hl hc).settled hcall hw

def Proceeds (forgets : Option (CallRef × CallState)) (h : History κ) (c : CallRef)
    (after : Call) : Prop :=
  after.state.isWaiting = true ∨ forgets = some (c, after.state) ∨
    (∃ vs, (c, vs) ∈ h.sent ∧ after.state = .answered vs) ∨ after.state = .dropped

theorem Settles.verdict (hs : b.Settles b' h xs) {call : Call} (hcall : b.calls[c]? = some call)
    (hw : call.state.isWaiting = true) :
    ∃ after, b'.calls[c]? = some after ∧ Proceeds none h c after := by
  obtain ⟨after, hafter⟩ := settleAll_exists hcall xs
  refine ⟨after, by rw [hs.calls, hafter], ?_⟩
  obtain ⟨before, hbefore, hcase⟩ := settleAll_elim hafter
  obtain rfl : call = before := Option.some.inj (hcall.symm.trans hbefore)
  rcases hcase with rfl | ⟨-, hmem⟩
  · exact .inl hw
  · have hserved := hs.served _ hmem
    cases hstate : after.state with
    | answered vs =>
      rw [hstate] at hmem
      exact .inr (.inr (.inl ⟨vs, hs.sent ▸ mem_answered.2 hmem, hstate⟩))
    | dropped => exact .inr (.inr (.inr hstate))
    | waiting | timedOut | abandoned => simp [hstate, CallState.isServed] at hserved

/-- A waiting call goes on waiting, is forgotten, or is served. -/
theorem Step.verdict (hs : b.Step forgets h b') (hb : b.Fit) {call : Call}
    (hcall : b.calls[c]? = some call) (hw : call.state.isWaiting = true) :
    ∃ after, b'.calls[c]? = some after ∧ Proceeds forgets h c after := by
  cases hs with
  | deal hd =>
    obtain ⟨xs, hxs⟩ := hd.settles hb
    exact hxs.verdict hcall hw
  | forget d state hopen =>
    obtain ⟨after, hafter⟩ := settleAll_exists hcall [(d, state)]
    refine ⟨after, hafter, ?_⟩
    obtain ⟨before, hbefore, hcase⟩ := settleAll_elim hafter
    obtain rfl : call = before := Option.some.inj (hcall.symm.trans hbefore)
    rcases hcase with rfl | ⟨-, hmem⟩
    · exact .inl hw
    · simp only [List.mem_singleton, Prod.mk.injEq] at hmem
      exact .inr (.inl (by rw [hmem.1, hmem.2]))
  | spawn => exact ⟨call, hcall, .inl hw⟩
  | request | book =>
    refine ⟨call, ?_, .inl hw⟩
    change (b.calls.push _)[c]? = _
    rw [Array.getElem?_push, if_neg (Nat.ne_of_lt (Array.getElem?_eq_some_iff.1 hcall).1)]
    exact hcall
  | change r hl hc => exact (change_settles hb hl hc).verdict hcall hw

/-- While code runs, a reply that has left its dispatch does not come back. -/
theorem pervades_spent (config : Config) :
    Pervades config fun mode l _ _ l' => mode ≠ (.ready : Mode κ) → l.reply = none →
      l'.reply = none where
  refl _ _ _ hr := hr
  trans h h' hmode hr := h' hmode (h hmode hr)
  reply _ _ _ _ _ hr := hr
  effect _ he _ hr := by
    cases he with
    | answer | keep => rfl
    | _ => exact hr
  call _ _ := ⟨fun _ hr => hr, fun _ hr => hr⟩
  change _ hc hmode hr := by
    cases hc with
    | take | begin | fire | dismantle | retire => exact absurd rfl hmode
    | complete | panic | fired | timerPanic => rfl
    | fly before leg after next hlegs h => cases h <;> exact hr

end Books

end ActorSystem
