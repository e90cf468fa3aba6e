import ActorSystem.Proofs.Books
import Mathlib.Tactic.Common

set_option autoImplicit false

namespace ActorSystem

namespace DoubleBuffer

variable {α : Type}

theorem length_take_items (q : DoubleBuffer α) (max : Nat) :
    (q.take max).1.items.length ≤ max := by
  unfold take
  split
  · simp [Taken.nothing]
  · rw [List.length_take]
    exact Nat.min_le_left ..

theorem take_of_nil {q : DoubleBuffer α} (h : q.toList = []) (max : Nat) :
    (q.take max).1.items = [] ∧ (q.take max).2 = q := by
  obtain ⟨read, write⟩ := q
  obtain ⟨rfl, hwrite⟩ : read = [] ∧ write.toList = [] := List.append_eq_nil_iff.1 h
  obtain rfl : write = #[] := by simpa using hwrite
  unfold take
  split
  · exact ⟨rfl, rfl⟩
  · simp [refill]

theorem toList_eq_nil_of_take {q : DoubleBuffer α} {max : Nat} (hmax : max ≠ 0)
    (h : (q.take max).1.items = []) : q.toList = [] := by
  have hread : q.refill.read = [] := by simpa [take, hmax] using h
  unfold refill at hread
  split at hread
  · rename_i hempty
    simp only [List.isEmpty_iff] at hempty
    simp_all [toList]
  · simp_all

end DoubleBuffer

namespace EventQueue

variable {α : Type}

theorem lift_append_toList (q : EventQueue α) (max : Nat) :
    (q.lift max).1.items ++ (q.lift max).2.toList = q.toList :=
  q.buffer.take_append_toList max

@[simp] theorem toList_uncount (q : EventQueue α) (n : Nat) : (q.uncount n).toList = q.toList := rfl

theorem toList_eq_nil_of_lift {q : EventQueue α} (h : (q.lift unlimited).1.items = []) :
    q.toList = [] := by
  have hlimit : unlimited ≠ 0 := by decide
  exact DoubleBuffer.toList_eq_nil_of_take hlimit h

theorem take_append_toList (q : EventQueue α) (max : Nat) :
    (q.take max).1.items ++ (q.take max).2.toList = q.toList := by
  unfold take
  split
  · rfl
  · exact q.lift_append_toList max

theorem pending_take (q : EventQueue α) (max : Nat) :
    (q.take max).2.pending = q.pending - (q.take max).1.items.length := by
  unfold take
  split
  · simp [Taken.nothing]
  · rfl

theorem length_take_items (q : EventQueue α) (max : Nat) : (q.take max).1.items.length ≤ max := by
  unfold take
  split
  · simp [Taken.nothing]
  · exact q.buffer.length_take_items max

theorem take_nothing {q : EventQueue α} {max : Nat} (h : (q.take max).1.items = []) :
    q.pending < 0 ∨ max = 0 ∨ q.toList = [] := by
  unfold take at h
  split at h
  · exact .inl ‹_›
  · by_cases hmax : max = 0
    · exact .inr (.inl hmax)
    · exact .inr (.inr (DoubleBuffer.toList_eq_nil_of_take hmax h))

theorem take_of_nil {q : EventQueue α} (h : q.toList = []) (max : Nat) :
    (q.take max).1.items = [] ∧ (q.take max).2 = q := by
  have htaken : (q.buffer.take max).1.items = [] ∧ (q.buffer.take max).2 = q.buffer :=
    DoubleBuffer.take_of_nil h max
  unfold take
  split
  · exact ⟨rfl, rfl⟩
  · simp [lift, uncount, htaken]

theorem take_again {q : EventQueue α} {max : Nat} (h : (q.take max).1.items = []) :
    ((q.take max).2.take max).1.items = [] := by
  have hlist := q.take_append_toList max
  have hpending := q.pending_take max
  rw [h] at hlist hpending
  rcases take_nothing h with hneg | hmax | hnil
  · have hneg' : (q.take max).2.pending < 0 := by simpa [hpending] using hneg
    generalize (q.take max).2 = q' at hneg' ⊢
    simp [take, hneg', Taken.nothing]
  · exact List.length_eq_zero_iff.1 (Nat.le_zero.1 (hmax ▸ length_take_items _ max))
  · have hagain := (q.take max).2.take_append_toList max
    rw [show (q.take max).2.toList = [] from hlist.trans hnil] at hagain
    exact (List.append_eq_nil_iff.1 hagain).1

@[simp] theorem toList_announce (q : EventQueue α) : q.announce.2.toList = q.toList := by
  unfold announce
  dsimp only
  split
  · exact toList_claim _
  · rfl

@[simp] theorem pending_announce (q : EventQueue α) : q.announce.2.pending = q.pending := by
  unfold announce
  dsimp only
  split
  · exact pending_claim _
  · rfl

theorem sweep_cases (n : Nat) (q : EventQueue α) :
    (q.take unlimited).1.items = [] ∧ q.sweep (n + 1) = ([], (q.take unlimited).2) ∨
      (q.take unlimited).1.items ≠ [] ∧
        q.sweep (n + 1) =
          ((q.take unlimited).1.items ++ ((q.take unlimited).2.sweep n).1,
            ((q.take unlimited).2.sweep n).2) := by
  rw [sweep]
  generalize q.take unlimited = p
  obtain ⟨⟨items, more⟩, q'⟩ := p
  cases items with
  | nil => exact .inl ⟨rfl, rfl⟩
  | cons x xs => exact .inr ⟨by simp, rfl⟩

theorem sweep_append_toList (n : Nat) (q : EventQueue α) :
    (q.sweep n).1 ++ (q.sweep n).2.toList = q.toList := by
  induction n generalizing q with
  | zero => rfl
  | succ n ih =>
    have htake := q.take_append_toList unlimited
    rcases sweep_cases n q with ⟨hnil, heq⟩ | ⟨-, heq⟩ <;> rw [heq]
    · rwa [hnil] at htake
    · rw [List.append_assoc, ih, htake]

theorem pending_sweep (n : Nat) (q : EventQueue α) :
    (q.sweep n).2.pending = q.pending - (q.sweep n).1.length := by
  induction n generalizing q with
  | zero => simp [sweep]
  | succ n ih =>
    have htake := q.pending_take unlimited
    rcases sweep_cases n q with ⟨hnil, heq⟩ | ⟨-, heq⟩ <;> rw [heq]
    · rwa [hnil] at htake
    · dsimp only
      rw [ih, htake, List.length_append]
      omega

theorem sweep_done {n : Nat} {q : EventQueue α} (h : q.toList.length < n) :
    (q.sweep n).2.toList = [] ∨ (q.sweep n).2.pending < 0 := by
  induction n generalizing q with
  | zero => exact absurd h (Nat.not_lt_zero _)
  | succ n ih =>
    have htake := q.take_append_toList unlimited
    have hpending := q.pending_take unlimited
    rcases sweep_cases n q with ⟨hnil, heq⟩ | ⟨hne, heq⟩ <;> rw [heq]
    · rw [hnil] at htake hpending
      rcases take_nothing hnil with hneg | hzero | hempty
      · exact .inr (by simpa [hpending] using hneg)
      · exact absurd hzero (by decide)
      · exact .inl (htake.trans hempty)
    · refine ih ?_
      have hlength := congrArg List.length htake
      have hpos := List.length_pos_iff.2 hne
      rw [List.length_append] at hlength
      omega

theorem discard_append_toList (q : EventQueue α) : q.discard.1 ++ q.discard.2.toList = q.toList :=
  sweep_append_toList _ q

theorem pending_discard (q : EventQueue α) :
    q.discard.2.pending = q.pending - q.discard.1.length :=
  pending_sweep _ q

theorem discard_done (q : EventQueue α) : q.discard.2.toList = [] ∨ q.discard.2.pending < 0 :=
  sweep_done (Nat.lt_succ_self _)

theorem discard_outrun (q : EventQueue α) (h : q.pending < 0) : q.discard.1 = [] := by
  simp [discard, sweep, take, h, Taken.nothing]

theorem discard_eq {q : EventQueue α} (h : q.pending = q.toList.length) :
    q.discard.1 = q.toList ∧ q.discard.2.toList = [] ∧ q.discard.2.pending = 0 := by
  have happend := q.discard_append_toList
  have hpending := q.pending_discard
  have hlength := congrArg List.length happend
  rw [List.length_append] at hlength
  have hnil : q.discard.2.toList = [] := by
    rcases q.discard_done with hnil | hneg
    · exact hnil
    · omega
  rw [hnil, List.append_nil] at happend
  exact ⟨happend, hnil, by rw [hpending, happend, h]; omega⟩

end EventQueue

namespace System

variable {κ : Type} {s s' s'' : System κ} {r : ActorRef} {a a' : Actor κ}
  {xs ys : List (CallRef × CallState)}

/-- Only this actor has become another one, and these calls have been settled. -/
structure Turns (s s' : System κ) (r : ActorRef) (a : Actor κ)
    (xs : List (CallRef × CallState)) : Prop where
  actor : s'.actor? = Function.update s.actor? r (some a)
  calls : s'.calls = settleAll s.calls xs
  config : s'.config = s.config
  abroad : s'.abroad = s.abroad
  size : s'.actors.size = s.actors.size

structure Alike (s s' : System κ) : Prop where
  ledger : s'.ledger = s.ledger
  calls : s'.calls = s.calls
  config : s'.config = s.config
  abroad : s'.abroad = s.abroad
  size : s'.actors.size = s.actors.size

theorem lt_of_actor? (h : s.actor? r = some a) : r < s.actors.size :=
  (Array.getElem?_eq_some_iff.1 h).1

theorem actor?_put (h : s.actor? r = some a) (a' : Actor κ) :
    (s.put r a').actor? = Function.update s.actor? r (some a') := by
  funext r'
  by_cases hr' : r' = r
  · subst hr'
    simp [actor?, put, lt_of_actor? h]
  · simp [actor?, put, Function.update_of_ne hr', Ne.symm hr']

theorem actor?_update (h : s.actor? r = some a) (f : Actor κ → Actor κ) :
    (s.update r f).actor? = Function.update s.actor? r (some (f a)) := by
  funext r'
  unfold actor? at h
  by_cases hr' : r' = r
  · subst hr'
    simp [actor?, update, Array.getElem?_modify, h]
  · simp [actor?, update, Function.update_of_ne hr', Array.getElem?_modify, Ne.symm hr']

theorem settle_calls (s : System κ) (c : CallRef) (state : CallState) :
    (s.settle c state).2.calls = settleAll s.calls [(c, state)] := by
  apply Array.ext_getElem?
  intro d
  unfold settle settleAll
  by_cases hd : c = d
  · subst hd
    rcases hc : s.calls[c]? with _ | ⟨rpc, _ | vs | _ | _ | _⟩ <;>
      simp [Call.settle, CallState.isWaiting, Array.getElem?_modify, hc]
    exact Array.getElem?_setIfInBounds_self_of_lt (Array.getElem?_eq_some_iff.1 hc).1
  · split <;> simp [Array.getElem?_modify, hd]

theorem settle_eq (s : System κ) (c : CallRef) (state : CallState) :
    (s.settle c state).2 = { s with calls := settleAll s.calls [(c, state)] } := by
  rw [← settle_calls]
  unfold settle
  split <;> rfl

theorem settle_actor? (s : System κ) (c : CallRef) (state : CallState) :
    (s.settle c state).2.actor? = s.actor? := by
  rw [settle_eq]
  rfl

theorem giveUpAll_eq (s : System κ) (cs : List CallRef) :
    s.giveUpAll cs = { s with calls := settleAll s.calls (drops cs) } := by
  induction cs generalizing s with
  | nil => rfl
  | cons c cs ih =>
    change (s.giveUp c).giveUpAll cs = _
    rw [ih, giveUp, settle_eq]
    rfl

theorem atActor_eq {α : Type} (h : s.actor? r = some a) (absent : α) (f : Actor κ → α × Actor κ) :
    s.atActor r absent f = ((f a).1, s.put r (f a).2) := by
  simp [atActor, h]

theorem atActor_absent {α : Type} (h : s.actor? r = none) (absent : α)
    (f : Actor κ → α × Actor κ) : s.atActor r absent f = (absent, s) := by
  simp [atActor, h]

theorem ask_eq {α : Type} (h : s.actor? r = some a) (absent : α) (f : Actor κ → α) :
    s.ask r absent f = f a := by
  simp [ask, h]

theorem ask_absent {α : Type} (h : s.actor? r = none) (absent : α) (f : Actor κ → α) :
    s.ask r absent f = absent := by
  simp [ask, h]

theorem update_congr (s : System κ) (r : ActorRef) (f g : Actor κ → Actor κ)
    (h : ∀ a, s.actor? r = some a → f a = g a) : s.update r f = s.update r g := by
  have hactors : s.actors.modify r f = s.actors.modify r g := by
    apply Array.ext_getElem?
    intro i
    by_cases hi : r = i
    · subst hi
      cases ha : s.actors[r]? with
      | none => simp [Array.getElem?_modify, ha]
      | some a => simp [Array.getElem?_modify, ha, h a ha]
    · simp [Array.getElem?_modify, hi]
  unfold update
  rw [hactors]

theorem update_absent (h : s.actor? r = none) (f : Actor κ → Actor κ) : s.update r f = s := by
  rw [update_congr s r f id fun a ha => by simp [h] at ha]
  have hactors : s.actors.modify r id = s.actors := by
    apply Array.ext_getElem?
    intro i
    simp [Array.getElem?_modify]
  unfold update
  rw [hactors]

theorem put_self (h : s.actor? r = some a) : s.put r a = s := by
  have hactors : s.actors.setIfInBounds r a = s.actors := by
    apply Array.ext_getElem?
    intro i
    by_cases hi : r = i
    · subst hi
      rw [Array.getElem?_setIfInBounds_self_of_lt (Array.getElem?_eq_some_iff.1 h).1]
      exact h.symm
    · simp [hi]
  unfold put
  rw [hactors]

theorem update_eq (h : s.actor? r = some a) (f : Actor κ → Actor κ) :
    s.update r f = s.put r (f a) := by
  have hactors : s.actors.modify r f = s.actors.setIfInBounds r (f a) := by
    apply Array.ext_getElem?
    intro i
    by_cases hi : r = i
    · subst hi
      rw [Array.getElem?_setIfInBounds_self_of_lt (lt_of_actor? h), Array.getElem?_modify, if_pos rfl]
      exact congrArg (Option.map f) h
    · simp [Array.getElem?_modify, hi]
  unfold update put
  rw [hactors]

theorem atActor_snd {α : Type} (s : System κ) (r : ActorRef) (absent : α)
    (f : Actor κ → α × Actor κ) : (s.atActor r absent f).2 = s.update r fun a => (f a).2 := by
  cases ha : s.actor? r with
  | none => rw [atActor_absent ha, update_absent ha]
  | some a => rw [atActor_eq ha, update_eq ha]

namespace Turns

theorem actor?_self (h : Turns s s' r a xs) : s'.actor? r = some a := by
  simp [h.actor]

theorem put (h : s.actor? r = some a) (a' : Actor κ) : Turns s (s.put r a') r a' [] :=
  ⟨actor?_put h a', rfl, rfl, rfl, by simp [System.put]⟩

theorem update (h : s.actor? r = some a) (f : Actor κ → Actor κ) :
    Turns s (s.update r f) r (f a) [] :=
  ⟨actor?_update h f, rfl, rfl, rfl, by simp [System.update]⟩

theorem refl (h : s.actor? r = some a) : Turns s s r a [] :=
  ⟨(Function.update_eq_self_iff.2 h.symm).symm, rfl, rfl, rfl, rfl⟩

theorem trans (h : Turns s s' r a xs) (h' : Turns s' s'' r a' ys) : Turns s s'' r a' (xs ++ ys) := by
  constructor
  · rw [h'.actor, h.actor, Function.update_idem]
  · rw [h'.calls, h.calls, settleAll, settleAll, settleAll, List.foldl_append]
  · rw [h'.config, h.config]
  · rw [h'.abroad, h.abroad]
  · rw [h'.size, h.size]

theorem settle (h : Turns s s' r a xs) (c : CallRef) (state : CallState) :
    Turns s (s'.settle c state).2 r a (xs ++ [(c, state)]) := by
  rw [settle_eq]
  refine ⟨h.actor, ?_, h.config, h.abroad, h.size⟩
  simp only [h.calls, settleAll, List.foldl_append]

theorem giveUpAll (h : Turns s s' r a xs) (cs : List CallRef) :
    Turns s (s'.giveUpAll cs) r a (xs ++ drops cs) := by
  rw [giveUpAll_eq]
  refine ⟨h.actor, ?_, h.config, h.abroad, h.size⟩
  simp only [h.calls, settleAll, List.foldl_append]

theorem giveUp? (h : Turns s s' r a xs) (c : Option CallRef) :
    Turns s (c.elim s' s'.giveUp) r a (xs ++ drops c.toList) := by
  cases c with
  | none => simpa [drops] using h
  | some c => exact h.settle c .dropped

theorem note (h : Turns s s' r a xs) (e : Entry) : Turns s (s'.note e) r a xs :=
  ⟨h.actor, h.calls, h.config, h.abroad, h.size⟩

theorem notes {α : Type} (h : Turns s s' r a xs) (entry : α → Entry) (cs : List α) :
    Turns s (cs.foldl (fun s c => s.note (entry c)) s') r a xs := by
  induction cs generalizing s' with
  | nil => exact h
  | cons c cs ih => exact ih (h.note (entry c))

theorem ledger (h : Turns s s' r a xs) :
    s'.ledger = Function.update s.ledger r (some a.ledger) := by
  funext r'
  by_cases hr : r' = r
  · subst hr
    simp [System.ledger, h.actor]
  · simp [System.ledger, h.actor, Function.update_of_ne hr]

theorem alike (hs : s.actor? r = some a) (h : Turns s s' r a' []) (hl : a'.ledger = a.ledger) :
    Alike s s' := by
  refine ⟨?_, h.calls, h.config, h.abroad, h.size⟩
  rw [h.ledger, hl, Function.update_eq_self_iff]
  simp [System.ledger, hs]

theorem books_at (h : Turns s s' r a xs) (mode : ActorRef → Mode κ) (legs : ActorRef → List (Leg κ))
    (new : List (Leg κ)) :
    s'.books mode (Function.update legs r new) =
      (s.books mode legs).act r (a.ledgerWith new) s.abroad xs := by
  have hledger : (s'.books mode (Function.update legs r new)).ledger =
      Function.update (s.books mode legs).ledger r (some (a.ledgerWith new)) := by
    funext r'
    by_cases hr : r' = r
    · subst hr
      simp [System.books, h.actor]
    · simp [System.books, h.actor, Function.update_of_ne hr]
  simp only [System.books] at hledger
  simp [System.books, Books.act, hledger, h.calls, h.config, h.abroad, h.size]

theorem books (h : Turns s s' r a xs) (mode : ActorRef → Mode κ) (legs : ActorRef → List (Leg κ)) :
    s'.books mode legs = (s.books mode legs).act r (a.ledgerWith (legs r)) s.abroad xs := by
  have hbooks := h.books_at mode legs (legs r)
  rwa [Function.update_eq_self] at hbooks

end Turns

namespace Alike

theorem refl (s : System κ) : Alike s s := ⟨rfl, rfl, rfl, rfl, rfl⟩

theorem update (r : ActorRef) (f : Actor κ → Actor κ) (hf : ∀ a : Actor κ, (f a).ledger = a.ledger) :
    Alike s (s.update r f) := by
  cases h : s.actor? r with
  | none =>
    rw [update_absent h]
    exact .refl s
  | some a => exact (Turns.update h f).alike h (hf a)

theorem atActor {α : Type} (r : ActorRef) (absent : α) (f : Actor κ → α × Actor κ)
    (hf : ∀ a, (f a).2.ledger = a.ledger) : Alike s (s.atActor r absent f).2 := by
  rw [atActor_snd]
  exact .update r _ hf

theorem books (h : Alike s s') (mode : ActorRef → Mode κ) (legs : ActorRef → List (Leg κ)) :
    s'.books mode legs = s.books mode legs := by
  have hledger : ∀ (s : System κ) r, (s.books mode legs).ledger r =
      (s.ledger r).map fun l => { l with legs := legs r } := by
    intro s r
    cases ha : s.actor? r <;> simp [System.books, System.ledger, ha, Actor.ledger, Actor.ledgerWith]
  have hsame : (s'.books mode legs).ledger = (s.books mode legs).ledger := by
    funext r
    rw [hledger, hledger, h.ledger]
  simp only [System.books] at hsame
  simp [System.books, hsame, h.calls, h.config, h.abroad, h.size]

end Alike

theorem books_none (h : s.actor? r = none) (mode : ActorRef → Mode κ)
    (legs : ActorRef → List (Leg κ)) : (s.books mode legs).ledger r = none := by
  simp [books, h]

theorem books_intro (h : s.actor? r = some a) (mode : ActorRef → Mode κ)
    (legs : ActorRef → List (Leg κ)) :
    (s.books mode legs).ledger r = some (a.ledgerWith (legs r)) := by
  simp [books, h]

theorem takeReply_turns (h : s.actor? r = some a) :
    (s.takeReply r).1 = a.dispatch.reply ∧
      Turns s (s.takeReply r).2 r { a with dispatch.reply := none } [] := by
  rw [takeReply, atActor_eq h]
  exact ⟨rfl, .put h _⟩

theorem takeKept_turns (h : s.actor? r = some a) (slot : String) :
    (s.takeKept r slot).1 = a.kept.get? slot ∧
      Turns s (s.takeKept r slot).2 r { a with kept := a.kept.erase slot } [] := by
  rw [takeKept, atActor_eq h]
  exact ⟨rfl, .put h _⟩

theorem takeHeld_turns (h : s.actor? r = some a) (slot : String) :
    (s.takeHeld r slot).1 = a.dispatch.hand.get? slot ∧
      Turns s (s.takeHeld r slot).2 r
        { a with dispatch.hand := a.dispatch.hand.erase slot } [] := by
  rw [takeHeld, atActor_eq h]
  exact ⟨rfl, .put h _⟩

theorem dropKept_turns (h : s.actor? r = some a) (slot : String) :
    Turns s (s.dropKept r slot).2 r { a with kept := a.kept.erase slot }
      (drops (a.kept.get? slot).toList) := by
  obtain ⟨hc, ht⟩ := takeKept_turns h slot
  unfold dropKept
  generalize s.takeKept r slot = p at hc ht
  obtain ⟨c, s'⟩ := p
  dsimp only at hc ht
  subst hc
  cases a.kept.get? slot with
  | none => exact ht
  | some c => exact ht.giveUp? (some c)

theorem dropHeld_turns (h : s.actor? r = some a) (slot : String) :
    Turns s (s.dropHeld r slot).2 r { a with dispatch.hand := a.dispatch.hand.erase slot }
      (drops (a.dispatch.hand.get? slot).toList) := by
  obtain ⟨hc, ht⟩ := takeHeld_turns h slot
  unfold dropHeld
  generalize s.takeHeld r slot = p at hc ht
  obtain ⟨c, s'⟩ := p
  dsimp only at hc ht
  subst hc
  cases a.dispatch.hand.get? slot with
  | none => exact ht
  | some c => exact ht.giveUp? (some c)

theorem reset_turns (h : s.actor? r = some a) :
    Turns s (s.reset r) r { a with dispatch := .idle } (drops a.dispatch.replies) := by
  rw [reset, atActor_eq h]
  exact (Turns.put h _).giveUpAll _

theorem dropBatch_turns (h : s.actor? r = some a) :
    Turns s (s.dropBatch r) r { a with batch := [] } (drops (callsOf a.batch)) := by
  rw [dropBatch, atActor_eq h]
  exact (Turns.put h _).giveUpAll _

theorem ledgerWith_afterPanic {a' : Actor κ} {config : Config}
    (h : a'.ledger = a.ledger.afterPanic config) (legs : List (Leg κ)) :
    a'.ledgerWith legs = (a.ledgerWith legs).afterPanic config :=
  congrArg (fun l : Ledger κ => { l with legs }) h

theorem recover_turns (h : s.actor? r = some a) :
    ∃ a' : Actor κ, a'.ledger = a.ledger.afterPanic s.config ∧ a'.timers = a.timers.finish ∧
      Turns s (s.recover r) r a'
        (drops (a.dispatch.replies ++ callsOf (a.ledger.dropped s.config))) := by
  unfold recover
  extract_lets s₁ s₂ s₃
  have h₁ : Turns s s₁ r _ [] := .update h _
  have h₂ : Turns s s₂ r _ _ := h₁.trans (reset_turns h₁.actor?_self)
  have hconfig : s₂.config = s.config := h₂.config
  cases hp : s.config.restartPolicy with
  | dropBatch =>
    have hs₃ : s₃ = s₂.dropBatch r := by simp only [s₃, hconfig, hp]
    have h₃ := h₂.trans (dropBatch_turns h₂.actor?_self)
    rw [← hs₃] at h₃
    have h₄ := h₃.trans (.update h₃.actor?_self fun a => { a with phase := .running })
    refine ⟨_, ?_, rfl,
      by simpa [drops, Ledger.dropped, Actor.ledger, Actor.ledgerWith, hp] using h₄⟩
    simp [Actor.ledger, Actor.ledgerWith, Ledger.afterPanic, hp, Dispatch.idle]
  | requeueRemaining =>
    have hs₃ : s₃ = s₂ := by simp only [s₃, hconfig, hp]
    rw [← hs₃] at h₂
    have h₄ := h₂.trans (.update h₂.actor?_self fun a => { a with phase := .running })
    refine ⟨_, ?_, rfl, by simpa [drops, Ledger.dropped, hp, callsOf] using h₄⟩
    simp [Actor.ledger, Actor.ledgerWith, Ledger.afterPanic, hp, Dispatch.idle]

theorem discard_turns (h : s.actor? r = some a) :
    Turns s (s.discard r) r { a with mailbox := a.mailbox.discard.2 }
      (drops (callsOf a.mailbox.discard.1)) := by
  simp only [discard, h]
  exact (Turns.put h _).giveUpAll _

theorem swept_discard (a : Actor κ) (legs : List (Leg κ)) :
    (a.ledgerWith legs).Swept a.mailbox.discard.1 a.mailbox.discard.2.toList := by
  refine ⟨a.mailbox.discard_append_toList.symm, a.mailbox.discard_done.imp_right fun h => ?_,
    fun h => a.mailbox.discard_outrun h⟩
  rwa [EventQueue.pending_discard] at h

theorem recheck_open (h : s.actor? r = some a) (hopen : a.phase ≠ .closed) : s.recheck r = s := by
  simp [recheck, ask_eq h, hopen]

theorem accepts_eq (h : s.actor? r = some a) : s.accepts r = !a.refuses := ask_eq h ..

theorem accepts_absent (h : s.actor? r = none) : s.accepts r = false := ask_absent h ..

theorem open_of_refuses (h : a.refuses = false) : a.phase ≠ .closed := by
  simp only [Actor.refuses, Bool.or_eq_false_iff, beq_eq_false_iff_ne] at h
  exact h.2

/-- As long as the actor takes events, a push is over with the event in the mailbox. -/
theorem enqueue_open (h : s.actor? r = some a) (hopen : a.refuses = false) (e : Event κ) :
    s.enqueue r e = s.put r (a.enqueue e) := by
  rw [enqueue, update_eq h]
  exact recheck_open (Turns.put h _).actor?_self (open_of_refuses hopen)

theorem push_open (h : s.actor? r = some a) (hopen : a.refuses = false) (e : Event κ) :
    s.push r e = s.put r (a.enqueue e) := by
  rw [push, accepts_eq h, hopen, Bool.not_false, if_pos rfl, enqueue_open h hopen]

theorem push_refused (h : s.accepts r = false) (e : Event κ) :
    s.push r e = s.giveUpAll e.calls := by
  rw [push, h]
  rfl

theorem post_refused (h : s.accepts r = false) (p : Post κ) : s.post r p = s := push_refused h _

theorem request_open (h : s.actor? r = some a) (hopen : a.refuses = false) (name : String)
    (args : Args) :
    s.request r name args =
      (.ok s.calls.size,
        { s with calls := s.calls.push ⟨name, .waiting⟩ }.put r
          (a.enqueue (.awaitRpc ⟨none, name, args⟩ s.calls.size))) := by
  have h' : { s with calls := s.calls.push ⟨name, .waiting⟩ }.actor? r = some a := h
  simp only [request, h, hopen, enqueue_open h' hopen, Bool.false_eq_true, if_false]

theorem close_dormant (h : s.actor? r = some a) (hd : a.dormant = true) :
    s.close r =
      (s.put r { a with dormant := false, closing := true, stirred := true, phase := .closed }).discard
        r := by
  have h₁ := Turns.put h { a with dormant := false }
  have h₂ := h₁.trans (.put h₁.actor?_self
    { a with dormant := false, closing := true, stirred := true })
  simp only [close, claim, atActor_eq h, hd, signal, markClosed, if_true]
  rw [update_eq h₁.actor?_self, update_eq h₂.actor?_self]
  simp [put]

theorem close_awake (h : s.actor? r = some a) (hd : a.dormant = false) :
    s.close r = s.put r { a with closing := true, stirred := true } := by
  have h₁ := Turns.put h { a with dormant := false }
  simp only [close, claim, atActor_eq h, hd, signal, Bool.false_eq_true, if_false]
  rw [update_eq h₁.actor?_self]
  simp [put]

theorem close_absent (h : s.actor? r = none) : s.close r = s := by
  simp [close, claim, atActor_absent h, signal, update_absent h]

section

variable {mode : ActorRef → Mode κ} {legs : ActorRef → List (Leg κ)} {self : ActorRef}

/-- What becomes of one actor, of the threads at work at it, and of the replies on no ledger. -/
theorem Turns.flow_at {ins outs : List CallRef} {hs : List (Happening κ)}
    (taken abroad : List (ActorRef × CallRef)) (h : s.actor? r = some a) (ht : Turns s s' r a' xs)
    (new : List (Leg κ))
    (hact : Effect (mode r) (a.ledgerWith (legs r)) ins hs xs outs (a'.ledgerWith new))
    (habroad : (s.abroad ++ outs.map fun c => (r, c)).Perm (taken ++ abroad))
    (hins : taken.map Prod.snd = ins) :
    (s.books mode legs).Deal (hs.map fun x => (r, x))
      ({ s' with abroad }.books mode (Function.update legs r new)) := by
  have hbooks : { s' with abroad }.books mode (Function.update legs r new) =
      (s.books mode legs).act r (a'.ledgerWith new) abroad xs := by
    change { s'.books mode (Function.update legs r new) with abroad } = _
    rw [ht.books_at]
    rfl
  rw [hbooks]
  exact .act r taken abroad (books_intro h mode legs) hact habroad hins

theorem Turns.flow {ins outs : List CallRef} {hs : List (Happening κ)}
    (taken abroad : List (ActorRef × CallRef)) (h : s.actor? r = some a) (ht : Turns s s' r a' xs)
    (hact : Effect (mode r) (a.ledgerWith (legs r)) ins hs xs outs (a'.ledgerWith (legs r)))
    (habroad : (s.abroad ++ outs.map fun c => (r, c)).Perm (taken ++ abroad))
    (hins : taken.map Prod.snd = ins) :
    (s.books mode legs).Deal (hs.map fun x => (r, x)) ({ s' with abroad }.books mode legs) := by
  have hflow := ht.flow_at taken abroad h (legs r) hact habroad hins
  rwa [Function.update_eq_self] at hflow

theorem Turns.deal {hs : List (Happening κ)} (h : s.actor? r = some a) (ht : Turns s s' r a' xs)
    (hact : Effect (mode r) (a.ledgerWith (legs r)) [] hs xs [] (a'.ledgerWith (legs r))) :
    (s.books mode legs).Deal (hs.map fun x => (r, x)) (s'.books mode legs) := by
  have hflow := ht.flow [] s'.abroad h hact (by simp [ht.abroad]) rfl
  exact hflow

theorem Alike.deal (h : Alike s s') : (s.books mode legs).Deal [] (s'.books mode legs) := by
  rw [h.books]
  exact .same _

theorem answerCurrent_deal (s : System κ) (self : ActorRef) (vs : List Value) :
    (s.books mode legs).Deal (s.heard self (.answer vs))
      ((s.answerCurrent self vs).2.books mode legs) := by
  simp only [heard]
  unfold answerCurrent
  cases h : s.actor? self with
  | none =>
    rw [takeReply, atActor_absent h, ask_absent h]
    exact .same _
  | some a =>
    obtain ⟨hc, ht⟩ := takeReply_turns h
    rw [ask_eq h]
    generalize s.takeReply self = p at hc ht
    obtain ⟨c, s'⟩ := p
    dsimp only at hc ht
    subst hc
    cases hr : a.dispatch.reply with
    | none => exact (ht.alike h (by simp [Actor.ledger, Actor.ledgerWith, hr])).deal
    | some c => exact (ht.settle c (.answered vs)).deal h (.answer c vs hr)

theorem dropKept_deal (s : System κ) (self : ActorRef) (slot : String) :
    (s.books mode legs).Deal [] ((s.dropKept self slot).2.books mode legs) := by
  cases h : s.actor? self with
  | none =>
    rw [dropKept, takeKept, atActor_absent h]
    exact .same _
  | some a => exact (dropKept_turns h slot).deal h (.dropKept slot)

theorem keepReply_deal (s : System κ) (self : ActorRef) (slot : String) :
    (s.books mode legs).Deal [] ((s.keepReply self slot).2.books mode legs) := by
  unfold keepReply
  cases h : s.actor? self with
  | none =>
    rw [takeReply, atActor_absent h]
    exact .same _
  | some a =>
    obtain ⟨hc, ht⟩ := takeReply_turns h
    generalize s.takeReply self = p at hc ht
    obtain ⟨c, s'⟩ := p
    dsimp only at hc ht
    subst hc
    cases hr : a.dispatch.reply with
    | none => exact (ht.alike h (by simp [Actor.ledger, Actor.ledgerWith, hr])).deal
    | some c =>
      have hdrop := ht.trans (dropKept_turns ht.actor?_self slot)
      have hkeep := hdrop.trans (.update hdrop.actor?_self fun a =>
        { a with kept := a.kept.insert slot c })
      rw [List.nil_append, List.append_nil] at hkeep
      exact hkeep.deal h (.keep c slot hr)

theorem answerKept_deal (s : System κ) (self : ActorRef) (slot : String) (vs : List Value) :
    (s.books mode legs).Deal (s.heard self (.answerKept slot vs))
      ((s.answerKept self slot vs).2.books mode legs) := by
  simp only [heard]
  unfold answerKept
  cases h : s.actor? self with
  | none =>
    rw [takeKept, atActor_absent h, ask_absent h]
    exact .same _
  | some a =>
    obtain ⟨hc, ht⟩ := takeKept_turns h slot
    rw [ask_eq h]
    generalize s.takeKept self slot = p at hc ht
    obtain ⟨c, s'⟩ := p
    dsimp only at hc ht
    subst hc
    cases hk : a.kept.get? slot with
    | none =>
      have hsame : a.kept.erase slot = a.kept := Table.erase_of_get?_none hk
      exact (ht.alike h (by simp [Actor.ledger, Actor.ledgerWith, hsame])).deal
    | some c => exact (ht.settle c (.answered vs)).deal h (.answerKept c slot vs hk)

theorem unshelve_deal (s : System κ) (hself : s.actor? self = none ∨ mode self ≠ .ready)
    (slot : String) : (s.books mode legs).Deal [] ((s.unshelve self slot).2.books mode legs) := by
  unfold unshelve
  cases h : s.actor? self with
  | none =>
    rw [takeKept, atActor_absent h]
    exact .same _
  | some a =>
    have hmode : mode self ≠ .ready := hself.resolve_left (by simp [h])
    obtain ⟨hc, ht⟩ := takeKept_turns h slot
    generalize s.takeKept self slot = p at hc ht
    obtain ⟨c, s'⟩ := p
    dsimp only at hc ht
    subst hc
    cases hk : a.kept.get? slot with
    | none =>
      have hsame : a.kept.erase slot = a.kept := Table.erase_of_get?_none hk
      exact (ht.alike h (by simp [Actor.ledger, Actor.ledgerWith, hsame])).deal
    | some c =>
      have hdrop := ht.trans (dropHeld_turns ht.actor?_self slot)
      have hhold := hdrop.trans (.update hdrop.actor?_self fun a =>
        { a with dispatch.hand := a.dispatch.hand.insert slot c })
      rw [List.nil_append, List.append_nil] at hhold
      exact hhold.deal h (.unshelve c slot hmode hk)

theorem shelve_deal (s : System κ) (hself : s.actor? self = none ∨ mode self ≠ .ready)
    (slot : String) : (s.books mode legs).Deal [] ((s.shelve self slot).2.books mode legs) := by
  unfold shelve
  cases h : s.actor? self with
  | none =>
    rw [takeHeld, atActor_absent h]
    exact .same _
  | some a =>
    have hmode : mode self ≠ .ready := hself.resolve_left (by simp [h])
    obtain ⟨hc, ht⟩ := takeHeld_turns h slot
    generalize s.takeHeld self slot = p at hc ht
    obtain ⟨c, s'⟩ := p
    dsimp only at hc ht
    subst hc
    cases hk : a.dispatch.hand.get? slot with
    | none =>
      have hsame : a.dispatch.hand.erase slot = a.dispatch.hand := Table.erase_of_get?_none hk
      exact (ht.alike h (by simp [Actor.ledger, Actor.ledgerWith, hsame])).deal
    | some c =>
      have hdrop := ht.trans (dropKept_turns ht.actor?_self slot)
      have hkeep := hdrop.trans (.update hdrop.actor?_self fun a =>
        { a with kept := a.kept.insert slot c })
      rw [List.nil_append, List.append_nil] at hkeep
      exact hkeep.deal h (.shelve c slot hmode hk)

theorem release_deal (s : System κ) (self : ActorRef) (slot : String) :
    (s.books mode legs).Deal [] ((s.release self slot).2.books mode legs) := by
  unfold release
  cases h : s.actor? self with
  | none =>
    rw [takeHeld, atActor_absent h]
    exact .same _
  | some a =>
    obtain ⟨hc, ht⟩ := takeHeld_turns h slot
    generalize s.takeHeld self slot = p at hc ht
    obtain ⟨c, s'⟩ := p
    dsimp only at hc ht
    subst hc
    cases hk : a.dispatch.hand.get? slot with
    | none =>
      have hsame : a.dispatch.hand.erase slot = a.dispatch.hand := Table.erase_of_get?_none hk
      exact (ht.alike h (by simp [Actor.ledger, Actor.ledgerWith, hsame])).deal
    | some c =>
      refine ht.flow [] _ h (.release c slot hk) ?_ rfl
      rw [ht.abroad]
      exact List.perm_append_comm

theorem setTimer_deal (s : System κ) (hself : s.actor? self = none ∨ mode self ≠ .ready)
    (delay : UInt64) (task : Task κ) (owned : List String) :
    (s.books mode legs).Deal []
      ((s.atActor self 0 fun a => a.schedule s.clock.now delay task owned).2.books mode legs) := by
  cases h : s.actor? self with
  | none =>
    rw [atActor_absent h]
    exact .same _
  | some a =>
    rw [atActor_eq h]
    have hmode : mode self ≠ .ready := hself.resolve_left (by simp [h])
    have hact : Effect (mode self) (a.ledgerWith (legs self)) [] [] [] [] _ :=
      .stow (a.schedule s.clock.now delay task owned).1 owned hmode
    exact (Turns.put h (a.schedule s.clock.now delay task owned).2).deal h hact

theorem cancelTimer_deal (s : System κ) (self : ActorRef) (id : Timer.TimerId) :
    (s.books mode legs).Deal [] ((s.cancelTimer self id).2.books mode legs) := by
  unfold cancelTimer
  cases h : s.actor? self with
  | none =>
    rw [atActor_absent h]
    exact .same _
  | some a =>
    rw [atActor_eq h]
    have ht := (Turns.put h (a.cancel id).2).giveUpAll (a.cancel id).1.2
    have hcancel : a.cancel id =
        if (a.timers.delete id).1 && a.timers.running != some id then
          (((a.timers.delete id).1, (a.purse id).values),
            { a with
              timers := (a.timers.delete id).2, purses := a.purses.eraseP fun p => p.1 == id })
        else (((a.timers.delete id).1, []), { a with timers := (a.timers.delete id).2 }) := rfl
    split at hcancel <;> rw [hcancel] at ht ⊢
    · have hact : Effect (mode self) (a.ledgerWith (legs self)) [] [] _ [] _ := .tear id
      exact ht.deal h hact
    · exact (ht.alike h rfl).deal

theorem Books.Deal.wastes {b : Books κ} (taken abroad : List (ActorRef × CallRef))
    (h : b.abroad.Perm (taken ++ abroad)) :
    b.Deal [] { b with abroad, calls := settleAll b.calls (drops (taken.map Prod.snd)) } := by
  induction taken generalizing b with
  | nil => exact .shuffle abroad h
  | cons x taken ih =>
    have hfirst := Books.Deal.waste x (taken ++ abroad) h
    exact hfirst.both (ih (.refl _))

theorem push_deal (s : System κ) (r : ActorRef) {e : Event κ} (hcall : e.call? = none)
    (taken abroad : List (ActorRef × CallRef)) (habroad : abroad.Perm (taken ++ s.abroad))
    (htaken : taken.map Prod.snd = e.calls) :
    ({ s with abroad }.books mode legs).Deal
      (if s.accepts r then [(r, .accepted e)] else []) ((s.push r e).books mode legs) := by
  cases hopen : s.accepts r with
  | false =>
    have hwaste := Books.Deal.wastes (b := { s with abroad }.books mode legs) taken s.abroad habroad
    rw [push_refused hopen, giveUpAll_eq, ← htaken]
    exact hwaste
  | true =>
    cases h : s.actor? r with
    | none => simp [accepts_absent h] at hopen
    | some a =>
      have ha : a.refuses = false := by simpa [accepts_eq h] using hopen
      have h' : { s with abroad }.actor? r = some a := h
      have ht := Turns.put h' (a.enqueue e)
      have hact : Effect (mode r) (a.ledgerWith (legs r)) e.calls [.accepted e] [] []
          ((a.enqueue e).ledgerWith (legs r)) := by
        have hledger : (a.enqueue e).ledgerWith (legs r) = (a.ledgerWith (legs r)).accept e := by
          simp [Actor.enqueue, Actor.ledgerWith, Ledger.accept]
        exact hledger ▸ .accept e hcall ha
      rw [push_open h ha]
      exact ht.flow taken s.abroad h' hact (by simpa using habroad) htaken

theorem post_deal (s : System κ) (r : ActorRef) (p : Post κ) :
    (s.books mode legs).Deal (if s.accepts r then [(r, .accepted (.post p))] else [])
      ((s.post r p).books mode legs) :=
  push_deal s r rfl [] s.abroad (.refl _) rfl

theorem takeOwned_turns (h : s.actor? r = some a) (owned : List String) :
    (s.takeOwned r owned).1 = a.dispatch.hand.only owned ∧
      Turns s (s.takeOwned r owned).2 r
        { a with dispatch.hand := a.dispatch.hand.without owned } [] := by
  rw [takeOwned, atActor_eq h]
  exact ⟨rfl, .put h _⟩

theorem Turns.accepts (h : s.actor? r = some a) (ht : Turns s s' r a' xs)
    (ha : a'.refuses = a.refuses) (r' : ActorRef) : s'.accepts r' = s.accepts r' := by
  unfold System.accepts ask
  rw [ht.actor]
  by_cases hr : r' = r
  · subst hr
    simp [h, ha]
  · rw [Function.update_of_ne hr]

theorem execute_deal (s : System κ) (self target : ActorRef) (action : κ) (owned : List String) :
    (s.books mode legs).Deal (s.heard self (.execute target action owned))
      ((s.execute self target action owned).books mode legs) := by
  simp only [heard, execute]
  cases h : s.actor? self with
  | none =>
    rw [takeOwned, atActor_absent h, ask_absent h]
    exact push_deal s target rfl [] s.abroad (.refl _) rfl
  | some a =>
    obtain ⟨hreplies, ht⟩ := takeOwned_turns h owned
    rw [ask_eq h, hreplies, ← ht.accepts h rfl target]
    generalize (s.takeOwned self owned).2 = s₁ at ht ⊢
    let taken := (a.dispatch.hand.only owned).values.map fun c => (self, c)
    have hgive : (s.books mode legs).Deal []
        ({ s₁ with abroad := s.abroad ++ taken }.books mode legs) :=
      ht.flow [] _ h (.entrust owned) (.refl _) rfl
    refine hgive.both (push_deal s₁ target rfl taken _ ?_ ?_)
    · rw [ht.abroad]
      exact List.perm_append_comm
    · simp [taken, Event.calls, Function.comp_def]

theorem start_deal (s : System κ) (r : ActorRef) :
    (s.books mode legs).Deal [] ((s.start r).2.books mode legs) := by
  unfold start
  cases h : s.actor? r with
  | none =>
    rw [atActor_absent h]
    exact .same _
  | some a =>
    rw [atActor_eq h]
    have ht := Turns.put h (a.start s.clock.now s.config.maxDelayMs).2
    cases hd : a.dormant with
    | true =>
      simp only [Actor.start, hd, if_true] at ht ⊢
      have hact : Effect (mode r) (a.ledgerWith (legs r)) [] [] [] [] _ := .start hd
      exact ht.deal h hact
    | false =>
      simp only [Actor.start, hd, Bool.false_eq_true, if_false] at ht ⊢
      exact (ht.alike h rfl).deal

theorem close_deal (s : System κ) (self r : ActorRef) :
    (s.books mode legs).Deal (s.heard self (.close r)) ((s.close r).books mode legs) := by
  simp only [heard]
  cases h : s.actor? r with
  | none =>
    rw [close_absent h]
    exact .same _
  | some a =>
    cases hd : a.dormant with
    | true =>
      rw [close_dormant h hd]
      have ht := Turns.put h { a with
        dormant := false, closing := true, stirred := true, phase := .closed }
      have hact : Effect (mode r) (a.ledgerWith (legs r)) [] [.cancelled a.mailbox.discard.1] _ [] _ :=
        .cancel _ _ hd (swept_discard a (legs r))
      simp only [hd, if_true]
      have hdeal : (s.books mode legs).Deal ([.cancelled a.mailbox.discard.1].map fun x => (r, x)) _ :=
        (ht.trans (discard_turns ht.actor?_self)).deal h
          (by simpa [Actor.ledgerWith, EventQueue.pending_discard] using hact)
      exact hdeal
    | false =>
      rw [close_awake h hd]
      have hact : Effect (mode r) (a.ledgerWith (legs r)) [] [] [] [] _ := .close hd
      dsimp only
      rw [if_neg (by simp [hd])]
      exact (Turns.put h { a with closing := true, stirred := true }).deal h hact

theorem perform_deal (s : System κ) (hself : s.actor? self = none ∨ mode self ≠ .ready) (o : Op κ) :
    (s.books mode legs).Deal (s.heard self o) ((perform self o s).2.books mode legs) := by
  cases o with
  | answer vs => exact answerCurrent_deal s self vs
  | keepReply slot => exact keepReply_deal s self slot
  | answerKept slot vs => exact answerKept_deal s self slot vs
  | dropKept slot => exact dropKept_deal s self slot
  | unshelve slot => exact unshelve_deal s hself slot
  | shelve slot => exact shelve_deal s hself slot
  | release slot => exact release_deal s self slot
  | post target p => exact post_deal s target p
  | execute target action owned => exact execute_deal s self target action owned
  | call target name args => exact post_deal s target _
  | start target => exact start_deal s target
  | close target => exact close_deal s self target
  | put key v =>
    exact (Alike.update self (fun a => { a with store := a.store.insert key v }) fun _ => rfl).deal
  | erase key => exact (Alike.atActor self none _ fun _ => rfl).deal
  | setTimer delay callback args owned => exact setTimer_deal s hself delay ⟨callback, args⟩ owned
  | cancelTimer id => exact cancelTimer_deal s self id
  | registerMessage target proto handler =>
    refine (Alike.atActor target _ (fun a => a.registerMessage proto handler) fun a => ?_).deal
    cases h : a.onMessage.contains proto <;>
      simp [Actor.registerMessage, h, Actor.ledger, Actor.ledgerWith]
  | registerRpc target name handler =>
    refine (Alike.atActor target _ (fun a => a.registerRpc name handler) fun a => ?_).deal
    cases h : a.onRpc.contains name <;> simp [Actor.registerRpc, h, Actor.ledger, Actor.ledgerWith]
  | report what finding => exact .same _
  | look | now | lookup | timerStats | agent | component | find | await | inspect | backlog =>
    exact .same _

theorem elsewhere_deal (s : System κ) (c : CallRef) (use : Fate κ) :
    (s.books mode legs).Deal (s.elsewhere c use).1 ((s.elsewhere c use).2.books mode legs) := by
  unfold elsewhere
  cases hfind : s.abroad.find? fun x => x.2 == c with
  | none => exact .same _
  | some x =>
    have hmem : x ∈ s.abroad := List.mem_of_find?_eq_some hfind
    obtain rfl : x.2 = c := by simpa using List.find?_some hfind
    have hperm : s.abroad.Perm (x :: s.abroad.erase x) := List.perm_cons_erase hmem
    cases use with
    | answer vs =>
      have hreply := Books.Deal.reply (b := s.books mode legs) x vs _ hperm
      simp only [answer, settle_eq]
      exact hreply
    | drop =>
      have hwaste := Books.Deal.waste (b := s.books mode legs) x _ hperm
      simp only [giveUp, settle_eq]
      exact hwaste
    | pass slot target action =>
      exact push_deal { s with abroad := s.abroad.erase x } target rfl [x] _ hperm rfl

end

end System

namespace Actor

variable {κ : Type}

/-- To take an event in changes what the actor owns and what its code is told, and nothing else. -/
theorem react_eq (a : Actor κ) (e : Event κ) :
    (a.react e).actor =
      { a with
        agents := (a.react e).actor.agents, components := (a.react e).actor.components,
        managers := (a.react e).actor.managers, dispatch := (a.react e).actor.dispatch } := by
  cases e with
  | awaitRpc q call =>
    simp only [react, onCall]
    cases a.onRpc.get? q.name <;> rfl
  | errand action replies => rfl
  | post p =>
    cases p with
    | rpc q =>
      simp only [react, onPost, onCall]
      cases a.onRpc.get? q.name <;> rfl
    | custom action => rfl
    | data kind agent proto payload =>
      simp only [react, onPost, onData]
      cases a.onMessage.get? proto <;> rfl
    | session kind agent via extra => cases kind <;> cases agent <;> rfl
    | component kind c manager e =>
      cases kind with
      | componentCreate =>
        simp only [react, onPost, onCreated]
        cases a.components.contains c.id <;> rfl
      | _ => rfl

theorem react_hand (a : Actor κ) (e : Event κ) (h : a.dispatch.hand = .empty) :
    (a.react e).actor.dispatch.hand = e.parcel := by
  cases e with
  | awaitRpc q call =>
    simp only [react, onCall]
    cases a.onRpc.get? q.name <;> exact h
  | errand action replies => rfl
  | post p =>
    cases p with
    | rpc q =>
      simp only [react, onPost, onCall]
      cases a.onRpc.get? q.name <;> exact h
    | custom action => exact h
    | data kind agent proto payload =>
      simp only [react, onPost, onData]
      cases a.onMessage.get? proto <;> exact h
    | session kind agent via extra => cases kind <;> cases agent <;> exact h
    | component kind c manager e =>
      cases kind with
      | componentCreate =>
        simp only [react, onPost, onCreated]
        cases a.components.contains c.id <;> exact h
      | _ => exact h

theorem react_ledger (a : Actor κ) (e : Event κ) (legs : List (Leg κ)) :
    (a.react e).actor.ledgerWith legs =
      { a.ledgerWith legs with
        reply := (a.react e).actor.dispatch.reply, hand := (a.react e).actor.dispatch.hand } :=
  (congrArg (fun a => a.ledgerWith legs) (a.react_eq e)).trans rfl

theorem react_timers (a : Actor κ) (e : Event κ) : (a.react e).actor.timers = a.timers :=
  (congrArg Actor.timers (a.react_eq e)).trans rfl

theorem react_store (a : Actor κ) (e : Event κ) : (a.react e).actor.store = a.store :=
  (congrArg Actor.store (a.react_eq e)).trans rfl

/-- The reply that was there and the one that comes with an event both stay, or are given up. -/
theorem react_reply (a : Actor κ) (e : Event κ) :
    ((a.react e).actor.dispatch.reply.toList ++ (a.react e).unanswered.toList).Perm
      (a.dispatch.reply.toList ++ e.call?.toList) := by
  have hcall : ∀ (q : Request) (reply : Option CallRef),
      ((a.onCall q reply).actor.dispatch.reply.toList ++
        (a.onCall q reply).unanswered.toList).Perm (a.dispatch.reply.toList ++ reply.toList) := by
    intro q reply
    unfold onCall
    cases a.onRpc.get? q.name with
    | none => exact .refl _
    | some h => exact List.perm_append_comm
  cases e with
  | awaitRpc q call => exact hcall q (some call)
  | errand action replies => exact .refl _
  | post p =>
    cases p with
    | rpc q => exact hcall q none
    | custom action => exact .refl _
    | data kind agent proto payload =>
      simp only [react, onPost, onData]
      cases a.onMessage.get? proto <;> exact .refl _
    | session kind agent via extra => cases kind <;> cases agent <;> exact .refl _
    | component kind c manager e =>
      cases kind with
      | componentCreate =>
        simp only [react, onPost, onCreated]
        cases a.components.contains c.id <;> exact .refl _
      | _ => exact .refl _

end Actor

namespace System

variable {κ : Type} {s s' : System κ} {r : ActorRef} {a : Actor κ}

theorem receive_turns (h : s.actor? r = some a) (e : Event κ) :
    Turns s (s.receive r e).2 r (a.react e).actor (drops (a.react e).unanswered.toList) := by
  simp only [receive, h]
  have ht := Turns.put h (a.react e).actor
  cases (a.react e).started with
  | none => cases (a.react e).unanswered with
    | none => exact ht
    | some c => exact ht.giveUp? (some c)
  | some i => cases (a.react e).unanswered with
    | none => exact ht.note _
    | some c => exact (ht.note _).giveUp? (some c)

theorem takeBatch_eq (h : s.actor? r = some a) :
    s.takeBatch r =
      ((a.mailbox.take s.config.batchSize).1.items.length,
        s.put r { a with
          mailbox := (a.mailbox.take s.config.batchSize).2
          batch := a.batch ++ (a.mailbox.take s.config.batchSize).1.items }) := by
  rw [takeBatch, atActor_eq h]

theorem takeBatch_nothing (h : s.actor? r = some a) (hnone : (s.takeBatch r).1 = 0)
    (legs : List (Leg κ)) : (a.ledgerWith legs).TakesNothing s.config := by
  rw [takeBatch_eq h] at hnone
  exact EventQueue.take_nothing (List.length_eq_zero_iff.1 hnone)

theorem takeBatch_change (h : s.actor? r = some a) (legs : List (Leg κ)) (halive : a.alive = true)
    (hfree : legs.any Leg.isFinal = false) (hbatch : a.batch = []) :
    ∃ a' : Actor κ, Turns s (s.takeBatch r).2 r a' [] ∧
      Change s.config .ready (a.ledgerWith legs) [] [] .ready (a'.ledgerWith legs) := by
  have hc : Change s.config .ready (a.ledgerWith legs) [] [] .ready _ :=
    .take (a.mailbox.take s.config.batchSize).1.items (a.mailbox.take s.config.batchSize).2.toList
      halive hfree hbatch (a.mailbox.take_append_toList s.config.batchSize).symm
      (a.mailbox.length_take_items s.config.batchSize) EventQueue.take_nothing
  rw [takeBatch_eq h]
  refine ⟨_, .put h _, ?_⟩
  simpa [Actor.ledgerWith, hbatch, EventQueue.pending_take] using hc

theorem closeOwned_turns (h : s.actor? r = some a) :
    Turns s (s.closeOwned r) r
      { a with agents := .empty, components := .empty, managers := .empty } [] := by
  simp only [closeOwned, h]
  have hnotes := ((Turns.refl h).notes (fun c => .componentClosed c.id c.label)
    a.components.values).notes Entry.agentClosed a.agents.values
  simpa using hnotes.trans (.put hnotes.actor?_self _)

theorem leave_turns (h : s.actor? r = some a) :
    Turns s (s.leave r) r { a with kept := .empty, purses := [] }
      (drops (a.kept.values ++ pursesOf a.purses)) := by
  rw [leave, atActor_eq h]
  exact (Turns.put h _).giveUpAll _

theorem dismantle_turns (h : s.actor? r = some a) :
    Turns s (s.dismantle r) r
      { a with
        agents := .empty, components := .empty, managers := .empty, phase := .closed
        mailbox := a.mailbox.discard.2, kept := .empty, purses := [] }
      (drops (callsOf a.mailbox.discard.1 ++ (a.kept.values ++ pursesOf a.purses))) := by
  unfold dismantle
  have h₁ := closeOwned_turns h
  have h₂ := h₁.trans (.update h₁.actor?_self fun a => { a with phase := .closed })
  have h₃ := h₂.trans (discard_turns h₂.actor?_self)
  have h₄ := h₃.trans (leave_turns h₃.actor?_self)
  simpa [drops, markClosed] using h₄

theorem spawn_books (s : System κ) (name : String) (mode : ActorRef → Mode κ)
    (legs : ActorRef → List (Leg κ)) (hseat : legs s.actors.size = []) :
    (s.spawn name).2.books mode legs =
      { s.books mode legs with
        size := s.actors.size + 1
        ledger := Function.update (s.books mode legs).ledger s.actors.size (some .new) } := by
  have hledger : ((s.spawn name).2.books mode legs).ledger =
      Function.update (s.books mode legs).ledger s.actors.size (some .new) := by
    funext r
    by_cases hr : r = s.actors.size
    · subst hr
      simp [spawn, books, actor?, Actor.new, Actor.ledgerWith, Ledger.new, EventQueue.new,
        EventQueue.toList, Dispatch.idle, hseat]
    · simp [spawn, books, actor?, Array.getElem?_push, hr]
  simp only [books] at hledger
  simp only [books, hledger]
  simp [spawn]

end System

namespace Machine

variable {κ : Type} {m : Machine κ} {legs : ActorRef → List (Leg κ)} {r : ActorRef}

theorem idle_elim (h : m.idle r = true) :
    m.mode r = .ready ∧ ∃ a, m.system.actor? r = some a ∧ a.alive = true ∧ a.batch = [] := by
  unfold idle at h
  cases hm : m.mode r with
  | ready =>
    rw [hm] at h
    dsimp only at h
    cases ha : m.system.actor? r with
    | none => simp [System.ask, ha] at h
    | some a =>
      rw [System.ask_eq ha, Bool.and_eq_true, List.isEmpty_iff] at h
      exact ⟨rfl, a, rfl, h⟩
  | handling e => simp [hm] at h
  | firing => simp [hm] at h

theorem turns_step {s : System κ} {a a' : Actor κ} (mode : Mode κ) (hs : List (Happening κ))
    {xs : List (CallRef × CallState)} (h : m.system.actor? r = some a)
    (ht : System.Turns m.system s r a' xs)
    (hc : Change m.system.config (m.mode r) (a.ledgerWith (legs r)) hs xs mode
      (a'.ledgerWith (legs r))) :
    Books.Step (m.booksWith legs) none (hs.map fun x => (r, x))
      (s.books (Function.update m.mode r mode) legs) := by
  have hbooks := ht.books (Function.update m.mode r mode) legs
  rw [hbooks]
  exact .change r (System.books_intro h m.mode legs) hc

theorem alike_step {s : System κ} (h : System.Alike m.system s) :
    Books.Step (m.booksWith legs) none [] (s.books m.mode legs) :=
  .deal h.deal

theorem request_step (m : Machine κ) (legs : ActorRef → List (Leg κ)) (r : ActorRef) (name : String)
    (args : Args) :
    Books.Step (m.booksWith legs) none
      (if m.system.accepts r then
        [(r, .accepted (.awaitRpc ⟨none, name, args⟩ m.system.calls.size))] else [])
      ((m.system.request r name args).2.books m.mode legs) := by
  cases h : m.system.actor? r with
  | none => simpa [System.accepts_absent h, System.request, h] using alike_step (.refl m.system)
  | some a =>
    cases ha : a.refuses with
    | true =>
      simpa [System.accepts_eq h, System.request, h, ha] using alike_step (.refl m.system)
    | false =>
      let s : System κ := { m.system with calls := m.system.calls.push ⟨name, .waiting⟩ }
      have hs : s.actor? r = some a := h
      let e : Event κ := .awaitRpc ⟨none, name, args⟩ m.system.calls.size
      have hb : (a.enqueue e).ledgerWith (legs r) = (a.ledgerWith (legs r)).accept e := by
        simp [Actor.enqueue, Actor.ledgerWith, Ledger.accept]
      have hbooks := (System.Turns.put hs (a.enqueue e)).books m.mode legs
      rw [System.accepts_eq h, ha, System.request_open h ha, hbooks, hb]
      exact .request r name args (System.books_intro h m.mode legs) ha

theorem begin_step (code : κ → Invocation → Prog κ Unit) (hf : (m.booksWith legs).Fit)
    (r : ActorRef) (hfree : (legs r).any Leg.isFinal = false) :
    Books.Step (m.booksWith legs) none [] ((m.begin code r).booksWith legs) := by
  unfold begin
  split
  · rename_i a hmode ha
    split
    · exact alike_step (.refl _)
    · rename_i e rest hbatch
      have hput := System.Turns.put ha { a with batch := rest }
      have ht := System.receive_turns hput.actor?_self e
      have hempty : a.dispatch.hand = .empty :=
        (hf.ledger r _ (System.books_intro ha m.mode legs)).hand hmode
      have hhand := Actor.react_hand { a with batch := rest } e hempty
      have hc : Change m.system.config .ready (a.ledgerWith (legs r)) [] _ (.handling e) _ :=
        .begin e rest _ _ hfree hbatch (Actor.react_reply { a with batch := rest } e)
      refine turns_step (.handling e) [] ha (hput.trans ht) ?_
      rw [hmode, Actor.react_ledger, hhand]
      exact hc
  · exact alike_step (.refl _)

theorem fire_step (code : κ → Invocation → Prog κ Unit) (m : Machine κ) (r : ActorRef)
    (hfree : (legs r).any Leg.isFinal = false) :
    Books.Step (m.booksWith legs) none [] ((m.fire code r).booksWith legs) := by
  unfold fire
  split
  · rename_i hidle
    obtain ⟨hmode, a, ha, halive, hbatch⟩ := idle_elim hidle
    rw [System.atActor_eq ha]
    have ht := System.Turns.put ha (a.expire m.system.clock.now).2
    unfold Actor.expire at ht ⊢
    generalize a.timers.poll m.system.clock.now = p at ht ⊢
    obtain ⟨expired, timers⟩ := p
    cases expired with
    | none => exact alike_step (ht.alike ha rfl)
    | some e =>
      have hc : Change m.system.config .ready (a.ledgerWith (legs r)) [] [] .firing _ :=
        .fire e.id halive hfree hbatch
      exact turns_step .firing [] ha ht (hmode ▸ hc)
  · exact alike_step (.refl _)

theorem proceed_step (m : Machine κ) (r : ActorRef)
    (hmode : m.system.actor? r = none → m.mode r = .ready) :
    Books.Step (m.booksWith legs) none (m.proceed r).1 ((m.proceed r).2.booksWith legs) := by
  cases ha : m.system.actor? r with
  | none =>
    simp only [proceed, hmode ha]
    exact alike_step (.refl _)
  | some a =>
    have hdropped : m.system.dropped r = (a.ledgerWith (legs r)).dropped m.system.config := by
      simp only [System.dropped, System.ask_eq ha]
      rfl
    unfold proceed
    split
    · exact alike_step (.refl _)
    · rename_i o next htodo hnot
      have hdeal : (m.system.books m.mode legs).Deal _ _ :=
        System.perform_deal m.system (.inr hnot) o
      simpa [booksWith, runs] using Books.Step.deal hdeal
    · rename_i e u hm htodo
      have hreset := System.reset_turns ha
      have ht := hreset.trans (.update hreset.actor?_self fun a =>
        { a with processed := a.processed + 1 })
      rw [List.append_nil] at ht
      have hc : Change m.system.config (.handling e) (a.ledgerWith (legs r)) [.completed e] _ .ready
          _ := .complete e
      exact turns_step .ready [_] ha ht (hm ▸ hc)
    · rename_i e hm htodo
      obtain ⟨a', hl, -, ht⟩ := System.recover_turns ha
      have hc : Change m.system.config (.handling e) (a.ledgerWith (legs r)) _ _ .ready
          _ := .panic e
      rw [hdropped]
      refine turns_step .ready [_] ha ht ?_
      rw [hm, System.ledgerWith_afterPanic hl]
      exact hc
    · rename_i u hm htodo
      have htimers := System.Turns.update ha fun a => { a with timers := a.timers.finish }
      have ht := htimers.trans (System.reset_turns htimers.actor?_self)
      have hc : Change m.system.config .firing (a.ledgerWith (legs r)) [] _ .ready
          _ := .fired
      exact turns_step .ready [] ha ht (hm ▸ hc)
    · rename_i hm htodo
      obtain ⟨a', hl, -, ht⟩ := System.recover_turns ha
      have hc : Change m.system.config .firing (a.ledgerWith (legs r)) _ _ .ready
          _ := .timerPanic
      rw [hdropped]
      refine turns_step .ready [_] ha ht ?_
      rw [hm, System.ledgerWith_afterPanic hl]
      exact hc

theorem dismantle_step (m : Machine κ) (r : ActorRef) (hfree : (legs r).any Leg.isFinal = false) :
    Books.Step (m.booksWith legs) none (m.dismantle r).1 ((m.dismantle r).2.booksWith legs) := by
  unfold dismantle
  split
  · rename_i hguard
    simp only [Bool.and_eq_true, beq_iff_eq] at hguard
    obtain ⟨⟨hidle, hclosing⟩, hnone⟩ := hguard
    obtain ⟨hmode, a, ha, halive, hbatch⟩ := idle_elim hidle
    rw [System.ask_eq ha] at hclosing ⊢
    have hc : Change m.system.config .ready (a.ledgerWith (legs r)) [.ended a.mailbox.discard.1] _
        .ready _ :=
      .dismantle _ _ halive hfree hbatch hclosing (System.takeBatch_nothing ha hnone _)
        (System.swept_discard a (legs r))
    have hstep : Books.Step (m.booksWith legs) none [(r, .ended a.mailbox.discard.1)] _ :=
      turns_step .ready [_] ha (System.dismantle_turns ha)
        (by rw [hmode]; simpa [Actor.ledgerWith, EventQueue.pending_discard] using hc)
    rwa [← hmode, Function.update_eq_self] at hstep
  · exact alike_step (.refl _)

theorem wake_step (m : Machine κ) (r : ActorRef) :
    Books.Step (m.booksWith legs) none []
      ((if m.idle r then { m with system := m.system.wake r } else m).booksWith legs) := by
  split
  · rename_i hidle
    obtain ⟨-, a, ha, halive, -⟩ := idle_elim hidle
    have ht : System.Turns m.system (m.system.wake r) r _ [] := .update ha _
    refine alike_step (ht.alike ha ?_)
    have hclosed : (a.phase == .closed) = false := by
      simp only [Actor.alive, Bool.and_eq_true, bne] at halive
      simpa using halive.2
    have hlist : (a.mailbox.recv.2.rearm).toList = a.mailbox.toList := by
      rw [EventQueue.rearm, EventQueue.toList_claim]
      rfl
    have hpending : (a.mailbox.recv.2.rearm).pending = a.mailbox.pending := by
      simp [EventQueue.recv, EventQueue.rearm]
    simp [Actor.ledger, Actor.ledgerWith, hlist, hpending, hclosed]
  · exact alike_step (.refl _)

theorem take_step (m : Machine κ) (r : ActorRef) (hfree : (legs r).any Leg.isFinal = false) :
    Books.Step (m.booksWith legs) none []
      ((if m.idle r then { m with system := (m.system.takeBatch r).2 } else m).booksWith legs) := by
  split
  · rename_i hidle
    obtain ⟨hmode, a, ha, halive, hbatch⟩ := idle_elim hidle
    obtain ⟨a', ht, hc⟩ := System.takeBatch_change ha (legs r) halive hfree hbatch
    rw [← hmode] at hc
    have hstep : Books.Step (m.booksWith legs) none [] _ := turns_step _ [] ha ht hc
    rwa [Function.update_eq_self] at hstep
  · exact alike_step (.refl _)

theorem settle_step (m : Machine κ) (c : CallRef) {state : CallState} (h : state.isServed = false) :
    Books.Step (m.booksWith legs) (some (c, state)) []
      ((m.system.settle c state).2.books m.mode legs) := by
  rw [System.settle_eq]
  exact .forget c state h

/-- Every move is a step of the books, whatever other threads have under way. -/
theorem step_booksWith (code : κ → Invocation → Prog κ Unit) (m : Machine κ) (mv : Move κ)
    (hf : (m.booksWith legs).Fit) (hseat : ∀ r, m.system.actor? r = none → legs r = [])
    (hfree : ∀ r, mv.mover? = some r → (legs r).any Leg.isFinal = false) :
    Books.Step (m.booksWith legs) mv.forgets? (m.step code mv).1
      ((m.step code mv).2.booksWith legs) := by
  have hnone : m.system.actor? m.system.actors.size = none := by simp [System.actor?]
  have hready : ∀ r, m.system.actor? r = none → m.mode r = .ready := fun r hr =>
    hf.absent r (by simp [booksWith, System.books, hr])
  cases mv with
  | outside o => exact .deal (System.perform_deal m.system (.inl hnone) o)
  | request r name args => exact request_step m legs r name args
  | expire c => exact settle_step m c rfl
  | abandon c => exact settle_step m c rfl
  | elsewhere c use => exact .deal (System.elsewhere_deal m.system c use)
  | spawn name =>
    have hbooks := m.system.spawn_books name m.mode legs (hseat _ hnone)
    simp only [step, booksWith, hbooks]
    exact .spawn
  | arrange clock ids started names pools => exact .deal (.same _)
  | tend r stirred announced notified channel stage watch =>
    exact alike_step (.update r _ fun _ => rfl)
  | wake r => exact wake_step m r
  | take r => exact take_step m r (hfree r rfl)
  | dispatch r => exact begin_step code hf r (hfree r rfl)
  | proceed r => exact proceed_step m r (hready r)
  | fire r => exact fire_step code m r (hfree r rfl)
  | dismantle r => exact dismantle_step m r (hfree r rfl)

theorem step_books (code : κ → Invocation → Prog κ Unit) (m : Machine κ) (mv : Move κ)
    (hf : m.books.Fit) : Books.Step m.books mv.forgets? (m.step code mv).1 (m.step code mv).2.books :=
  step_booksWith code m mv hf (fun _ _ => rfl) fun _ _ => rfl

end Machine

end ActorSystem
