import ActorSystem.Proofs.Chronicle
import ActorSystem.Proofs.Frames
import Mathlib.Data.Option.Basic

set_option autoImplicit false

namespace ActorSystem

variable {κ : Type}

def Op.plain : Op κ → Bool
  | .setTimer .. => false
  | .backlog _ => false
  | _ => true

namespace Timer.Wheel

variable {α : Type}

structure Idle (w : Wheel α) : Prop where
  overdue : w.overdue = .empty
  len : w.len = 0

theorem idle_withMaxDelay (now limit : UInt64) : (withMaxDelay now limit : Wheel α).Idle := ⟨rfl, rfl⟩

theorem Idle.poll {w : Wheel α} (h : w.Idle) (now : UInt64) : w.poll now = (none, w) := by
  have hnone : w.popOverdue = none := by simp [popOverdue, Arena.popFront, h.overdue, Chain.empty]
  unfold Wheel.poll
  rw [hnone]
  dsimp only
  cases tickOf now + 1 - w.currentTick with
  | zero => rfl
  | succ n => simp [pollRounds, h.len]

theorem Idle.nextWake {w : Wheel α} (h : w.Idle) (now : UInt64) : w.nextWake now = none := by
  simp [Wheel.nextWake, h.overdue, h.len, Chain.isEmpty, Chain.empty]

theorem Idle.finish {w : Wheel α} (h : w.Idle) : w.finish.Idle := ⟨h.overdue, h.len⟩

theorem Idle.delete {w : Wheel α} (h : w.Idle) (id : TimerId) : (w.delete id).2.Idle := by
  unfold Wheel.delete
  split
  · exact h
  · split
    · exact h
    · dsimp only
      split
      · rename_i i w' hunlink
        unfold unlink at hunlink
        split at hunlink
        · simp [h.overdue, Arena.unlink, Chain.empty, Arena.search] at hunlink
        · obtain ⟨x, -, heq⟩ := Option.map_eq_some_iff.1 hunlink
          obtain ⟨-, rfl⟩ := Prod.mk.inj heq
          exact ⟨h.overdue, by simp [modifyLevel, h.len]⟩
      · exact h

end Timer.Wheel

inductive Actor.Matches (a : Actor κ) : Actor κ → Prop where
  | intro (mailbox : EventQueue (Event κ)) (batch : List (Event κ))
    (queue : batch ++ mailbox.toList = a.batch ++ a.mailbox.toList)
    (pending : a.mailbox.pending = a.mailbox.toList.length ∧ mailbox.pending = mailbox.toList.length)
    (dormant : a.dormant = true → a.batch = [] ∧ batch = [])
    (timers : a.timers.Idle) :
    Matches a (a.holding mailbox batch)

namespace Actor

theorem cancel_holding (a : Actor κ) (mailbox : EventQueue (Event κ)) (batch : List (Event κ))
    (id : Timer.TimerId) :
    (a.holding mailbox batch).cancel id =
      ((a.cancel id).1, (a.cancel id).2.holding mailbox batch) := by
  unfold cancel holding purse
  dsimp only
  generalize a.timers.delete id = p
  obtain ⟨b, timers⟩ := p
  dsimp only
  split <;> rfl

end Actor

namespace Actor.Matches

variable {a b : Actor κ}

theorem queue_eq (h : a.Matches b) : b.batch ++ b.mailbox.toList = a.batch ++ a.mailbox.toList := by
  cases h with
  | intro mailbox batch queue => exact queue

theorem left (h : a.Matches b) : a.Matches a := by
  cases h with
  | intro mailbox batch queue pending dormant timers =>
    exact .intro a.mailbox a.batch rfl ⟨pending.1, pending.1⟩
      (fun hd => ⟨(dormant hd).1, (dormant hd).1⟩) timers

theorem symm (h : a.Matches b) : b.Matches a := by
  cases h with
  | intro mailbox batch queue pending dormant timers =>
    exact .intro (a := a.holding mailbox batch) a.mailbox a.batch queue.symm
      ⟨pending.2, pending.1⟩ (fun hd => ⟨(dormant hd).2, (dormant hd).1⟩) timers

theorem alike (h : a.Matches b) (f : Actor κ → Actor κ)
    (hf : ∀ (a : Actor κ) mailbox batch, f (a.holding mailbox batch) = (f a).holding mailbox batch)
    (hd : (f a).dormant = true → a.dormant = true) (ht : a.timers.Idle → (f a).timers.Idle) :
    (f a).Matches (f b) := by
  cases h with
  | intro mailbox batch queue pending dormant timers =>
    have hsame : f a = (f a).holding a.mailbox a.batch := hf a a.mailbox a.batch
    have hmailbox : (f a).mailbox = a.mailbox := by rw [hsame]; rfl
    have hbatch : (f a).batch = a.batch := by rw [hsame]; rfl
    rw [hf]
    refine .intro mailbox batch ?_ ?_ ?_ (ht timers)
    · rw [hmailbox, hbatch, queue]
    · rw [hmailbox]
      exact pending
    · rw [hbatch]
      exact fun h => dormant (hd h)

theorem enqueue (h : a.Matches b) (e : Event κ) : (a.enqueue e).Matches (b.enqueue e) := by
  cases h with
  | intro mailbox batch queue pending dormant timers =>
    refine .intro (a := a.enqueue e) (mailbox.push e) batch ?_ ?_ dormant timers
    · simp only [Actor.enqueue, EventQueue.toList_push, ← List.append_assoc, queue]
    · simp [Actor.enqueue, pending]

theorem tend (h : a.Matches b) (g : EventQueue (Event κ) → EventQueue (Event κ))
    (hlist : ∀ q, (g q).toList = q.toList) (hpending : ∀ q, (g q).pending = q.pending) :
    Matches { a with mailbox := g a.mailbox } { b with mailbox := g b.mailbox } := by
  cases h with
  | intro mailbox batch queue pending dormant timers =>
    refine .intro (a := { a with mailbox := g a.mailbox }) (g mailbox) batch ?_ ?_ dormant timers
    · simpa only [hlist] using queue
    · simpa only [hlist, hpending] using pending

/-- With no batch the mailboxes have the same events, and they may be emptied. -/
theorem discard (h : a.Matches b) (ha : a.batch = []) (hb : b.batch = []) :
    b.mailbox.discard.1 = a.mailbox.discard.1 ∧
      Matches { a with mailbox := a.mailbox.discard.2 } { b with mailbox := b.mailbox.discard.2 } := by
  cases h with
  | intro mailbox batch queue pending dormant timers =>
    have hbatch : batch = [] := hb
    subst hbatch
    rw [ha, List.nil_append, List.nil_append] at queue
    refine ⟨?_, .intro (a := { a with mailbox := a.mailbox.discard.2 }) mailbox.discard.2 [] ?_ ?_
      dormant timers⟩
    · exact (EventQueue.discard_eq pending.2).1.trans
        (queue.trans (EventQueue.discard_eq pending.1).1.symm)
    · rw [(EventQueue.discard_eq pending.1).2.1, (EventQueue.discard_eq pending.2).2.1, ha]
    · obtain ⟨-, hleft, hleft'⟩ := EventQueue.discard_eq pending.1
      obtain ⟨-, hright, hright'⟩ := EventQueue.discard_eq pending.2
      simp [hleft, hleft', hright, hright']

end Actor.Matches

namespace System

variable {s t : System κ} {r : ActorRef} {a b : Actor κ}

def shell (s : System κ) : System κ := { s with config.batchSize := 1, actors := #[] }

structure Matches (s t : System κ) : Prop where
  shell : s.shell = t.shell
  size : s.actors.size = t.actors.size
  actors : ∀ r, Option.Rel Actor.Matches (s.actor? r) (t.actor? r)
  batchSize : 1 ≤ s.config.batchSize ∧ 1 ≤ t.config.batchSize

namespace Matches

theorem some (h : Matches s t) (ha : s.actor? r = some a) :
    ∃ b, t.actor? r = Option.some b ∧ a.Matches b := by
  have hr := h.actors r
  rw [ha] at hr
  generalize t.actor? r = y at hr
  cases hr with
  | some hr => exact ⟨_, rfl, hr⟩

theorem none (h : Matches s t) (ha : s.actor? r = Option.none) : t.actor? r = Option.none := by
  have hr := h.actors r
  rw [ha] at hr
  generalize t.actor? r = y at hr
  cases hr
  rfl

theorem clock (h : Matches s t) : t.clock = s.clock := (congrArg System.clock h.shell).symm

theorem calls (h : Matches s t) : t.calls = s.calls := (congrArg System.calls h.shell).symm

theorem policy (h : Matches s t) : t.config.restartPolicy = s.config.restartPolicy :=
  (congrArg (fun s : System κ => s.config.restartPolicy) h.shell).symm

theorem maxDelay (h : Matches s t) : t.config.maxDelayMs = s.config.maxDelayMs :=
  (congrArg (fun s : System κ => s.config.maxDelayMs) h.shell).symm

theorem left (h : Matches s t) : Matches s s := by
  refine ⟨rfl, rfl, fun r => ?_, ⟨h.batchSize.1, h.batchSize.1⟩⟩
  cases ha : s.actor? r with
  | none => exact .none
  | some a =>
    obtain ⟨b, -, hb⟩ := h.some ha
    exact .some hb.left

theorem symm (h : Matches s t) : Matches t s := by
  refine ⟨h.shell.symm, h.size.symm, fun r => ?_, ⟨h.batchSize.2, h.batchSize.1⟩⟩
  have hr := h.actors r
  generalize s.actor? r = x at hr ⊢
  generalize t.actor? r = y at hr ⊢
  cases hr with
  | none => exact .none
  | some hr => exact .some hr.symm

theorem put (h : Matches s t) (ha : s.actor? r = Option.some a) {a' b' : Actor κ}
    (hab : a'.Matches b') : Matches (s.put r a') (t.put r b') := by
  obtain ⟨b, hb, -⟩ := h.some ha
  refine ⟨h.shell, by simp [System.put, h.size], fun r' => ?_, h.batchSize⟩
  rw [actor?_put ha, actor?_put hb]
  by_cases hr : r' = r
  · subst hr
    simpa using Option.Rel.some hab
  · simpa [Function.update_of_ne hr] using h.actors r'

theorem update (h : Matches s t) (r : ActorRef) {f g : Actor κ → Actor κ}
    (hfg : ∀ a b, a.Matches b → (f a).Matches (g b)) : Matches (s.update r f) (t.update r g) := by
  refine ⟨h.shell, by simp [System.update, h.size], fun r' => ?_, h.batchSize⟩
  cases ha : s.actor? r with
  | none =>
    rw [update_absent ha, update_absent (h.none ha)]
    exact h.actors r'
  | some a =>
    obtain ⟨b, hb, hab⟩ := h.some ha
    rw [actor?_update ha, actor?_update hb]
    by_cases hr : r' = r
    · subst hr
      simpa using Option.Rel.some (hfg a b hab)
    · simpa [Function.update_of_ne hr] using h.actors r'

theorem atActor {α : Type} (h : Matches s t) (r : ActorRef) (absent : α)
    {f g : Actor κ → α × Actor κ}
    (hfg : ∀ a b, a.Matches b → (f a).1 = (g b).1 ∧ (f a).2.Matches (g b).2) :
    (s.atActor r absent f).1 = (t.atActor r absent g).1 ∧
      Matches (s.atActor r absent f).2 (t.atActor r absent g).2 := by
  cases ha : s.actor? r with
  | none =>
    rw [atActor_absent ha, atActor_absent (h.none ha)]
    exact ⟨rfl, h⟩
  | some a =>
    obtain ⟨b, hb, hab⟩ := h.some ha
    rw [atActor_eq ha, atActor_eq hb]
    exact ⟨(hfg a b hab).1, h.put ha (hfg a b hab).2⟩

theorem ask {α : Type} (h : Matches s t) (r : ActorRef) (absent : α) {f g : Actor κ → α}
    (hfg : ∀ a b, a.Matches b → f a = g b) : s.ask r absent f = t.ask r absent g := by
  cases ha : s.actor? r with
  | none => simp [System.ask, ha, h.none ha]
  | some a =>
    obtain ⟨b, hb, hab⟩ := h.some ha
    rw [ask_eq ha, ask_eq hb, hfg a b hab]

theorem map {β : Type} (h : Matches s t) (r : ActorRef) {f : Actor κ → β}
    (hf : ∀ a b, a.Matches b → f a = f b) : (s.actor? r).map f = (t.actor? r).map f := by
  cases ha : s.actor? r with
  | none => rw [h.none ha]
  | some a =>
    obtain ⟨b, hb, hab⟩ := h.some ha
    rw [hb, Option.map_some, Option.map_some, hf a b hab]

theorem settle (h : Matches s t) (c : CallRef) (state : CallState) :
    (s.settle c state).1 = (t.settle c state).1 ∧
      Matches (s.settle c state).2 (t.settle c state).2 := by
  unfold System.settle
  rw [h.calls]
  split
  · rename_i rpc _
    refine ⟨rfl, ?_, h.size, h.actors, h.batchSize⟩
    exact congrArg (fun u : System κ => { u with calls := s.calls.setIfInBounds c ⟨rpc, state⟩ })
      h.shell
  · exact ⟨rfl, h⟩

theorem giveUpAll (h : Matches s t) (cs : List CallRef) :
    Matches (s.giveUpAll cs) (t.giveUpAll cs) := by
  induction cs generalizing s t with
  | nil => exact h
  | cons c cs ih => exact ih (h.settle c .dropped).2

theorem note (h : Matches s t) (e : Entry) : Matches (s.note e) (t.note e) :=
  ⟨congrArg (fun s : System κ => s.note e) h.shell, h.size, h.actors, h.batchSize⟩

end Matches

theorem takeReply_matches (h : Matches s t) (r : ActorRef) :
    (s.takeReply r).1 = (t.takeReply r).1 ∧ Matches (s.takeReply r).2 (t.takeReply r).2 := by
  refine h.atActor r none fun a b hab => ⟨?_, ?_⟩
  · cases hab
    rfl
  · exact hab.alike (fun a => { a with dispatch.reply := none }) (fun _ _ _ => rfl) id id

theorem takeKept_matches (h : Matches s t) (r : ActorRef) (slot : String) :
    (s.takeKept r slot).1 = (t.takeKept r slot).1 ∧
      Matches (s.takeKept r slot).2 (t.takeKept r slot).2 := by
  refine h.atActor r none fun a b hab => ⟨?_, ?_⟩
  · cases hab
    rfl
  · exact hab.alike (fun a => { a with kept := a.kept.erase slot }) (fun _ _ _ => rfl) id id

theorem takeHeld_matches (h : Matches s t) (r : ActorRef) (slot : String) :
    (s.takeHeld r slot).1 = (t.takeHeld r slot).1 ∧
      Matches (s.takeHeld r slot).2 (t.takeHeld r slot).2 := by
  refine h.atActor r none fun a b hab => ⟨?_, ?_⟩
  · cases hab
    rfl
  · exact hab.alike (fun a => { a with dispatch.hand := a.dispatch.hand.erase slot })
      (fun _ _ _ => rfl) id id

/-- A reply is there in both systems or in none, and what is done with it is the same. -/
theorem reply_matches {α : Type} {p q : Option CallRef × System κ} (h : p.1 = q.1 ∧ Matches p.2 q.2)
    (absent : α) {f g : CallRef → System κ → α × System κ}
    (hfg : ∀ c s t, Matches s t → (f c s).1 = (g c t).1 ∧ Matches (f c s).2 (g c t).2) :
    (match p with
      | (none, s) => (absent, s)
      | (some c, s) => f c s).1 =
        (match q with
          | (none, s) => (absent, s)
          | (some c, s) => g c s).1 ∧
      Matches
        (match p with
          | (none, s) => (absent, s)
          | (some c, s) => f c s).2
        (match q with
          | (none, s) => (absent, s)
          | (some c, s) => g c s).2 := by
  obtain ⟨c, s⟩ := p
  obtain ⟨c', t⟩ := q
  obtain ⟨heq, hmatches⟩ := h
  dsimp only at heq hmatches ⊢
  subst heq
  cases c with
  | none => exact ⟨rfl, hmatches⟩
  | some c => exact hfg c s t hmatches

theorem answerCurrent_matches (h : Matches s t) (r : ActorRef) (vs : List Value) :
    (s.answerCurrent r vs).1 = (t.answerCurrent r vs).1 ∧
      Matches (s.answerCurrent r vs).2 (t.answerCurrent r vs).2 :=
  reply_matches (takeReply_matches h r) false fun c _ _ h => h.settle c _

theorem dropKept_matches (h : Matches s t) (r : ActorRef) (slot : String) :
    (s.dropKept r slot).1 = (t.dropKept r slot).1 ∧
      Matches (s.dropKept r slot).2 (t.dropKept r slot).2 :=
  reply_matches (takeKept_matches h r slot) false fun c _ _ h => ⟨rfl, (h.settle c .dropped).2⟩

theorem dropHeld_matches (h : Matches s t) (r : ActorRef) (slot : String) :
    (s.dropHeld r slot).1 = (t.dropHeld r slot).1 ∧
      Matches (s.dropHeld r slot).2 (t.dropHeld r slot).2 :=
  reply_matches (takeHeld_matches h r slot) false fun c _ _ h => ⟨rfl, (h.settle c .dropped).2⟩

theorem putKept_matches (h : Matches s t) (r : ActorRef) (slot : String) (c : CallRef) :
    Matches ((s.dropKept r slot).2.update r fun a => { a with kept := a.kept.insert slot c })
      ((t.dropKept r slot).2.update r fun a => { a with kept := a.kept.insert slot c }) :=
  (dropKept_matches h r slot).2.update r fun _ _ hab =>
    hab.alike (fun a => { a with kept := a.kept.insert slot c }) (fun _ _ _ => rfl) id id

theorem keepReply_matches (h : Matches s t) (r : ActorRef) (slot : String) :
    (s.keepReply r slot).1 = (t.keepReply r slot).1 ∧
      Matches (s.keepReply r slot).2 (t.keepReply r slot).2 :=
  reply_matches (takeReply_matches h r) false fun c _ _ h => ⟨rfl, putKept_matches h r slot c⟩

theorem answerKept_matches (h : Matches s t) (r : ActorRef) (slot : String) (vs : List Value) :
    (s.answerKept r slot vs).1 = (t.answerKept r slot vs).1 ∧
      Matches (s.answerKept r slot vs).2 (t.answerKept r slot vs).2 :=
  reply_matches (takeKept_matches h r slot) none fun c _ _ h =>
    ⟨congrArg some (h.settle c _).1, (h.settle c _).2⟩

theorem unshelve_matches (h : Matches s t) (r : ActorRef) (slot : String) :
    (s.unshelve r slot).1 = (t.unshelve r slot).1 ∧
      Matches (s.unshelve r slot).2 (t.unshelve r slot).2 := by
  refine reply_matches (takeKept_matches h r slot) false fun c _ _ h => ⟨rfl, ?_⟩
  exact (dropHeld_matches h r slot).2.update r fun a b hab =>
    hab.alike (fun a => { a with dispatch.hand := a.dispatch.hand.insert slot c })
      (fun _ _ _ => rfl) id id

theorem shelve_matches (h : Matches s t) (r : ActorRef) (slot : String) :
    (s.shelve r slot).1 = (t.shelve r slot).1 ∧
      Matches (s.shelve r slot).2 (t.shelve r slot).2 :=
  reply_matches (takeHeld_matches h r slot) false fun c _ _ h => ⟨rfl, putKept_matches h r slot c⟩

theorem release_matches (h : Matches s t) (r : ActorRef) (slot : String) :
    (s.release r slot).1 = (t.release r slot).1 ∧
      Matches (s.release r slot).2 (t.release r slot).2 := by
  refine reply_matches (takeHeld_matches h r slot) false fun c s t h => ⟨rfl, ?_, h.size, h.actors,
    h.batchSize⟩
  exact congrArg (fun u : System κ => { u with abroad := (r, c) :: u.abroad }) h.shell

theorem accepts_matches (h : Matches s t) (r : ActorRef) : s.accepts r = t.accepts r := by
  refine h.ask r false fun a b hab => ?_
  cases hab
  rfl

/-- An actor that takes an event has not ended, so that nothing is thrown away. -/
theorem enqueue_matches (h : Matches s t) (ha : s.actor? r = some a) (hopen : a.refuses = false)
    (e : Event κ) : Matches (s.enqueue r e) (t.enqueue r e) := by
  obtain ⟨b, hb, hab⟩ := h.some ha
  have hopen' : b.refuses = false := by
    cases hab
    exact hopen
  rw [enqueue_open ha hopen, enqueue_open hb hopen']
  exact h.put ha (hab.enqueue e)

theorem push_matches (h : Matches s t) (r : ActorRef) (e : Event κ) :
    Matches (s.push r e) (t.push r e) := by
  have haccepts := accepts_matches h r
  unfold push
  rw [← haccepts]
  split
  · rename_i hopen
    cases ha : s.actor? r with
    | none => simp [accepts_absent ha] at hopen
    | some a => exact enqueue_matches h ha (by simpa [accepts_eq ha] using hopen) e
  · exact h.giveUpAll _

theorem execute_matches (h : Matches s t) (r target : ActorRef) (action : κ) (owned : List String) :
    Matches (s.execute r target action owned) (t.execute r target action owned) := by
  have htake : (s.takeOwned r owned).1 = (t.takeOwned r owned).1 ∧
      Matches (s.takeOwned r owned).2 (t.takeOwned r owned).2 := by
    refine h.atActor r Table.empty fun a b hab => ⟨?_, ?_⟩
    · cases hab
      rfl
    · exact hab.alike (fun a => { a with dispatch.hand := a.dispatch.hand.without owned })
        (fun _ _ _ => rfl) id id
  unfold execute
  dsimp only
  rw [← htake.1]
  exact push_matches htake.2 target _

theorem request_matches (h : Matches s t) (r : ActorRef) (name : String) (args : Args) :
    Matches (s.request r name args).2 (t.request r name args).2 := by
  unfold request
  cases ha : s.actor? r with
  | none =>
    rw [h.none ha]
    exact h
  | some a =>
    obtain ⟨b, hb, hab⟩ := h.some ha
    have hrefuses : b.refuses = a.refuses := by
      cases hab
      rfl
    rw [hb]
    dsimp only
    rw [hrefuses]
    split
    · exact h
    · rename_i hopen
      have hcalls : Matches { s with calls := s.calls.push ⟨name, .waiting⟩ }
          { t with calls := s.calls.push ⟨name, .waiting⟩ } :=
        ⟨congrArg (fun u : System κ => { u with calls := s.calls.push ⟨name, .waiting⟩ }) h.shell,
          h.size, h.actors, h.batchSize⟩
      rw [h.calls]
      exact enqueue_matches hcalls ha (by simpa using hopen) _

theorem cancelTimer_matches (h : Matches s t) (r : ActorRef) (id : Timer.TimerId) :
    (s.cancelTimer r id).1 = (t.cancelTimer r id).1 ∧
      Matches (s.cancelTimer r id).2 (t.cancelTimer r id).2 := by
  have hcancel : (s.atActor r (false, []) fun a => a.cancel id).1 =
      (t.atActor r (false, []) fun a => a.cancel id).1 ∧
        Matches (s.atActor r (false, []) fun a => a.cancel id).2
          (t.atActor r (false, []) fun a => a.cancel id).2 := by
    refine h.atActor r (false, []) fun a b hab => ⟨?_, ?_⟩
    · cases hab
      rw [Actor.cancel_holding]
    · have htimers := a.cancel_timers id
      exact hab.alike (fun a => (a.cancel id).2) (fun a _ _ => by rw [a.cancel_holding])
        (fun hd => by rwa [a.cancel_dormant] at hd) fun ht => htimers ▸ ht.delete id
  rw [s.cancelTimer_eq, t.cancelTimer_eq, ← hcancel.1]
  exact ⟨rfl, hcancel.2.giveUpAll _⟩

theorem start_matches (h : Matches s t) (r : ActorRef) :
    (s.start r).1 = (t.start r).1 ∧ Matches (s.start r).2 (t.start r).2 := by
  refine h.atActor r _ fun a b hab => ?_
  rw [h.clock, h.maxDelay]
  have hidle := hab
  cases hab with
  | intro mailbox batch queue pending dormant timers =>
    unfold Actor.start
    cases hd : a.dormant with
    | true =>
      have hstarted := hidle.alike
        (fun a => { a with
          dormant := false, timers := .withMaxDelay s.clock.now s.config.maxDelayMs })
        (fun _ _ _ => rfl) (fun hd => by cases hd) fun _ => Timer.Wheel.idle_withMaxDelay _ _
      simpa [Actor.holding, hd] using hstarted
    | false => simpa [Actor.holding, hd] using hidle

theorem discard_matches (h : Matches s t) (ha : s.actor? r = some a) (hb : t.actor? r = some b)
    (hbatch : a.batch = []) (hbatch' : b.batch = []) : Matches (s.discard r) (t.discard r) := by
  obtain ⟨b₁, hb₁, hab⟩ := h.some ha
  obtain rfl := Option.some.inj (hb.symm.trans hb₁)
  obtain ⟨hevents, hempty⟩ := hab.discard hbatch hbatch'
  simp only [discard, ha, hb]
  rw [hevents]
  exact (h.put ha hempty).giveUpAll _

theorem close_matches (h : Matches s t) (r : ActorRef) : Matches (s.close r) (t.close r) := by
  cases ha : s.actor? r with
  | none =>
    rw [close_absent ha, close_absent (h.none ha)]
    exact h
  | some a =>
    obtain ⟨b, hb, hab⟩ := h.some ha
    have hsame := hab
    cases hab with
    | intro mailbox batch queue pending dormant timers =>
      cases hd : a.dormant with
      | true =>
        have hdormant : (a.holding mailbox batch).dormant = true := hd
        rw [close_dormant ha hd, close_dormant hb hdormant]
        have hput := h.put ha (hsame.alike
          (fun a => { a with dormant := false, closing := true, stirred := true, phase := .closed })
          (fun _ _ _ => rfl) (fun hd => by cases hd) id)
        exact discard_matches hput (Turns.put ha _).actor?_self (Turns.put hb _).actor?_self
          (dormant hd).1 (dormant hd).2
      | false =>
        have hdormant : (a.holding mailbox batch).dormant = false := hd
        rw [close_awake ha hd, close_awake hb hdormant]
        exact h.put ha (hsame.alike (fun a => { a with closing := true, stirred := true })
          (fun _ _ _ => rfl) id id)

theorem registerMessage_matches (h : Matches s t) (r : ActorRef) (proto : UInt32) (handler : κ) :
    (s.registerMessage r proto handler).1 = (t.registerMessage r proto handler).1 ∧
      Matches (s.registerMessage r proto handler).2 (t.registerMessage r proto handler).2 := by
  refine h.atActor r _ fun a b hab => ?_
  have hreg := hab.alike (fun a => (a.registerMessage proto handler).2) ?_ ?_ ?_
  · refine ⟨?_, hreg⟩
    cases hab
    unfold Actor.registerMessage Actor.holding
    split <;> rfl
  · intro a mailbox batch
    unfold Actor.registerMessage Actor.holding
    split <;> rfl
  · cases hc : a.onMessage.contains proto <;> simp [Actor.registerMessage, hc]
  · cases hc : a.onMessage.contains proto <;> simp [Actor.registerMessage, hc]

theorem registerRpc_matches (h : Matches s t) (r : ActorRef) (name : String) (handler : κ) :
    (s.registerRpc r name handler).1 = (t.registerRpc r name handler).1 ∧
      Matches (s.registerRpc r name handler).2 (t.registerRpc r name handler).2 := by
  refine h.atActor r _ fun a b hab => ?_
  have hreg := hab.alike (fun a => (a.registerRpc name handler).2) ?_ ?_ ?_
  · refine ⟨?_, hreg⟩
    cases hab
    unfold Actor.registerRpc Actor.holding
    split <;> rfl
  · intro a mailbox batch
    unfold Actor.registerRpc Actor.holding
    split <;> rfl
  · cases hc : a.onRpc.contains name <;> simp [Actor.registerRpc, hc]
  · cases hc : a.onRpc.contains name <;> simp [Actor.registerRpc, hc]

theorem locate_matches (h : Matches s t) (name : String) : s.locate name = t.locate name := by
  have hnames : t.names = s.names := (congrArg System.names h.shell).symm
  have hask : (fun r => s.ask r false fun a => a.name == name) =
      fun r => t.ask r false fun a => a.name == name := by
    funext r
    refine h.ask r false fun a b hab => ?_
    cases hab
    rfl
  unfold locate refs
  rw [hnames, hask, h.size]

/-- A plain operation has the same answer and the same outcome. -/
theorem perform_matches (self : ActorRef) (o : Op κ) (ho : o.plain = true) (h : Matches s t) :
    (perform self o s).1 = (perform self o t).1 ∧
      Matches (perform self o s).2 (perform self o t).2 := by
  cases o with
  | report what finding =>
    have hname : s.ask self "" Actor.name = t.ask self "" Actor.name := by
      refine h.ask self "" fun a b hab => ?_
      cases hab
      rfl
    refine ⟨rfl, ?_⟩
    simp only [perform]
    rw [hname]
    exact h.note _
  | look =>
    refine ⟨h.map self fun a b hab => ?_, h⟩
    cases hab
    rfl
  | now => exact ⟨congrArg Clock.now h.clock.symm, h⟩
  | put key v =>
    exact ⟨rfl, h.update self fun a b hab =>
      hab.alike (fun a => { a with store := a.store.insert key v }) (fun _ _ _ => rfl) id id⟩
  | lookup key =>
    refine ⟨h.ask self none fun a b hab => ?_, h⟩
    cases hab
    rfl
  | erase key =>
    refine h.atActor self none fun a b hab => ⟨?_, ?_⟩
    · cases hab
      rfl
    · exact hab.alike (fun a => { a with store := a.store.erase key }) (fun _ _ _ => rfl) id id
  | answer vs => exact answerCurrent_matches h self vs
  | keepReply slot => exact keepReply_matches h self slot
  | answerKept slot vs => exact answerKept_matches h self slot vs
  | dropKept slot => exact dropKept_matches h self slot
  | unshelve slot => exact unshelve_matches h self slot
  | shelve slot => exact shelve_matches h self slot
  | release slot => exact release_matches h self slot
  | setTimer => cases ho
  | cancelTimer id => exact cancelTimer_matches h self id
  | timerStats =>
    refine ⟨h.map self fun a b hab => ?_, h⟩
    cases hab
    rfl
  | agent id =>
    refine ⟨h.ask self none fun a b hab => ?_, h⟩
    cases hab
    rfl
  | component id =>
    refine ⟨h.ask self none fun a b hab => ?_, h⟩
    cases hab
    rfl
  | find name => exact ⟨locate_matches h name, h⟩
  | post target p => exact ⟨rfl, push_matches h target _⟩
  | execute target action owned => exact ⟨rfl, execute_matches h self target action owned⟩
  | call target name args =>
    have hid : (s.actor? self).map Actor.id = (t.actor? self).map Actor.id := by
      refine h.map self fun a b hab => ?_
      cases hab
      rfl
    refine ⟨rfl, ?_⟩
    simp only [perform]
    rw [hid]
    exact push_matches h target _
  | await target name args => exact ⟨rfl, h⟩
  | registerMessage target proto handler => exact registerMessage_matches h target proto handler
  | registerRpc target name handler => exact registerRpc_matches h target name handler
  | start target => exact start_matches h target
  | close target => exact ⟨rfl, close_matches h target⟩
  | inspect target =>
    refine ⟨h.map target fun a b hab => ?_, h⟩
    cases hab
    rfl
  | backlog target => cases ho

/-- Code that keeps to plain operations cannot tell matching systems apart. -/
theorem exec_matches {α : Type} (r : ActorRef) (p : Prog κ α) (h : Matches s t)
    (hplain : ∀ d ∈ doings r p s, d.op.plain = true) :
    doings r p s = doings r p t ∧ (exec r p s).1 = (exec r p t).1 ∧
      Matches (exec r p s).2 (exec r p t).2 := by
  induction p generalizing s t with
  | pure x => exact ⟨rfl, rfl, h⟩
  | panic => exact ⟨rfl, rfl, h⟩
  | op o next ih =>
    obtain ⟨hanswer, hnext⟩ := perform_matches r o (hplain _ List.mem_cons_self) h
    have hrest := ih (perform r o s).1 hnext fun d hd => hplain d (List.mem_cons_of_mem _ hd)
    simp only [doings, exec]
    rw [← hanswer]
    exact ⟨congrArg _ hrest.1, hrest.2⟩

end System

/-- All that it does is plain, and it does not make a batch be dropped. -/
def Deed.Plain (policy : RestartPolicy) (d : Deed κ) : Prop :=
  (∀ x ∈ d.done, x.op.plain = true) ∧ (policy = .requeueRemaining ∨ d.returned = true)

namespace System

variable {s t : System κ} {r : ActorRef} {a b : Actor κ}

theorem receive_matches (h : Matches s t) (r : ActorRef) (e : Event κ) :
    (s.receive r e).1 = (t.receive r e).1 ∧ Matches (s.receive r e).2 (t.receive r e).2 := by
  unfold receive
  cases ha : s.actor? r with
  | none =>
    rw [h.none ha]
    exact ⟨rfl, h⟩
  | some a =>
    obtain ⟨b, hb, hab⟩ := h.some ha
    have hdormant : (a.react e).actor.dormant = a.dormant :=
      congrArg Ledger.dormant (a.react_ledger e [])
    have hput := h.put ha (hab.alike (fun a => (a.react e).actor)
      (fun a mailbox batch => by rw [a.react_holding e mailbox batch]) (fun hd => hdormant ▸ hd)
      (fun ht => by rwa [a.react_timers e]))
    have hsame : (b.react e).work = (a.react e).work ∧ (b.react e).started = (a.react e).started ∧
        (b.react e).unanswered = (a.react e).unanswered := by
      cases hab with
      | intro mailbox batch =>
        rw [a.react_holding e mailbox batch]
        exact ⟨rfl, rfl, rfl⟩
    obtain ⟨hwork, hstarted, hunanswered⟩ := hsame
    rw [hb]
    dsimp only
    rw [hwork, hstarted, hunanswered]
    refine ⟨rfl, ?_⟩
    cases (a.react e).started with
    | none => cases (a.react e).unanswered with
      | none => exact hput
      | some c => exact (hput.settle c .dropped).2
    | some i => cases (a.react e).unanswered with
      | none => exact hput.note _
      | some c => exact ((hput.note _).settle c .dropped).2

theorem reset_matches (h : Matches s t) (r : ActorRef) : Matches (s.reset r) (t.reset r) := by
  have htake : (s.atActor r [] fun a => (a.dispatch.replies, { a with dispatch := .idle })).1 =
      (t.atActor r [] fun a => (a.dispatch.replies, { a with dispatch := .idle })).1 ∧
        Matches (s.atActor r [] fun a => (a.dispatch.replies, { a with dispatch := .idle })).2
          (t.atActor r [] fun a => (a.dispatch.replies, { a with dispatch := .idle })).2 := by
    refine h.atActor r [] fun a b hab => ⟨?_, ?_⟩
    · cases hab
      rfl
    · exact hab.alike (fun a => { a with dispatch := .idle }) (fun _ _ _ => rfl) id id
  unfold reset
  dsimp only
  rw [← htake.1]
  exact htake.2.giveUpAll _

theorem recover_matches (h : Matches s t) (hp : s.config.restartPolicy = .requeueRemaining)
    (r : ActorRef) : Matches (s.recover r) (t.recover r) := by
  have hrestart : Matches
      (s.update r fun a =>
        { a with phase := .restarting, restarts := a.restarts + 1, timers := a.timers.finish })
      (t.update r fun a =>
        { a with phase := .restarting, restarts := a.restarts + 1, timers := a.timers.finish }) :=
    h.update r fun a b hab => hab.alike
      (fun a =>
        { a with phase := .restarting, restarts := a.restarts + 1, timers := a.timers.finish })
      (fun _ _ _ => rfl) id fun ht => ht.finish
  have hreset := reset_matches hrestart r
  have hconfig := (reset_spares (s.update r fun a =>
    { a with phase := .restarting, restarts := a.restarts + 1, timers := a.timers.finish }) r).config
  have hpolicy := (congrArg Config.restartPolicy hconfig).trans hp
  unfold recover
  dsimp only
  rw [hreset.policy, hpolicy]
  exact hreset.update r fun a b hab =>
    hab.alike (fun a => { a with phase := .running }) (fun _ _ _ => rfl) id id

theorem afterEvent_matches (h : Matches s t) (r : ActorRef) {returned : Bool}
    (hp : s.config.restartPolicy = .requeueRemaining ∨ returned = true) :
    Matches (s.afterEvent r returned) (t.afterEvent r returned) := by
  unfold afterEvent
  split
  · exact (reset_matches h r).update r fun a b hab =>
      hab.alike (fun a => { a with processed := a.processed + 1 }) (fun _ _ _ => rfl) id id
  · rename_i hfailed
    exact recover_matches h (hp.resolve_right hfailed) r

theorem queue_matches (h : Matches s t) (r : ActorRef) :
    s.ask r [] Actor.queue = t.ask r [] Actor.queue :=
  h.ask r [] fun _ _ hab => hab.queue_eq.symm

theorem deed_matches {s' t' : System κ} (h : Matches s t) (h' : Matches s' t') (r : ActorRef)
    (cause : Cause κ) (p : Prog κ Unit) (hplain : ∀ x ∈ doings r p s, x.op.plain = true) :
    deed r cause p s s' = deed r cause p t t' := by
  obtain ⟨hdone, hresult, -⟩ := exec_matches r p h hplain
  have hscene : (s.actor? r).map Actor.glimpse = (t.actor? r).map Actor.glimpse := by
    refine h.map r fun a b hab => ?_
    cases hab
    rfl
  unfold deed
  rw [hdone, hresult, hscene, h.clock, queue_matches h r, queue_matches h' r]

/-- The batch of an actor that has been started is not empty unless the whole queue is. -/
def Topped (s : System κ) (r : ActorRef) : Prop :=
  ∀ a, s.actor? r = some a → a.dormant = false → a.batch = [] → a.mailbox.toList = []

/-- An empty batch stays empty only if there is no event at all. -/
theorem Topped.batch_nil (hs : s.Topped r) (ha : s.actor? r = some a) (hab : a.Matches b)
    (hbatch : a.batch = []) : b.batch = [] := by
  have hqueue := hab.queue_eq
  cases hd : a.dormant with
  | true =>
    cases hab with
    | intro mailbox batch queue pending dormant timers => exact (dormant hd).2
  | false =>
    rw [hbatch, hs a ha hd hbatch] at hqueue
    exact (List.append_eq_nil_iff.1 hqueue).1

theorem dispatchNext_matches {code : κ → Invocation → Prog κ Unit} (h : Matches s t)
    (hs : s.Topped r) (ht : t.Topped r)
    (hplain : ∀ d ∈ nextDeeds code r s, d.Plain s.config.restartPolicy) :
    nextDeeds code r s = nextDeeds code r t ∧
      Matches (dispatchNext code r s) (dispatchNext code r t) := by
  cases ha : s.actor? r with
  | none => simp [nextDeeds, dispatchNext, ha, h.none ha, h]
  | some a =>
    obtain ⟨b, hb, hab⟩ := h.some ha
    have hqueue := hab.queue_eq
    cases hbatch : a.batch with
    | nil =>
      have hbatch' : b.batch = [] := hs.batch_nil ha hab hbatch
      simp [nextDeeds, dispatchNext, ha, hb, hbatch, hbatch', h]
    | cons e rest =>
      obtain ⟨rest', hbatch'⟩ : ∃ rest', b.batch = e :: rest' := by
        cases hb' : b.batch with
        | nil =>
          rw [ht.batch_nil hb hab.symm hb'] at hbatch
          cases hbatch
        | cons e' rest' =>
          rw [hb', hbatch] at hqueue
          exact ⟨rest', by rw [(List.cons.inj hqueue).1]⟩
      have hpop : Actor.Matches { a with batch := rest } { b with batch := rest' } := by
        rw [hbatch, hbatch'] at hqueue
        cases hab with
        | intro mailbox batch queue pending dormant timers =>
          refine .intro (a := { a with batch := rest }) mailbox rest' (List.cons.inj hqueue).2
            pending (fun hd => ?_) timers
          rw [(dormant hd).1] at hbatch
          cases hbatch
      obtain ⟨hwork, hreceive⟩ := receive_matches (h.put ha hpop) r e
      have hreceived : Spares (fun _ => ()) (s.put r { a with batch := rest })
          ((s.put r { a with batch := rest }).receive r e).2 := receive_spares _ r e fun _ => rfl
      have hconfig : ((s.put r { a with batch := rest }).receive r e).2.config = s.config :=
        hreceived.config
      have hs' := dispatchNext_cons code ha hbatch
      have ht' := dispatchNext_cons code hb hbatch'
      simp only [nextDeeds, ha, hbatch, hb, hbatch'] at hplain ⊢
      generalize dispatchNext code r s = s' at hplain hs' ⊢
      generalize dispatchNext code r t = t' at ht' ⊢
      generalize (s.put r { a with batch := rest }).receive r e = p
        at hplain hwork hreceive hconfig hs' ⊢
      generalize (t.put r { b with batch := rest' }).receive r e = q at hwork hreceive ht' ⊢
      obtain ⟨w, s₁⟩ := p
      obtain ⟨w', t₁⟩ := q
      dsimp only at hplain hwork hreceive hconfig hs' ht' ⊢
      subst hwork
      obtain ⟨hops, hpolicy⟩ := hplain _ (List.mem_singleton_self _)
      obtain ⟨-, hresult, hexec⟩ := exec_matches r (w.prog code) hreceive hops
      rw [← hresult] at ht'
      have hnext : Matches s' t' := by
        rw [hs', ht']
        refine afterEvent_matches hexec r ?_
        rw [(exec_spares r (w.prog code) s₁).config, hconfig]
        exact hpolicy
      exact ⟨by rw [deed_matches hreceive hnext r _ _ hops], hnext⟩

end System

end ActorSystem
