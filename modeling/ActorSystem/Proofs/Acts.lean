import ActorSystem.Proofs.Lifecycle
import ActorSystem.Proofs.Renumbering

set_option autoImplicit false

namespace ActorSystem

variable {κ : Type}

/-- What is done to one actor: what becomes of it, and the calls that are settled. -/
abbrev Act (κ : Type) := Actor κ → Actor κ × List (CallRef × CallState)

namespace Act

/-- The numbers of calls are carried around and not looked at, and the name stays. -/
structure Blind (act : Act κ) : Prop where
  renumber : ∀ f a, act (a.renumber f) = ((act a).1.renumber f, (act a).2.map (Prod.map f id))
  name : ∀ a, (act a).1.name = a.name

def write (g : Actor κ → Actor κ) : Act κ := fun a => (g a, [])

def andThen (act act' : Act κ) : Act κ := fun a =>
  ((act' (act a).1).1, (act a).2 ++ (act' (act a).1).2)

namespace Blind

variable {act act' : Act κ} {a : Actor κ} {c : CallRef}

theorem write {g : Actor κ → Actor κ} (hg : ∀ f a, g (a.renumber f) = (g a).renumber f)
    (hname : ∀ a, (g a).name = a.name) : Blind (Act.write g) :=
  ⟨fun f a => by simp only [Act.write, hg, List.map_nil], hname⟩

theorem andThen (h : Blind act) (h' : Blind act') : Blind (Act.andThen act act') := by
  refine ⟨fun f a => ?_, fun a => (h'.name _).trans (h.name a)⟩
  simp only [Act.andThen, h.renumber, h'.renumber, List.map_append]

theorem apart (hc : c ∉ a.ledger.senders) :
    a.renumber id = a.renumber (Function.update id c (c + 1)) := by
  refine Actor.renumber_eq_iff.2 fun d hd => ?_
  have hne : d ≠ c := fun heq => hc (heq ▸ hd)
  rw [Function.update_of_ne hne]

theorem renumber_id (h : Blind act) (hc : c ∉ a.ledger.senders) :
    (act a).1.renumber id = (act a).1.renumber (Function.update id c (c + 1)) ∧
      (act a).2.map (Prod.map id id) = (act a).2.map (Prod.map (Function.update id c (c + 1)) id) := by
  have hsame := congrArg act (apart hc)
  rw [h.renumber, h.renumber] at hsame
  exact Prod.mk.inj hsame

theorem senders (h : Blind act) (hc : c ∈ (act a).1.ledger.senders) : c ∈ a.ledger.senders := by
  by_contra hnot
  have heq := Actor.renumber_eq_iff.1 (h.renumber_id hnot).1 c hc
  rw [id_eq, Function.update_self] at heq
  exact Nat.succ_ne_self c heq.symm

theorem settles (h : Blind act) {x : CallRef × CallState} (hx : x ∈ (act a).2) :
    x.1 ∈ a.ledger.senders := by
  by_contra hnot
  have heq := congrArg Prod.fst (List.map_inj_left.1 (h.renumber_id hnot).2 x hx)
  simp only [Prod.map_fst, id_eq, Function.update_self] at heq
  exact Nat.succ_ne_self _ heq.symm

end Blind

theorem drops_renumber (f : CallRef → CallRef) (cs : List CallRef) :
    drops (cs.map f) = (drops cs).map (Prod.map f id) := by
  simp [drops, Function.comp_def]

theorem toList_renumber (f : CallRef → CallRef) (c : Option CallRef) :
    (c.map f).toList = c.toList.map f := by
  cases c <;> rfl

def wake : Act κ := write fun a => { a with phase := .running, mailbox := a.mailbox.recv.2.rearm }

def sleep : Act κ := write fun a => { a with stirred := false }

def take (max : Nat) : Act κ := write fun a =>
  { a with mailbox := (a.mailbox.take max).2, batch := a.batch ++ (a.mailbox.take max).1.items }

def opening (a : Actor κ) : Option (Reaction κ) :=
  match a.batch with
  | [] => none
  | e :: rest => some ({ a with batch := rest }.react e)

def begin : Act κ := fun a =>
  match opening a with
  | none => (a, [])
  | some x => (x.actor, drops x.unanswered.toList)

def reset : Act κ := fun a => ({ a with dispatch := .idle }, drops a.dispatch.replies)

def complete : Act κ := reset.andThen (write fun a => { a with processed := a.processed + 1 })

def dropBatch : Act κ := fun a => ({ a with batch := [] }, drops (callsOf a.batch))

def recover (policy : RestartPolicy) : Act κ :=
  (write fun a =>
    { a with phase := .restarting, restarts := a.restarts + 1, timers := a.timers.finish })
  |>.andThen reset
  |>.andThen (match policy with | .dropBatch => dropBatch | .requeueRemaining => write id)
  |>.andThen (write fun a => { a with phase := .running })

def poll (now : UInt64) : Act κ := write fun a => (a.expire now).2

def fired : Act κ := (write fun a => { a with timers := a.timers.finish }).andThen reset

def pause (now : UInt64) : Act κ := write fun a =>
  if a.timers.nextWake now = some 0 then a else { a with mailbox := a.mailbox.announce.2 }

def discard : Act κ := fun a =>
  ({ a with mailbox := a.mailbox.discard.2 }, drops (callsOf a.mailbox.discard.1))

def leave : Act κ := fun a =>
  ({ a with kept := .empty, purses := [] }, drops (a.kept.values ++ pursesOf a.purses))

def vacate : Act κ :=
  (write fun a =>
    { a with agents := .empty, components := .empty, managers := .empty, phase := .closed })
  |>.andThen discard
  |>.andThen leave

theorem wake_blind : Blind (wake : Act κ) :=
  .write (fun f a => by simp only [Actor.renumber, EventQueue.map_awake]) fun _ => rfl

theorem sleep_blind : Blind (sleep : Act κ) := .write (fun _ _ => rfl) fun _ => rfl

theorem take_blind (max : Nat) : Blind (take max : Act κ) :=
  .write (fun f a => by simp only [Actor.renumber, EventQueue.map_take, List.map_append]) fun _ => rfl

theorem opening_renumber (f : CallRef → CallRef) (a : Actor κ) :
    opening (a.renumber f) = (opening a).map fun x =>
      { x with actor := x.actor.renumber f, unanswered := x.unanswered.map f } := by
  cases hb : a.batch with
  | nil =>
    have hb' : (a.renumber f).batch = [] := by simp [Actor.renumber, hb]
    simp only [opening, hb, hb', Option.map_none]
  | cons e rest =>
    have hb' : (a.renumber f).batch = e.renumber f :: rest.map (Event.renumber f) := by
      simp [Actor.renumber, hb]
    simp only [opening, hb, hb', Option.map_some]
    exact congrArg some (Actor.react_renumber f { a with batch := rest } e)

theorem begin_blind : Blind (begin : Act κ) := by
  refine ⟨fun f a => ?_, fun a => ?_⟩
  · unfold begin
    rw [opening_renumber]
    cases opening a with
    | none => rfl
    | some x =>
      simp only [Option.map_some, toList_renumber, drops_renumber]
  · unfold begin opening
    cases a.batch with
    | nil => rfl
    | cons e rest => exact congrArg Life.name (Actor.react_life { a with batch := rest } e)

theorem reset_blind : Blind (reset : Act κ) := by
  refine ⟨fun f a => ?_, fun _ => rfl⟩
  have hreplies : (a.renumber f).dispatch.replies = a.dispatch.replies.map f := by
    simp only [Dispatch.replies, List.map_append, ← toList_renumber, ← Table.values_map]
    rfl
  unfold reset
  rw [hreplies, drops_renumber]
  rfl

theorem complete_blind : Blind (complete : Act κ) :=
  reset_blind.andThen (.write (fun _ _ => rfl) fun _ => rfl)

theorem dropBatch_blind : Blind (dropBatch : Act κ) := by
  refine ⟨fun f a => ?_, fun _ => rfl⟩
  have hbatch : (a.renumber f).batch = a.batch.map (Event.renumber f) := rfl
  unfold dropBatch
  rw [hbatch, callsOf_renumber, drops_renumber]
  rfl

theorem recover_blind (policy : RestartPolicy) : Blind (recover policy : Act κ) := by
  have hrestart : Blind ((write fun a =>
      { a with phase := .restarting, restarts := a.restarts + 1, timers := a.timers.finish } : Act κ)) :=
    .write (fun _ _ => rfl) fun _ => rfl
  refine ((hrestart.andThen reset_blind).andThen ?_).andThen (.write (fun _ _ => rfl) fun _ => rfl)
  cases policy with
  | dropBatch => exact dropBatch_blind
  | requeueRemaining => exact .write (fun _ _ => rfl) fun _ => rfl

theorem expire_renumber (f : CallRef → CallRef) (a : Actor κ) (now : UInt64) :
    ((a.renumber f).expire now).2 = (a.expire now).2.renumber f := by
  have htimers : (a.renumber f).timers = a.timers := rfl
  unfold Actor.expire
  simp only [Actor.purse_renumber]
  rw [htimers]
  generalize a.timers.poll now = p
  obtain ⟨_ | e, timers⟩ := p
  · rfl
  · simp only [Actor.renumber, eraseP_renumberPurses]

theorem poll_blind (now : UInt64) : Blind (poll now : Act κ) :=
  .write (fun f a => expire_renumber f a now) fun a => congrArg Life.name (a.expire_life now)

theorem fired_blind : Blind (fired : Act κ) :=
  Blind.andThen (.write (fun _ _ => rfl) fun _ => rfl) reset_blind

theorem pause_blind (now : UInt64) : Blind (pause now : Act κ) := by
  refine .write (fun f a => ?_) fun a => ?_
  · have hwheel : (a.renumber f).timers = a.timers := rfl
    rw [hwheel]
    split
    · rfl
    · simp only [Actor.renumber, EventQueue.map_announce]
  · split <;> rfl

theorem discard_blind : Blind (discard : Act κ) := by
  refine ⟨fun f a => ?_, fun _ => rfl⟩
  have hbox : (a.renumber f).mailbox = a.mailbox.map (Event.renumber f) := rfl
  unfold discard
  rw [hbox, EventQueue.map_discard]
  dsimp only
  rw [callsOf_renumber, drops_renumber]
  rfl

theorem leave_blind : Blind (leave : Act κ) := by
  refine ⟨fun f a => ?_, fun _ => rfl⟩
  have hkept : (a.renumber f).kept.values = a.kept.values.map f := a.kept.values_map f
  have hpurses : pursesOf (a.renumber f).purses = (pursesOf a.purses).map f :=
    pursesOf_renumber f a.purses
  unfold leave
  rw [hkept, hpurses, ← List.map_append, drops_renumber]
  rfl

theorem vacate_blind : Blind (vacate : Act κ) := by
  have hclear : Blind ((write fun a =>
      { a with agents := .empty, components := .empty, managers := .empty, phase := .closed } : Act κ)) :=
    .write (fun _ _ => rfl) fun _ => rfl
  exact (hclear.andThen discard_blind).andThen leave_blind

end Act

/-- The actor that an operation is about, unless it is about the one that performs it. -/
def Op.aims : Op κ → Option ActorRef
  | .post r _ | .execute r _ _ | .call r _ _ | .registerMessage r _ _ | .registerRpc r _ _ | .start r
  | .close r => some r
  | _ => none

def Op.place (self : ActorRef) (o : Op κ) : ActorRef := o.aims.getD self

def Op.crosses (self : ActorRef) : Op κ → Bool
  | .execute target _ _ => target != self
  | _ => false

namespace Act

def answer (vs : List Value) : Act κ := fun a =>
  ({ a with dispatch.reply := none }, a.dispatch.reply.toList.map fun c => (c, .answered vs))

def keepReply (slot : String) : Act κ := fun a =>
  match a.dispatch.reply with
  | none => (a, [])
  | some c =>
    ({ a with dispatch.reply := none, kept := (a.kept.erase slot).insert slot c },
      drops (a.kept.get? slot).toList)

def useKept (slot : String) (state : CallState) : Act κ := fun a =>
  ({ a with kept := a.kept.erase slot }, (a.kept.get? slot).toList.map fun c => (c, state))

def unshelve (slot : String) : Act κ := fun a =>
  match a.kept.get? slot with
  | none => (a, [])
  | some c =>
    ({ a with
        kept := a.kept.erase slot, dispatch.hand := (a.dispatch.hand.erase slot).insert slot c },
      drops (a.dispatch.hand.get? slot).toList)

def shelve (slot : String) : Act κ := fun a =>
  match a.dispatch.hand.get? slot with
  | none => (a, [])
  | some c =>
    ({ a with
        dispatch.hand := a.dispatch.hand.erase slot, kept := (a.kept.erase slot).insert slot c },
      drops (a.kept.get? slot).toList)

def release (slot : String) : Act κ :=
  write fun a => { a with dispatch.hand := a.dispatch.hand.erase slot }

def entrust (owned : List String) : Act κ :=
  write fun a => { a with dispatch.hand := a.dispatch.hand.without owned }

def cancel (id : Timer.TimerId) : Act κ := fun a => ((a.cancel id).2, drops (a.cancel id).1.2)

def accept (e : Event κ) : Act κ := fun a =>
  if a.refuses then (a, drops e.calls) else (a.enqueue e, [])

def enlist (action : κ) (owned : List String) : Act κ := fun a =>
  accept (.errand action (a.dispatch.hand.only owned)) (entrust owned a).1

def close : Act κ := fun a =>
  if a.dormant then
    (write fun a => { a with dormant := false, closing := true, stirred := true, phase := .closed })
      |>.andThen discard <| a
  else ({ a with closing := true, stirred := true }, [])

end Act

open Act in
def Op.act (now maxDelay : UInt64) (sender : Option ActorId) : Op κ → Act κ
  | .put key v => write fun a => { a with store := a.store.insert key v }
  | .erase key => write fun a => { a with store := a.store.erase key }
  | .answer vs => Act.answer vs
  | .keepReply slot => Act.keepReply slot
  | .answerKept slot vs => useKept slot (.answered vs)
  | .dropKept slot => useKept slot .dropped
  | .unshelve slot => Act.unshelve slot
  | .shelve slot => Act.shelve slot
  | .release slot => Act.release slot
  | .setTimer delay callback args owned =>
    write fun a => (a.schedule now delay ⟨callback, args⟩ owned).2
  | .cancelTimer id => Act.cancel id
  | .post _ p => accept (.post p)
  | .execute _ action owned => enlist action owned
  | .call _ name args => accept (.post (.rpc ⟨sender, name, args⟩))
  | .registerMessage _ proto handler => write fun a => (a.registerMessage proto handler).2
  | .registerRpc _ name handler => write fun a => (a.registerRpc name handler).2
  | .start _ => write fun a => (a.start now maxDelay).2
  | .close _ => Act.close
  | _ => write id

namespace Act

theorem answer_blind (vs : List Value) : Blind (answer vs : Act κ) := by
  refine ⟨fun f a => ?_, fun _ => rfl⟩
  have hreply : (a.renumber f).dispatch.reply = a.dispatch.reply.map f := rfl
  unfold answer
  rw [hreply, toList_renumber, List.map_map, List.map_map]
  rfl

theorem keepReply_blind (slot : String) : Blind (keepReply slot : Act κ) := by
  refine ⟨fun f a => ?_, fun a => ?_⟩
  · have hreply : (a.renumber f).dispatch.reply = a.dispatch.reply.map f := rfl
    have hkept : (a.renumber f).kept = a.kept.map f := rfl
    unfold keepReply
    rw [hreply, hkept]
    cases a.dispatch.reply with
    | none => rfl
    | some c =>
      simp only [Option.map_some, Table.erase_map, Table.insert_map, Table.get?_map,
        toList_renumber, drops_renumber]
      rfl
  · unfold keepReply
    cases a.dispatch.reply <;> rfl

theorem useKept_blind (slot : String) (state : CallState) : Blind (useKept slot state : Act κ) := by
  refine ⟨fun f a => ?_, fun _ => rfl⟩
  have hkept : (a.renumber f).kept = a.kept.map f := rfl
  unfold useKept
  rw [hkept, Table.erase_map, Table.get?_map, toList_renumber, List.map_map, List.map_map]
  rfl

theorem unshelve_blind (slot : String) : Blind (unshelve slot : Act κ) := by
  refine ⟨fun f a => ?_, fun a => ?_⟩
  · have hkept : (a.renumber f).kept = a.kept.map f := rfl
    have hhand : (a.renumber f).dispatch.hand = a.dispatch.hand.map f := rfl
    unfold unshelve
    rw [hkept, hhand, Table.get?_map]
    cases a.kept.get? slot with
    | none => rfl
    | some c =>
      simp only [Option.map_some, Table.erase_map, Table.insert_map, Table.get?_map,
        toList_renumber, drops_renumber]
      rfl
  · unfold unshelve
    cases a.kept.get? slot <;> rfl

theorem shelve_blind (slot : String) : Blind (shelve slot : Act κ) := by
  refine ⟨fun f a => ?_, fun a => ?_⟩
  · have hkept : (a.renumber f).kept = a.kept.map f := rfl
    have hhand : (a.renumber f).dispatch.hand = a.dispatch.hand.map f := rfl
    unfold shelve
    rw [hkept, hhand, Table.get?_map]
    cases a.dispatch.hand.get? slot with
    | none => rfl
    | some c =>
      simp only [Option.map_some, Table.erase_map, Table.insert_map, Table.get?_map,
        toList_renumber, drops_renumber]
      rfl
  · unfold shelve
    cases a.dispatch.hand.get? slot <;> rfl

theorem release_blind (slot : String) : Blind (release slot : Act κ) := by
  refine .write (fun f a => ?_) fun _ => rfl
  have hhand : (a.renumber f).dispatch.hand = a.dispatch.hand.map f := rfl
  rw [hhand, Table.erase_map]
  rfl

theorem entrust_blind (owned : List String) : Blind (entrust owned : Act κ) := by
  refine .write (fun f a => ?_) fun _ => rfl
  have hhand : (a.renumber f).dispatch.hand = a.dispatch.hand.map f := rfl
  rw [hhand, Table.without, Table.filter_map]
  rfl

theorem schedule_blind (now delay : UInt64) (task : Task κ) (owned : List String) :
    Blind ((write fun a => (a.schedule now delay task owned).2 : Act κ)) := by
  refine .write (fun f a => ?_) fun _ => rfl
  have hhand : (a.renumber f).dispatch.hand = a.dispatch.hand.map f := rfl
  unfold Actor.schedule
  rw [hhand, Table.without, Table.only, Table.filter_map, Table.filter_map]
  simp only [Actor.renumber, renumberPurses, List.map_append]
  rfl

theorem cancel_blind (id : Timer.TimerId) : Blind (cancel id : Act κ) := by
  refine ⟨fun f a => ?_, fun a => ?_⟩
  · have htimers : (a.renumber f).timers = a.timers := rfl
    unfold cancel Actor.cancel
    simp only [Actor.purse_renumber]
    rw [htimers]
    generalize a.timers.delete id = p
    obtain ⟨b, timers⟩ := p
    dsimp only
    split
    · simp only [Actor.renumber, eraseP_renumberPurses, Table.values_map, drops_renumber]
    · rfl
  · unfold cancel Actor.cancel
    generalize a.timers.delete id = p
    obtain ⟨b, timers⟩ := p
    dsimp only
    split <;> rfl

theorem accept_renumber (f : CallRef → CallRef) (e : Event κ) (a : Actor κ) :
    accept (e.renumber f) (a.renumber f) =
      ((accept e a).1.renumber f, (accept e a).2.map (Prod.map f id)) := by
  have hrefuses : (a.renumber f).refuses = a.refuses := rfl
  unfold accept
  rw [hrefuses, e.calls_renumber, drops_renumber, ← a.enqueue_renumber]
  split <;> rfl

theorem accept_name (e : Event κ) (a : Actor κ) : (accept e a).1.name = a.name := by
  unfold accept
  split <;> rfl

theorem accept_blind (p : Post κ) : Blind (accept (.post p) : Act κ) :=
  ⟨fun f => accept_renumber f (.post p), accept_name _⟩

theorem enlist_blind (action : κ) (owned : List String) : Blind (enlist action owned : Act κ) := by
  refine ⟨fun f a => ?_, fun a => accept_name _ _⟩
  have hevent : (Event.errand action ((a.renumber f).dispatch.hand.only owned)) =
      (Event.errand action (a.dispatch.hand.only owned)).renumber f := by
    have hhand : (a.renumber f).dispatch.hand = a.dispatch.hand.map f := rfl
    rw [hhand, Table.only, Table.filter_map]
    rfl
  unfold enlist
  rw [hevent, (entrust_blind owned).renumber, accept_renumber]

theorem close_blind : Blind (close : Act κ) := by
  have htold : Blind ((write fun a =>
      { a with dormant := false, closing := true, stirred := true, phase := .closed } : Act κ)) :=
    .write (fun _ _ => rfl) fun _ => rfl
  refine ⟨fun f a => ?_, fun a => ?_⟩
  · have hdormant : (a.renumber f).dormant = a.dormant := rfl
    simp only [close, hdormant]
    split
    · exact (htold.andThen discard_blind).renumber f a
    · rfl
  · simp only [close]
    split <;> rfl

theorem op_blind (now maxDelay : UInt64) (sender : Option ActorId) (o : Op κ) :
    Blind (o.act now maxDelay sender) := by
  cases o with
  | answer vs => exact answer_blind vs
  | keepReply slot => exact keepReply_blind slot
  | answerKept slot vs => exact useKept_blind slot _
  | dropKept slot => exact useKept_blind slot _
  | unshelve slot => exact unshelve_blind slot
  | shelve slot => exact shelve_blind slot
  | release slot => exact release_blind slot
  | setTimer delay callback args owned => exact schedule_blind now delay _ owned
  | cancelTimer id => exact cancel_blind id
  | post target p => exact accept_blind p
  | execute target action owned => exact enlist_blind action owned
  | call target name args => exact accept_blind _
  | close target => exact close_blind
  | registerMessage target proto handler =>
    refine .write (fun f a => ?_) fun a => ?_
    · have hcontains : (a.renumber f).onMessage.contains proto = a.onMessage.contains proto := rfl
      simp only [Actor.registerMessage, hcontains]
      split <;> rfl
    · unfold Actor.registerMessage
      split <;> rfl
  | registerRpc target name handler =>
    refine .write (fun f a => ?_) fun a => ?_
    · have hcontains : (a.renumber f).onRpc.contains name = a.onRpc.contains name := rfl
      simp only [Actor.registerRpc, hcontains]
      split <;> rfl
    · unfold Actor.registerRpc
      split <;> rfl
  | start target =>
    refine .write (fun f a => ?_) fun a => ?_
    · have hdormant : (a.renumber f).dormant = a.dormant := rfl
      simp only [Actor.start, hdormant]
      split <;> rfl
    · unfold Actor.start
      split <;> rfl
  | _ => exact .write (fun _ _ => rfl) fun _ => rfl

end Act

namespace System

variable {act act' : Act κ} {s s' s'' : System κ} {r : ActorRef} {a : Actor κ}

/-- The act is done to the actor, and nothing else happens but in the journal. -/
structure Does (act : Act κ) (r : ActorRef) (s s' : System κ) : Prop where
  actor : s'.actor? = Function.update s.actor? r ((s.actor? r).map fun a => (act a).1)
  calls : s'.calls = settleAll s.calls ((s.actor? r).elim [] fun a => (act a).2)
  outline : s'.outline = s.outline

namespace Does

theorem absent (ha : s.actor? r = none) : Does act r s s := by
  refine ⟨?_, ?_, rfl⟩
  · rw [ha, Option.map_none, Function.update_eq_self_iff.2 ha.symm]
  · rw [ha]
    rfl

theorem of_turns {a' : Actor κ} {xs : List (CallRef × CallState)} (ha : s.actor? r = some a)
    (ht : Turns s s' r a' xs) (hact : act a = (a', xs)) (ho : s'.outline = s.outline) :
    Does act r s s' := by
  refine ⟨?_, ?_, ho⟩
  · rw [ht.actor, ha, Option.map_some, hact]
  · rw [ht.calls, ha, Option.elim_some, hact]

/-- It is said for an actor that is there, since otherwise nothing happens. -/
theorem of_some (hnone : s.actor? r = none → s' = s)
    (hsome : ∀ a, s.actor? r = some a → Does act r s s') : Does act r s s' := by
  cases ha : s.actor? r with
  | none =>
    rw [hnone ha]
    exact .absent ha
  | some a => exact hsome a ha

theorem andThen (h : Does act r s s') (h' : Does act' r s' s'') :
    Does (Act.andThen act act') r s s'' := by
  have hr : s'.actor? r = (s.actor? r).map fun a => (act a).1 := by
    rw [h.actor, Function.update_self]
  refine ⟨?_, ?_, h'.outline.trans h.outline⟩
  · rw [h'.actor, hr, h.actor, Function.update_idem, Option.map_map]
    rfl
  · rw [h'.calls, hr, h.calls]
    cases s.actor? r with
    | none => rfl
    | some a => simp only [Option.map_some, Option.elim_some, settleAll, Act.andThen, List.foldl_append]

theorem put (ha : s.actor? r = some a) (g : Actor κ → Actor κ) :
    Does (Act.write g) r s (s.put r (g a)) :=
  .of_turns ha (.put ha _) rfl (Spares.put (π := fun _ => ()) ha rfl).outline

theorem update (s : System κ) (r : ActorRef) (g : Actor κ → Actor κ) :
    Does (Act.write g) r s (s.update r g) :=
  .of_some (fun ha => update_absent ha g) fun _ ha =>
    .of_turns ha (.update ha g) rfl (Spares.update (π := fun _ => ()) s r g fun _ => rfl).outline

theorem atActor {α : Type} (s : System κ) (r : ActorRef) (absent : α) {F : Actor κ → α × Actor κ}
    {g : Actor κ → Actor κ} (hg : ∀ a, (F a).2 = g a) :
    Does (Act.write g) r s (s.atActor r absent F).2 := by
  refine .of_some (fun ha => by rw [atActor_absent ha]) fun a ha => ?_
  rw [atActor_eq ha, hg]
  exact .put ha g

theorem refl (s : System κ) (r : ActorRef) : Does (Act.write id) r s s :=
  .of_some (fun _ => rfl) fun _ ha => .of_turns ha (.refl ha) rfl rfl

end Does

theorem wake_does (s : System κ) (r : ActorRef) : Does Act.wake r s (s.wake r) := .update s r _

theorem sleep_does (s : System κ) (r : ActorRef) : Does Act.sleep r s (s.sleep r) := .update s r _

theorem takeBatch_does (s : System κ) (r : ActorRef) :
    Does (Act.take s.config.batchSize) r s (s.takeBatch r).2 := .atActor s r 0 fun _ => rfl

theorem expire_does (s : System κ) (r : ActorRef) :
    Does (Act.poll s.clock.now) r s (s.expire r).2 := .atActor s r none fun _ => rfl

theorem pause_does (s : System κ) (r : ActorRef) :
    Does (Act.pause s.clock.now) r s (s.pause r).2 := by
  refine .atActor s r false fun a => ?_
  dsimp only
  split <;> rfl

/-- What the first event of the batch is to be taken in for. -/
theorem opening_does {e : Event κ} {rest : List (Event κ)} (ha : s.actor? r = some a)
    (hb : a.batch = e :: rest) :
    Does Act.begin r s ((s.put r { a with batch := rest }).receive r e).2 ∧
      (Act.opening a).map Reaction.work = some ((s.put r { a with batch := rest }).receive r e).1 := by
  have hput := Turns.put ha { a with batch := rest }
  have hself := hput.actor?_self
  have hbeat : Beat (fun _ => True) r s
      ((s.put r { a with batch := rest }).receive r e).2 := .begin ha hb
  have houtline := hbeat.outline
  have hopening : Act.opening a = some ({ a with batch := rest }.react e) := by
    simp only [Act.opening, hb]
  have hact : Act.begin a = (({ a with batch := rest }.react e).actor,
      drops ({ a with batch := rest }.react e).unanswered.toList) := by
    simp only [Act.begin, hopening]
  rw [hopening]
  simp only [receive, hself] at houtline ⊢
  have hreact := hput.trans (.put hself ({ a with batch := rest }.react e).actor)
  refine ⟨.of_turns ha ?_ hact houtline, rfl⟩
  cases ({ a with batch := rest }.react e).started with
  | none => cases ({ a with batch := rest }.react e).unanswered with
    | none => exact hreact
    | some c => exact hreact.giveUp? (some c)
  | some i => cases ({ a with batch := rest }.react e).unanswered with
    | none => exact hreact.note _
    | some c => exact (hreact.note _).giveUp? (some c)

theorem reset_does (s : System κ) (r : ActorRef) : Does Act.reset r s (s.reset r) := by
  refine .of_some (fun ha => ?_) fun a ha =>
    .of_turns ha (reset_turns ha) rfl (reset_spares s r).outline
  rw [reset, atActor_absent ha]
  rfl

theorem afterEvent_does (s : System κ) (r : ActorRef) : Does Act.complete r s (s.afterEvent r true) :=
  (reset_does s r).andThen (.update _ r _)

theorem dropBatch_does (s : System κ) (r : ActorRef) : Does Act.dropBatch r s (s.dropBatch r) := by
  refine .of_some (fun ha => ?_) fun a ha =>
    .of_turns ha (dropBatch_turns ha) rfl (dropBatch_spares s r).outline
  simp only [dropBatch, atActor_absent ha]
  rfl

theorem recover_does (s : System κ) (r : ActorRef) :
    Does (Act.recover s.config.restartPolicy) r s (s.recover r) := by
  have hreset := (Does.update s r fun a =>
    { a with phase := .restarting, restarts := a.restarts + 1, timers := a.timers.finish }).andThen
      (reset_does _ r)
  have hconfig := congrArg Frame.config hreset.outline
  unfold Act.recover recover
  dsimp only
  refine (hreset.andThen ?_).andThen (.update _ r _)
  generalize (s.update r _).reset r = s₁ at hconfig
  have hpolicy : s₁.config.restartPolicy = s.config.restartPolicy :=
    congrArg Config.restartPolicy hconfig
  rw [hpolicy]
  cases s.config.restartPolicy with
  | dropBatch => exact dropBatch_does _ r
  | requeueRemaining => exact .refl _ r

theorem fired_does (s : System κ) (r : ActorRef) : Does Act.fired r s (s.afterTimer r true) :=
  (Does.update s r _).andThen (reset_does _ r)

theorem dismantle_does (s : System κ) (r : ActorRef) : Does Act.vacate r s (s.dismantle r) := by
  refine .of_some dismantle_absent fun a ha => .of_turns ha (dismantle_turns ha) ?_ ?_
  · simp only [Act.vacate, Act.andThen, Act.write, Act.discard, Act.leave, drops, List.map_append,
      List.nil_append]
  · rw [dismantle_eq ha]
    exact (vacate_spares _ r).outline

theorem answerCurrent_does (s : System κ) (r : ActorRef) (vs : List Value) :
    Does (Act.answer vs) r s (s.answerCurrent r vs).2 := by
  refine .of_some (fun ha => by rw [answerCurrent, takeReply, atActor_absent ha]) fun a ha => ?_
  obtain ⟨hc, ht⟩ := takeReply_turns ha
  refine .of_turns ha ?_ rfl (answerCurrent_spares s r vs).outline
  unfold answerCurrent
  generalize s.takeReply r = p at hc ht ⊢
  obtain ⟨c, s₁⟩ := p
  dsimp only at hc ht ⊢
  subst hc
  cases a.dispatch.reply with
  | none => exact ht
  | some c => exact ht.settle c _

theorem keepReply_does (s : System κ) (r : ActorRef) (slot : String) :
    Does (Act.keepReply slot) r s (s.keepReply r slot).2 := by
  refine .of_some (fun ha => by rw [keepReply, takeReply, atActor_absent ha]) fun a ha => ?_
  obtain ⟨hc, ht⟩ := takeReply_turns ha
  have houtline := (keepReply_spares s r slot).outline
  unfold keepReply at houtline ⊢
  generalize s.takeReply r = p at hc ht houtline ⊢
  obtain ⟨c, s₁⟩ := p
  dsimp only at hc ht
  subst hc
  cases hr : a.dispatch.reply with
  | none =>
    have hsame : ({ a with dispatch.reply := none } : Actor κ) = a := by rw [← hr]
    rw [hr] at houtline
    refine .of_turns ha (hsame ▸ ht) ?_ houtline
    simp only [Act.keepReply, hr]
  | some c =>
    have hdrop := ht.trans (dropKept_turns ht.actor?_self slot)
    have hkeep := hdrop.trans (.update hdrop.actor?_self fun a =>
      { a with kept := a.kept.insert slot c })
    rw [List.nil_append, List.append_nil] at hkeep
    rw [hr] at houtline
    refine .of_turns ha hkeep ?_ houtline
    simp only [Act.keepReply, hr]

theorem answerKept_does (s : System κ) (r : ActorRef) (slot : String) (vs : List Value) :
    Does (Act.useKept slot (.answered vs)) r s (s.answerKept r slot vs).2 := by
  refine .of_some (fun ha => by rw [answerKept, takeKept, atActor_absent ha]) fun a ha => ?_
  obtain ⟨hc, ht⟩ := takeKept_turns ha slot
  refine .of_turns ha ?_ rfl (answerKept_spares s r slot vs).outline
  unfold answerKept
  generalize s.takeKept r slot = p at hc ht ⊢
  obtain ⟨c, s₁⟩ := p
  dsimp only at hc ht ⊢
  subst hc
  cases a.kept.get? slot with
  | none => exact ht
  | some c => exact ht.settle c _

theorem dropKept_does (s : System κ) (r : ActorRef) (slot : String) :
    Does (Act.useKept slot .dropped) r s (s.dropKept r slot).2 :=
  .of_some (fun ha => by rw [dropKept, takeKept, atActor_absent ha]) fun _ ha =>
    .of_turns ha (dropKept_turns ha slot) rfl (dropKept_spares s r slot).outline

theorem unshelve_does (s : System κ) (r : ActorRef) (slot : String) :
    Does (Act.unshelve slot) r s (s.unshelve r slot).2 := by
  refine .of_some (fun ha => by rw [unshelve, takeKept, atActor_absent ha]) fun a ha => ?_
  obtain ⟨hc, ht⟩ := takeKept_turns ha slot
  have houtline := (unshelve_spares s r slot).outline
  unfold unshelve at houtline ⊢
  generalize s.takeKept r slot = p at hc ht houtline ⊢
  obtain ⟨c, s₁⟩ := p
  dsimp only at hc ht
  subst hc
  cases hk : a.kept.get? slot with
  | none =>
    rw [hk] at houtline
    rw [Table.erase_of_get?_none hk] at ht
    exact .of_turns ha ht (by simp only [Act.unshelve, hk]) houtline
  | some c =>
    have hdrop := ht.trans (dropHeld_turns ht.actor?_self slot)
    have hhold := hdrop.trans (.update hdrop.actor?_self fun a =>
      { a with dispatch.hand := a.dispatch.hand.insert slot c })
    rw [List.nil_append, List.append_nil] at hhold
    rw [hk] at houtline
    exact .of_turns ha hhold (by simp only [Act.unshelve, hk]) houtline

theorem shelve_does (s : System κ) (r : ActorRef) (slot : String) :
    Does (Act.shelve slot) r s (s.shelve r slot).2 := by
  refine .of_some (fun ha => by rw [shelve, takeHeld, atActor_absent ha]) fun a ha => ?_
  obtain ⟨hc, ht⟩ := takeHeld_turns ha slot
  have houtline := (shelve_spares s r slot).outline
  unfold shelve at houtline ⊢
  generalize s.takeHeld r slot = p at hc ht houtline ⊢
  obtain ⟨c, s₁⟩ := p
  dsimp only at hc ht
  subst hc
  cases hk : a.dispatch.hand.get? slot with
  | none =>
    rw [hk] at houtline
    rw [Table.erase_of_get?_none hk] at ht
    exact .of_turns ha ht (by simp only [Act.shelve, hk]) houtline
  | some c =>
    have hdrop := ht.trans (dropKept_turns ht.actor?_self slot)
    have hkeep := hdrop.trans (.update hdrop.actor?_self fun a =>
      { a with kept := a.kept.insert slot c })
    rw [List.nil_append, List.append_nil] at hkeep
    rw [hk] at houtline
    exact .of_turns ha hkeep (by simp only [Act.shelve, hk]) houtline

theorem release_does (s : System κ) (r : ActorRef) (slot : String) :
    Does (Act.release slot) r s (s.release r slot).2 := by
  have htake : Does (Act.release slot) r s (s.takeHeld r slot).2 := .atActor s r none fun _ => rfl
  have houtline := (release_spares s r slot).outline
  unfold release at houtline ⊢
  generalize s.takeHeld r slot = p at htake houtline ⊢
  obtain ⟨_ | c, s₁⟩ := p
  · exact htake
  · exact ⟨htake.actor, htake.calls, houtline⟩

theorem cancelTimer_does (s : System κ) (r : ActorRef) (id : Timer.TimerId) :
    Does (Act.cancel id) r s (s.cancelTimer r id).2 := by
  have houtline := (cancelTimer_spares s r id).outline
  rw [cancelTimer_eq] at houtline ⊢
  refine .of_some (fun ha => by rw [atActor_absent ha]; rfl) fun a ha => ?_
  rw [atActor_eq ha] at houtline ⊢
  exact .of_turns ha ((Turns.put ha _).giveUpAll _) rfl houtline

theorem takeOwned_does (s : System κ) (r : ActorRef) (owned : List String) :
    Does (Act.entrust owned) r s (s.takeOwned r owned).2 := .atActor s r Table.empty fun _ => rfl

theorem execute_eq (s : System κ) (self target : ActorRef) (action : κ) (owned : List String) :
    s.execute self target action owned =
      (s.takeOwned self owned).2.push target (.errand action (s.takeOwned self owned).1) := rfl

theorem takeOwned_nil (s : System κ) (r : ActorRef) : s.takeOwned r [] = (.empty, s) := by
  cases ha : s.actor? r with
  | none => exact atActor_absent ha _ _
  | some a =>
    have hnone : a.dispatch.hand.only [] = .empty :=
      Table.ext (by simp [Table.only, Table.filter, Table.empty])
    have hall : a.dispatch.hand.without [] = a.dispatch.hand :=
      Table.filter_eq_self fun _ _ => by simp
    rw [takeOwned, atActor_eq ha, hnone, hall, put_self ha]

/-- An event goes into the mailbox of an actor that is there, or all that it owns is given up. -/
theorem push_does (ha : s.actor? r = some a) (e : Event κ) : Does (Act.accept e) r s (s.push r e) := by
  have houtline := (push_spares s r e).outline
  cases hopen : a.refuses with
  | true =>
    have hrefused : s.push r e = s.giveUpAll e.calls := by
      simp [push, accepts_eq ha, hopen]
    rw [hrefused] at houtline ⊢
    exact .of_turns ha ((Turns.refl ha).giveUpAll _) (by simp [Act.accept, hopen]) houtline
  | false =>
    rw [push_open ha hopen] at houtline ⊢
    exact .of_turns ha (.put ha _) (by simp [Act.accept, hopen]) houtline

theorem push_other {target : ActorRef} (hr : r ≠ target) (s : System κ) (e : Event κ) :
    (s.push target e).actor? r = s.actor? r := by
  cases ha : s.actor? target with
  | none =>
    rw [push_refused (accepts_absent ha), giveUpAll_eq]
    rfl
  | some a => rw [(push_does ha e).actor, Function.update_of_ne hr]

theorem post_does (s : System κ) (r : ActorRef) (p : Post κ) :
    Does (Act.accept (.post p)) r s (s.post r p) :=
  .of_some (fun ha => post_refused (accepts_absent ha) p) fun _ ha => push_does ha (.post p)

theorem close_does (s : System κ) (r : ActorRef) : Does Act.close r s (s.close r) := by
  refine .of_some close_absent fun a ha => ?_
  have houtline := (close_spares s r).outline
  cases hd : a.dormant with
  | true =>
    rw [close_dormant ha hd] at houtline ⊢
    have ht := Turns.put ha { a with
      dormant := false, closing := true, stirred := true, phase := .closed }
    refine .of_turns ha (ht.trans (discard_turns ht.actor?_self)) ?_ houtline
    simp only [Act.close, hd, if_true]
    rfl
  | false =>
    rw [close_awake ha hd] at houtline ⊢
    exact .of_turns ha (.put ha _) (by simp only [Act.close, hd]; rfl) houtline

theorem execute_does (s : System κ) (r : ActorRef) (action : κ) (owned : List String) :
    Does (Act.enlist action owned) r s (s.execute r r action owned) := by
  refine .of_some (fun ha => ?_) fun a ha => ?_
  · unfold execute
    rw [takeOwned, atActor_absent ha]
    exact push_refused (accepts_absent ha) _
  · have houtline := (execute_spares s r r action owned).outline
    have hdoes := takeOwned_does s r owned
    have hactor : (s.takeOwned r owned).2.actor? r = some (Act.entrust owned a).1 := by
      rw [hdoes.actor, Function.update_self, ha]
      rfl
    have hpush := push_does hactor (.errand action (a.dispatch.hand.only owned))
    have hreplies : (s.takeOwned r owned).1 = a.dispatch.hand.only owned := by
      rw [takeOwned, atActor_eq ha]
    unfold execute at houtline ⊢
    dsimp only at houtline ⊢
    rw [hreplies] at houtline ⊢
    refine ⟨?_, ?_, houtline⟩
    · rw [hpush.actor, hactor, hdoes.actor, Function.update_idem, ha]
      rfl
    · rw [hpush.calls, hactor, hdoes.calls, ha]
      rfl

theorem perform_does (self : ActorRef) {o : Op κ} (ho : o.crosses self = false) (s : System κ) :
    Does (o.act s.clock.now s.config.maxDelayMs ((s.actor? self).map Actor.id)) (o.place self) s
      (perform self o s).2 := by
  cases o with
  | execute target action owned =>
    obtain rfl : target = self := by simpa [Op.crosses] using ho
    exact execute_does s target action owned
  | report what finding =>
    have hsame := Does.refl s self
    exact ⟨hsame.actor, hsame.calls, (Spares.note (π := fun _ => ()) s rfl).outline⟩
  | put key v => exact .update s self _
  | erase key => exact .atActor s self none fun _ => rfl
  | answer vs => exact answerCurrent_does s self vs
  | keepReply slot => exact keepReply_does s self slot
  | answerKept slot vs => exact answerKept_does s self slot vs
  | dropKept slot => exact dropKept_does s self slot
  | unshelve slot => exact unshelve_does s self slot
  | shelve slot => exact shelve_does s self slot
  | release slot => exact release_does s self slot
  | setTimer delay callback args owned => exact .atActor s self 0 fun _ => rfl
  | cancelTimer id => exact cancelTimer_does s self id
  | post target p => exact post_does s target p
  | call target name args => exact post_does s target _
  | registerMessage target proto handler => exact .atActor s target _ fun _ => rfl
  | registerRpc target name handler => exact .atActor s target _ fun _ => rfl
  | start target => exact .atActor s target _ fun _ => rfl
  | close target => exact close_does s target
  | look | now | lookup | timerStats | agent | component | find | await | inspect | backlog =>
    exact .refl s self

end System

end ActorSystem
