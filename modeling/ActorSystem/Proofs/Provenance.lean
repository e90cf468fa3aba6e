import ActorSystem.Proofs.Acts
import ActorSystem.Proofs.Calls

set_option autoImplicit false

namespace ActorSystem

namespace Timer.Wheel

variable {α : Type} {Q : α → Prop} {w : Wheel α}

def Only (Q : α → Prop) (w : Wheel α) : Prop := ∃ ps, w.Sound ps ∧ ∀ e ∈ ps, Q e.payload

namespace Only

theorem start (now limit : UInt64) : (withMaxDelay now limit : Wheel α).Only Q :=
  ⟨[], .start now limit, by simp⟩

theorem add (h : w.Only Q) (now delay : UInt64) {payload : α} (hq : Q payload) :
    (w.add now delay payload).2.Only Q := by
  obtain ⟨ps, hs, hps⟩ := h
  obtain ⟨e, -, hpayload, -, -, hs', -⟩ := hs.add now delay payload
  refine ⟨ps ++ [e], hs', fun x hx => ?_⟩
  rcases List.mem_append.1 hx with hx | hx
  · exact hps x hx
  · rw [List.mem_singleton.1 hx, hpayload]
    exact hq

theorem delete (h : w.Only Q) (id : TimerId) : (w.delete id).2.Only Q := by
  obtain ⟨ps, hs, hps⟩ := h
  have hd := hs.delete id
  generalize w.delete id = r at hd ⊢
  cases hd with
  | missing => exact ⟨ps, hs, hps⟩
  | running => exact ⟨ps, hs, hps⟩
  | removed pre post e v hrun heq hid hpre hv =>
    subst heq
    refine ⟨pre ++ post, hv, fun x hx => hps x ?_⟩
    simp only [List.mem_append, List.mem_cons] at hx ⊢
    exact hx.imp_right .inr

theorem poll (h : w.Only Q) (now : UInt64) :
    (w.poll now).2.Only Q ∧ ∀ e ∈ (w.poll now).1, Q e.payload := by
  obtain ⟨ps, hs, hps⟩ := h
  have htaken : ∀ pre post e, ps = pre ++ e :: post →
      (∀ x ∈ pre ++ post, Q x.payload) ∧ Q e.payload := by
    rintro pre post e rfl
    refine ⟨fun x hx => hps x ?_, hps e (by simp)⟩
    simp only [List.mem_append, List.mem_cons] at hx ⊢
    exact hx.imp_right .inr
  have hp := hs.poll now
  generalize w.poll now = r at hp ⊢
  cases hp with
  | idle v hv => exact ⟨⟨ps, hv, hps⟩, by simp⟩
  | overdue pre post e v heq hdue hpre hv =>
    obtain ⟨hrest, he⟩ := htaken pre post e heq
    exact ⟨⟨pre ++ post, hv, hrest⟩, fun x hx => Option.mem_some_iff.1 hx ▸ he⟩
  | due pre post e v heq hdue hpre hpost hv =>
    obtain ⟨hrest, he⟩ := htaken pre post e heq
    exact ⟨⟨pre ++ post, hv, hrest⟩, fun x hx => Option.mem_some_iff.1 hx ▸ he⟩

theorem finish (h : w.Only Q) : w.finish.Only Q := by
  obtain ⟨ps, hs, hps⟩ := h
  exact ⟨ps, hs.finish, hps⟩

end Only

end Timer.Wheel

variable {κ : Type}

def Post.code? : Post κ → Option κ
  | .component _ _ manager _ => manager
  | .custom action => some action
  | _ => none

def Event.code? : Event κ → Option κ
  | .post p => p.code?
  | .awaitRpc .. => none
  | .errand action _ => some action

theorem Event.code?_renumber (f : CallRef → CallRef) (e : Event κ) :
    (e.renumber f).code? = e.code? := by
  rcases e with p | ⟨q, c⟩ | ⟨action, replies⟩ <;> rfl

theorem Table.get?_insert_elim {α β : Type} [DecidableEq α] {t : Table α β} {k k' : α} {v x : β}
    (h : x ∈ (t.insert k v).get? k') : x = v ∨ x ∈ t.get? k' := by
  rw [Table.get?_insert] at h
  split at h
  · exact .inl (Option.mem_some_iff.1 h).symm
  · exact .inr h

structure Actor.Keeps (ours : κ → Prop) (a : Actor κ) : Prop where
  message : ∀ proto, ∀ k ∈ a.onMessage.get? proto, ours k
  rpc : ∀ name, ∀ k ∈ a.onRpc.get? name, ours k
  manager : ∀ id, ∀ k ∈ a.managers.get? id, ours k
  batch : ∀ e ∈ a.batch, ∀ k ∈ e.code?, ours k
  mailbox : ∀ e ∈ a.mailbox.toList, ∀ k ∈ e.code?, ours k
  timers : a.timers.Only fun task => ours task.callback

namespace Actor.Keeps

variable {ours : κ → Prop} {a : Actor κ}

theorem new (id : ActorId) (name : String) (config : Config) :
    (Actor.new id name config : Actor κ).Keeps ours := by
  refine ⟨?_, ?_, ?_, ?_, ?_, .start _ _⟩ <;>
    simp [Actor.new, EventQueue.new, EventQueue.toList]

theorem renumber_iff {f : CallRef → CallRef} : (a.renumber f).Keeps ours ↔ a.Keeps ours := by
  have hevents : ∀ es : List (Event κ), (∀ e ∈ es.map (Event.renumber f), ∀ k ∈ e.code?, ours k) ↔
      ∀ e ∈ es, ∀ k ∈ e.code?, ours k := by
    intro es
    simp only [List.forall_mem_map, Event.code?_renumber]
  have hbox : (a.renumber f).mailbox.toList = a.mailbox.toList.map (Event.renumber f) :=
    EventQueue.toList_map _ _
  constructor
  · intro h
    exact ⟨h.message, h.rpc, h.manager, (hevents _).1 h.batch, (hevents _).1 (hbox ▸ h.mailbox), h.timers⟩
  · intro h
    exact ⟨h.message, h.rpc, h.manager, (hevents _).2 h.batch, hbox ▸ (hevents _).2 h.mailbox, h.timers⟩

theorem accept (h : a.Keeps ours) {e : Event κ} (hcode : ∀ k ∈ e.code?, ours k) :
    (a.enqueue e).Keeps ours := by
  refine ⟨h.message, h.rpc, h.manager, h.batch, fun x hx => ?_, h.timers⟩
  rw [Actor.enqueue, EventQueue.toList_push, List.mem_append, List.mem_singleton] at hx
  rcases hx with hx | rfl
  · exact h.mailbox x hx
  · exact hcode

/-- With the mailbox emptied, or some of its events moved to the batch. -/
theorem moved (h : a.Keeps ours) {mailbox : EventQueue (Event κ)} {batch : List (Event κ)}
    (hqueue : ∀ e ∈ batch ++ mailbox.toList, e ∈ a.batch ++ a.mailbox.toList) :
    Keeps ours { a with mailbox, batch } := by
  have hevents : ∀ e ∈ a.batch ++ a.mailbox.toList, ∀ k ∈ e.code?, ours k := by
    intro e he
    exact (List.mem_append.1 he).elim (h.batch e) (h.mailbox e)
  exact ⟨h.message, h.rpc, h.manager,
    fun e he => hevents e (hqueue e (List.mem_append_left _ he)),
    fun e he => hevents e (hqueue e (List.mem_append_right _ he)), h.timers⟩

theorem retimed (h : a.Keeps ours) {timers : Timer.Wheel (Task κ)}
    (ht : timers.Only fun task => ours task.callback) : Keeps ours { a with timers } :=
  ⟨h.message, h.rpc, h.manager, h.batch, h.mailbox, ht⟩

end Actor.Keeps

def Work.code? : Work κ → Option κ
  | .run k _ => some k
  | _ => none

namespace Actor.Keeps

variable {ours : κ → Prop} {a : Actor κ}

theorem managed (h : a.Keeps ours) (id : ComponentId) (i : Invocation) :
    ∀ k ∈ (a.managed id i).code?, ours k := by
  have hget := h.manager id
  unfold Actor.managed
  cases hm : a.managers.get? id with
  | none => simp [Work.code?]
  | some m =>
    rw [hm] at hget
    exact hget

theorem ignore (h : a.Keeps ours) :
    a.ignore.actor.Keeps ours ∧ ∀ k ∈ a.ignore.work.code?, ours k :=
  ⟨h, by simp [Actor.ignore, Work.code?]⟩

theorem onCall (h : a.Keeps ours) (q : Request) (reply : Option CallRef) :
    (a.onCall q reply).actor.Keeps ours ∧ ∀ k ∈ (a.onCall q reply).work.code?, ours k := by
  have hget := h.rpc q.name
  unfold Actor.onCall
  cases hm : a.onRpc.get? q.name with
  | none => exact h.ignore
  | some k =>
    rw [hm] at hget
    exact ⟨⟨h.message, h.rpc, h.manager, h.batch, h.mailbox, h.timers⟩, hget⟩

theorem onCreated (h : a.Keeps ours) (c : Component) {manager : Option κ}
    (hm : ∀ k ∈ manager, ours k) :
    (a.onCreated c manager).actor.Keeps ours ∧
      ∀ k ∈ (a.onCreated c manager).work.code?, ours k := by
  unfold Actor.onCreated
  split
  · exact h.ignore
  · refine ⟨⟨h.message, h.rpc, fun id k hk => ?_, h.batch, h.mailbox, h.timers⟩, ?_⟩
    · cases manager with
      | none => exact h.manager id k hk
      | some m =>
        rcases Table.get?_insert_elim hk with rfl | hk
        · exact hm k rfl
        · exact h.manager id k hk
    · dsimp only [Actor.reaction]
      cases c.start <;> cases manager <;> simp_all [Work.code?]

theorem onPost (h : a.Keeps ours) {p : Post κ} (hp : ∀ k ∈ p.code?, ours k) :
    (a.onPost p).actor.Keeps ours ∧ ∀ k ∈ (a.onPost p).work.code?, ours k := by
  cases p with
  | rpc q => exact h.onCall q none
  | custom action => exact ⟨h, hp⟩
  | data kind agent proto payload =>
    have hget := h.message proto
    unfold Actor.onPost Actor.onData
    dsimp only
    cases hm : a.onMessage.get? proto with
    | none => exact h.ignore
    | some k =>
      rw [hm] at hget
      exact ⟨⟨h.message, h.rpc, h.manager, h.batch, h.mailbox, h.timers⟩, hget⟩
  | session kind agent via extra =>
    have hmanaged := h.managed via
    cases kind <;> cases agent <;>
      first
      | exact h.ignore
      | exact ⟨⟨h.message, h.rpc, h.manager, h.batch, h.mailbox, h.timers⟩, hmanaged _⟩
  | component kind c manager e =>
    cases kind with
    | componentCreate => exact h.onCreated c hp
    | componentError =>
      exact ⟨⟨h.message, h.rpc, h.manager, h.batch, h.mailbox, h.timers⟩, h.managed c.id _⟩
    | _ => exact h.ignore

theorem react (h : a.Keeps ours) {e : Event κ} (he : ∀ k ∈ e.code?, ours k) :
    (a.react e).actor.Keeps ours ∧ ∀ k ∈ (a.react e).work.code?, ours k := by
  cases e with
  | post p => exact h.onPost he
  | awaitRpc q c => exact h.onCall q (some c)
  | errand action replies =>
    exact ⟨⟨h.message, h.rpc, h.manager, h.batch, h.mailbox, h.timers⟩, he⟩

theorem opening (h : a.Keeps ours) {x : Reaction κ} (hx : Act.opening a = some x) :
    x.actor.Keeps ours ∧ ∀ k ∈ x.work.code?, ours k := by
  unfold Act.opening at hx
  cases hb : a.batch with
  | nil => simp [hb] at hx
  | cons e rest =>
    simp only [hb, Option.some.injEq] at hx
    subst hx
    have hbatch := h.batch
    rw [hb] at hbatch
    have hrest : Keeps ours { a with batch := rest } :=
      ⟨h.message, h.rpc, h.manager, fun x hx => hbatch x (List.mem_cons_of_mem _ hx), h.mailbox,
        h.timers⟩
    exact hrest.react (hbatch e List.mem_cons_self)

end Actor.Keeps

def Op.hands : Op κ → Option κ
  | .setTimer _ callback _ _ => some callback
  | .post _ p => p.code?
  | .execute _ action _ => some action
  | .registerMessage _ _ handler | .registerRpc _ _ handler => some handler
  | _ => none

namespace Act

def Keeping (ours : κ → Prop) (act : Act κ) : Prop := ∀ a, a.Keeps ours → (act a).1.Keeps ours

variable {ours : κ → Prop} {act act' : Act κ}

theorem Keeping.andThen (h : Keeping ours act) (h' : Keeping ours act') :
    Keeping ours (Act.andThen act act') := fun a ha => h' _ (h a ha)

theorem wake_keeping : Keeping ours (wake : Act κ) := by
  intro a h
  refine ⟨h.message, h.rpc, h.manager, h.batch, fun e he => h.mailbox e ?_, h.timers⟩
  have hlist : a.mailbox.recv.2.rearm.toList = a.mailbox.toList := EventQueue.toList_claim _
  exact hlist ▸ he

theorem sleep_keeping : Keeping ours (sleep : Act κ) := fun _ h =>
  ⟨h.message, h.rpc, h.manager, h.batch, h.mailbox, h.timers⟩

theorem take_keeping (max : Nat) : Keeping ours (take max : Act κ) := by
  intro a h
  refine h.moved fun e he => ?_
  rwa [List.append_assoc, EventQueue.take_append_toList] at he

theorem begin_keeping : Keeping ours (begin : Act κ) := by
  intro a h
  unfold begin
  cases hx : opening a with
  | none => exact h
  | some x => exact (h.opening hx).1

theorem reset_keeping : Keeping ours (reset : Act κ) := fun _ h =>
  ⟨h.message, h.rpc, h.manager, h.batch, h.mailbox, h.timers⟩

theorem complete_keeping : Keeping ours (complete : Act κ) :=
  reset_keeping.andThen fun _ h => ⟨h.message, h.rpc, h.manager, h.batch, h.mailbox, h.timers⟩

theorem recover_keeping (policy : RestartPolicy) : Keeping ours (recover policy : Act κ) := by
  refine Keeping.andThen (Keeping.andThen (Keeping.andThen ?_ reset_keeping) ?_) ?_
  · exact fun _ h => ⟨h.message, h.rpc, h.manager, h.batch, h.mailbox, h.timers.finish⟩
  · cases policy with
    | dropBatch =>
      exact fun _ h => ⟨h.message, h.rpc, h.manager, by simp [dropBatch], h.mailbox, h.timers⟩
    | requeueRemaining => exact fun _ h => h
  · exact fun _ h => ⟨h.message, h.rpc, h.manager, h.batch, h.mailbox, h.timers⟩

theorem poll_keeping (now : UInt64) : Keeping ours (poll now : Act κ) := by
  intro a h
  have htimers := (h.timers.poll now).1
  unfold poll write Actor.expire
  dsimp only
  generalize a.timers.poll now = p at htimers ⊢
  obtain ⟨_ | e, timers⟩ := p
  · exact h.retimed htimers
  · exact ⟨h.message, h.rpc, h.manager, h.batch, h.mailbox, htimers⟩

theorem fired_keeping : Keeping ours (fired : Act κ) :=
  Keeping.andThen (fun _ h => h.retimed h.timers.finish) reset_keeping

theorem pause_keeping (now : UInt64) : Keeping ours (pause now : Act κ) := by
  intro a h
  unfold pause write
  dsimp only
  split
  · exact h
  · exact h.moved fun e he => by rwa [EventQueue.toList_announce] at he

theorem discard_keeping : Keeping ours (discard : Act κ) := by
  refine fun a h => h.moved fun e he => ?_
  rw [← a.mailbox.discard_append_toList, List.mem_append, List.mem_append]
  exact (List.mem_append.1 he).imp_right .inr

theorem leave_keeping : Keeping ours (leave : Act κ) := fun _ h =>
  ⟨h.message, h.rpc, h.manager, h.batch, h.mailbox, h.timers⟩

theorem vacate_keeping : Keeping ours (vacate : Act κ) := by
  refine Keeping.andThen (Keeping.andThen (fun a h => ?_) discard_keeping) leave_keeping
  exact ⟨h.message, h.rpc, by simp [write], h.batch, h.mailbox, h.timers⟩

theorem accept_keeping {e : Event κ} (he : ∀ k ∈ e.code?, ours k) :
    Keeping ours (accept e : Act κ) := by
  intro a h
  unfold accept
  split
  · exact h
  · exact h.accept he

theorem cancel_keeping (id : Timer.TimerId) : Keeping ours (cancel id : Act κ) := by
  intro a h
  have htimers := h.timers.delete id
  unfold cancel Actor.cancel
  generalize a.timers.delete id = p at htimers ⊢
  obtain ⟨b, timers⟩ := p
  dsimp only
  split
  · exact ⟨h.message, h.rpc, h.manager, h.batch, h.mailbox, htimers⟩
  · exact h.retimed htimers

theorem close_keeping : Keeping ours (close : Act κ) := by
  intro a h
  have htold : ∀ phase dormant, Actor.Keeps ours
      { a with dormant, closing := true, stirred := true, phase } := fun _ _ =>
    ⟨h.message, h.rpc, h.manager, h.batch, h.mailbox, h.timers⟩
  simp only [close]
  split
  · exact discard_keeping _ (htold _ _)
  · exact htold _ _

theorem op_keeping (now maxDelay : UInt64) (sender : Option ActorId) {o : Op κ}
    (ho : ∀ k ∈ o.hands, ours k) : Keeping ours (o.act now maxDelay sender) := by
  cases o with
  | post target p => exact accept_keeping ho
  | execute target action owned =>
    exact fun a h => accept_keeping ho _ ⟨h.message, h.rpc, h.manager, h.batch, h.mailbox, h.timers⟩
  | call target name args => exact accept_keeping (by simp [Event.code?, Post.code?])
  | close target => exact close_keeping
  | setTimer delay callback args owned =>
    exact fun _ h => ⟨h.message, h.rpc, h.manager, h.batch, h.mailbox,
      h.timers.add _ _ (ho callback rfl)⟩
  | cancelTimer id => exact cancel_keeping id
  | start target =>
    intro a h
    simp only [Op.act, write, Actor.start]
    split
    · exact ⟨h.message, h.rpc, h.manager, h.batch, h.mailbox, .start _ _⟩
    · exact h
  | registerMessage target proto handler =>
    intro a h
    simp only [Op.act, write, Actor.registerMessage]
    split
    · exact h
    · refine ⟨fun id k hk => ?_, h.rpc, h.manager, h.batch, h.mailbox, h.timers⟩
      rcases Table.get?_insert_elim hk with rfl | hk
      · exact ho k rfl
      · exact h.message id k hk
  | registerRpc target name handler =>
    intro a h
    simp only [Op.act, write, Actor.registerRpc]
    split
    · exact h
    · refine ⟨h.message, fun id k hk => ?_, h.manager, h.batch, h.mailbox, h.timers⟩
      rcases Table.get?_insert_elim hk with rfl | hk
      · exact ho k rfl
      · exact h.rpc id k hk
  | keepReply slot =>
    intro a h
    simp only [Op.act, keepReply]
    cases a.dispatch.reply with
    | none => exact h
    | some c => exact ⟨h.message, h.rpc, h.manager, h.batch, h.mailbox, h.timers⟩
  | unshelve slot =>
    intro a h
    simp only [Op.act, unshelve]
    split
    · exact h
    · exact ⟨h.message, h.rpc, h.manager, h.batch, h.mailbox, h.timers⟩
  | shelve slot =>
    intro a h
    simp only [Op.act, shelve]
    split
    · exact h
    · exact ⟨h.message, h.rpc, h.manager, h.batch, h.mailbox, h.timers⟩
  | _ => exact fun _ h => ⟨h.message, h.rpc, h.manager, h.batch, h.mailbox, h.timers⟩

end Act

end ActorSystem
