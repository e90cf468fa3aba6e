import ActorSystem.Proofs.Bookkeeping

set_option autoImplicit false

namespace ActorSystem

def Entry.isClosing : Entry → Bool
  | .componentClosed .. => true
  | .agentClosed _ => true
  | _ => false

def Op.calm {κ : Type} : Op κ → Bool
  | .setTimer .. => false
  | .cancelTimer _ => false
  | .start _ => false
  | .close _ => false
  | _ => true

def Actor.still {κ : Type} (a : Actor κ) : Actor κ :=
  { a with
    closing := false, stirred := false, mailbox := .new 0, onMessage := .empty, onRpc := .empty,
    store := .empty, kept := .empty, dispatch.reply := none, dispatch.hand := .empty }

def Actor.core {κ : Type} (a : Actor κ) : Actor κ :=
  { a with
    phase := .created, dormant := false, closing := false, stirred := false, mailbox := .new 0,
    onMessage := .empty, onRpc := .empty, timers := .new 0, purses := [], store := .empty,
    kept := .empty, dispatch.reply := none, dispatch.hand := .empty }

def Actor.holding {κ : Type} (a : Actor κ) (mailbox : EventQueue (Event κ))
    (batch : List (Event κ)) : Actor κ :=
  { a with mailbox, batch }

structure Estate (κ : Type) where
  components : Table ComponentId Component
  managers : Table ComponentId κ
  agents : Table AgentId Agent

def Estate.nothing {κ : Type} : Estate κ := ⟨.empty, .empty, .empty⟩

def Actor.estate {κ : Type} (a : Actor κ) : Estate κ := ⟨a.components, a.managers, a.agents⟩

namespace System

structure Frame where
  config : Config
  clock : Clock
  ids : IdSource
  started : Bool
  names : Table String ActorRef
  pools : Table String Pool
  size : Nat
  closings : List Entry

variable {κ β γ : Type} {π : Actor κ → β} {s s' s'' : System κ} {r : ActorRef} {a a' : Actor κ}

def closings (s : System κ) : List Entry := s.journal.toList.filter Entry.isClosing

def frame (s : System κ) : Frame :=
  ⟨s.config, s.clock, s.ids, s.started, s.names, s.pools, s.actors.size, s.closings⟩

structure Spares (π : Actor κ → β) (s s' : System κ) : Prop where
  frame : s'.frame = s.frame
  actors : ∀ r, (s'.actor? r).map π = (s.actor? r).map π

namespace Spares

theorem refl (s : System κ) : Spares π s s := ⟨rfl, fun _ => rfl⟩

theorem trans (h : Spares π s s') (h' : Spares π s' s'') : Spares π s s'' :=
  ⟨h'.frame.trans h.frame, fun r => (h'.actors r).trans (h.actors r)⟩

theorem coarsen (h : Spares π s s') (f : β → γ) : Spares (fun a => f (π a)) s s' := by
  refine ⟨h.frame, fun r => ?_⟩
  have hr := congrArg (Option.map f) (h.actors r)
  rwa [Option.map_map, Option.map_map] at hr

theorem some (h : Spares π s s') (ha : s.actor? r = some a) :
    ∃ a', s'.actor? r = some a' ∧ π a' = π a := by
  have hr := h.actors r
  rw [ha] at hr
  exact Option.map_eq_some_iff.1 hr

theorem some_rev (h : Spares π s s') (ha' : s'.actor? r = Option.some a') :
    ∃ a, s.actor? r = Option.some a ∧ π a' = π a := by
  have hr := h.actors r
  rw [ha'] at hr
  obtain ⟨a, ha, heq⟩ := Option.map_eq_some_iff.1 hr.symm
  exact ⟨a, ha, heq.symm⟩

theorem config (h : Spares π s s') : s'.config = s.config := congrArg Frame.config h.frame

theorem clock (h : Spares π s s') : s'.clock = s.clock := congrArg Frame.clock h.frame

theorem closings (h : Spares π s s') : s'.closings = s.closings := congrArg Frame.closings h.frame

theorem put (h : s.actor? r = Option.some a) (hπ : π a' = π a) : Spares π s (s.put r a') := by
  refine ⟨by simp [System.frame, System.put, System.closings], fun r' => ?_⟩
  rw [actor?_put h]
  by_cases hr : r' = r
  · subst hr
    simp [h, hπ]
  · simp [Function.update_of_ne hr]

theorem update (s : System κ) (r : ActorRef) (f : Actor κ → Actor κ)
    (hf : ∀ a, π (f a) = π a) : Spares π s (s.update r f) := by
  refine ⟨by simp [System.frame, System.update, System.closings], fun r' => ?_⟩
  cases h : s.actor? r with
  | none => rw [update_absent h]
  | some a =>
    rw [actor?_update h]
    by_cases hr : r' = r
    · subst hr
      simp [h, hf]
    · simp [Function.update_of_ne hr]

theorem atActor {α : Type} (s : System κ) (r : ActorRef) (absent : α) (f : Actor κ → α × Actor κ)
    (hf : ∀ a, π (f a).2 = π a) : Spares π s (s.atActor r absent f).2 := by
  cases h : s.actor? r with
  | none =>
    rw [atActor_absent h]
    exact refl s
  | some a =>
    rw [atActor_eq h]
    exact put h (hf a)

theorem settle (s : System κ) (c : CallRef) (state : CallState) :
    Spares π s (s.settle c state).2 := by
  unfold System.settle
  split <;> exact ⟨rfl, fun _ => rfl⟩

theorem giveUpAll (s : System κ) (cs : List CallRef) : Spares π s (s.giveUpAll cs) := by
  induction cs generalizing s with
  | nil => exact refl s
  | cons c cs ih => exact (settle s c .dropped).trans (ih _)

theorem note (s : System κ) {e : Entry} (he : e.isClosing = false) : Spares π s (s.note e) := by
  refine ⟨?_, fun _ => rfl⟩
  simp [System.frame, System.note, System.closings, he]

end Spares

theorem takeReply_spares (s : System κ) (r : ActorRef) : Spares Actor.still s (s.takeReply r).2 :=
  .atActor s r none _ fun _ => rfl

theorem takeKept_spares (s : System κ) (r : ActorRef) (slot : String) :
    Spares Actor.still s (s.takeKept r slot).2 :=
  .atActor s r none _ fun _ => rfl

theorem answerCurrent_spares (s : System κ) (r : ActorRef) (vs : List Value) :
    Spares Actor.still s (s.answerCurrent r vs).2 := by
  have htake := takeReply_spares s r
  unfold answerCurrent
  generalize s.takeReply r = p at htake ⊢
  obtain ⟨_ | c, s₁⟩ := p
  · exact htake
  · exact htake.trans (.settle s₁ c _)

theorem dropKept_spares (s : System κ) (r : ActorRef) (slot : String) :
    Spares Actor.still s (s.dropKept r slot).2 := by
  have htake := takeKept_spares s r slot
  unfold dropKept
  generalize s.takeKept r slot = p at htake ⊢
  obtain ⟨_ | c, s₁⟩ := p
  · exact htake
  · exact htake.trans (.settle s₁ c _)

theorem keepReply_spares (s : System κ) (r : ActorRef) (slot : String) :
    Spares Actor.still s (s.keepReply r slot).2 := by
  have htake := takeReply_spares s r
  unfold keepReply
  generalize s.takeReply r = p at htake ⊢
  obtain ⟨_ | c, s₁⟩ := p
  · exact htake
  · exact htake.trans ((dropKept_spares s₁ r slot).trans (.update _ r _ fun _ => rfl))

theorem answerKept_spares (s : System κ) (r : ActorRef) (slot : String) (vs : List Value) :
    Spares Actor.still s (s.answerKept r slot vs).2 := by
  have htake := takeKept_spares s r slot
  unfold answerKept
  generalize s.takeKept r slot = p at htake ⊢
  obtain ⟨_ | c, s₁⟩ := p
  · exact htake
  · exact htake.trans (.settle s₁ c _)

theorem takeHeld_spares (s : System κ) (r : ActorRef) (slot : String) :
    Spares Actor.still s (s.takeHeld r slot).2 :=
  .atActor s r none _ fun _ => rfl

theorem dropHeld_spares (s : System κ) (r : ActorRef) (slot : String) :
    Spares Actor.still s (s.dropHeld r slot).2 := by
  have htake := takeHeld_spares s r slot
  unfold dropHeld
  generalize s.takeHeld r slot = p at htake ⊢
  obtain ⟨_ | c, s₁⟩ := p
  · exact htake
  · exact htake.trans (.settle s₁ c _)

theorem unshelve_spares (s : System κ) (r : ActorRef) (slot : String) :
    Spares Actor.still s (s.unshelve r slot).2 := by
  have htake := takeKept_spares s r slot
  unfold unshelve
  generalize s.takeKept r slot = p at htake ⊢
  obtain ⟨_ | c, s₁⟩ := p
  · exact htake
  · exact htake.trans ((dropHeld_spares s₁ r slot).trans (.update _ r _ fun _ => rfl))

theorem shelve_spares (s : System κ) (r : ActorRef) (slot : String) :
    Spares Actor.still s (s.shelve r slot).2 := by
  have htake := takeHeld_spares s r slot
  unfold shelve
  generalize s.takeHeld r slot = p at htake ⊢
  obtain ⟨_ | c, s₁⟩ := p
  · exact htake
  · exact htake.trans ((dropKept_spares s₁ r slot).trans (.update _ r _ fun _ => rfl))

theorem release_spares (s : System κ) (r : ActorRef) (slot : String) :
    Spares Actor.still s (s.release r slot).2 := by
  have htake := takeHeld_spares s r slot
  unfold release
  generalize s.takeHeld r slot = p at htake ⊢
  obtain ⟨_ | c, s₁⟩ := p
  · exact htake
  · exact htake.trans ⟨rfl, fun _ => rfl⟩

theorem discard_spares (s : System κ) (r : ActorRef) : Spares Actor.still s (s.discard r) := by
  unfold discard
  cases h : s.actor? r with
  | none => exact .refl s
  | some a =>
    have hput : Spares Actor.still s (s.put r { a with mailbox := a.mailbox.discard.2 }) :=
      .put h rfl
    exact hput.trans (.giveUpAll _ _)

theorem recheck_spares (s : System κ) (r : ActorRef) : Spares Actor.still s (s.recheck r) := by
  unfold recheck
  split
  · exact discard_spares s r
  · exact .refl s

theorem enqueue_spares (s : System κ) (r : ActorRef) (e : Event κ) :
    Spares Actor.still s (s.enqueue r e) := by
  have hpush : Spares Actor.still s (s.update r fun a => a.enqueue e) := .update s r _ fun _ => rfl
  exact hpush.trans (recheck_spares _ r)

theorem push_spares (s : System κ) (r : ActorRef) (e : Event κ) :
    Spares Actor.still s (s.push r e) := by
  unfold push
  split
  · exact enqueue_spares s r e
  · exact .giveUpAll s _

theorem execute_spares (s : System κ) (r target : ActorRef) (action : κ) (owned : List String) :
    Spares Actor.still s (s.execute r target action owned) := by
  have htake : Spares Actor.still s (s.takeOwned r owned).2 :=
    .atActor s r Table.empty _ fun _ => rfl
  exact htake.trans (push_spares _ target _)

theorem Spares.core (h : Spares Actor.still s s') : Spares Actor.core s s' :=
  h.coarsen fun a => { a with phase := .created, dormant := false, timers := .new 0, purses := [] }

theorem close_spares (s : System κ) (r : ActorRef) : Spares Actor.core s (s.close r) := by
  have hsignal : Spares Actor.core s ((s.claim r).2.signal r) :=
    Spares.trans (.atActor s r false _ fun _ => rfl) (.update _ r _ fun _ => rfl)
  have hclose : s.close r =
      if (s.claim r).1 then (((s.claim r).2.signal r).markClosed r).discard r
      else (s.claim r).2.signal r := rfl
  rw [hclose]
  split
  · have hmark : Spares Actor.core ((s.claim r).2.signal r) (((s.claim r).2.signal r).markClosed r) :=
      .update _ r _ fun _ => rfl
    exact hsignal.trans (hmark.trans (discard_spares _ r).core)
  · exact hsignal

theorem cancelTimer_eq (s : System κ) (r : ActorRef) (id : Timer.TimerId) :
    s.cancelTimer r id =
      ((s.atActor r (false, []) fun a => a.cancel id).1.1,
        (s.atActor r (false, []) fun a => a.cancel id).2.giveUpAll
          (s.atActor r (false, []) fun a => a.cancel id).1.2) := rfl

theorem cancelTimer_spares_of (s : System κ) (r : ActorRef) (id : Timer.TimerId)
    (hπ : ∀ (a : Actor κ) timers purses, π { a with timers, purses } = π a) :
    Spares π s (s.cancelTimer r id).2 := by
  have hcancel : Spares π s (s.atActor r (false, []) fun a => a.cancel id).2 := by
    refine .atActor s r _ _ fun a => ?_
    unfold Actor.cancel
    generalize a.timers.delete id = p
    obtain ⟨b, timers⟩ := p
    dsimp only
    split
    · exact hπ a timers _
    · exact hπ a timers a.purses
  exact hcancel.trans (.giveUpAll _ _)

theorem cancelTimer_spares (s : System κ) (r : ActorRef) (id : Timer.TimerId) :
    Spares Actor.core s (s.cancelTimer r id).2 :=
  cancelTimer_spares_of s r id fun _ _ _ => rfl

theorem start_spares (s : System κ) (r : ActorRef) : Spares Actor.core s (s.start r).2 := by
  refine .atActor s r _ _ fun a => ?_
  cases h : a.dormant <;> simp [Actor.start, h, Actor.core]

theorem perform_calm (self : ActorRef) {o : Op κ} (ho : o.calm = true) (s : System κ) :
    Spares Actor.still s (perform self o s).2 := by
  cases o with
  | report what finding => exact .note s rfl
  | put key v => exact .update s self _ fun _ => rfl
  | erase key => exact .atActor s self none _ fun _ => rfl
  | answer vs => exact answerCurrent_spares s self vs
  | keepReply slot => exact keepReply_spares s self slot
  | answerKept slot vs => exact answerKept_spares s self slot vs
  | dropKept slot => exact dropKept_spares s self slot
  | unshelve slot => exact unshelve_spares s self slot
  | shelve slot => exact shelve_spares s self slot
  | release slot => exact release_spares s self slot
  | post target p => exact push_spares s target _
  | execute target action owned => exact execute_spares s self target action owned
  | call target name args => exact push_spares s target _
  | registerMessage target proto handler =>
    refine .atActor s target _ (fun a => a.registerMessage proto handler) fun a => ?_
    cases h : a.onMessage.contains proto <;> simp [Actor.registerMessage, h, Actor.still]
  | registerRpc target name handler =>
    refine .atActor s target _ (fun a => a.registerRpc name handler) fun a => ?_
    cases h : a.onRpc.contains name <;> simp [Actor.registerRpc, h, Actor.still]
  | setTimer | cancelTimer | start | close => cases ho
  | look | now | lookup | timerStats | agent | component | find | await | inspect | backlog =>
    exact .refl s

theorem perform_spares (self : ActorRef) (o : Op κ) (s : System κ) :
    Spares Actor.core s (perform self o s).2 := by
  cases ho : o.calm with
  | true => exact (perform_calm self ho s).core
  | false =>
    cases o with
    | setTimer delay callback args owned => exact .atActor s self 0 _ fun _ => rfl
    | cancelTimer id => exact cancelTimer_spares s self id
    | start target => exact start_spares s target
    | close target => exact close_spares s target
    | _ => cases ho

theorem exec_spares {α : Type} (r : ActorRef) (p : Prog κ α) (s : System κ) :
    Spares Actor.core s (exec r p s).2 := by
  induction p generalizing s with
  | pure x => exact .refl s
  | panic => exact .refl s
  | op o next ih => exact (perform_spares r o s).trans (ih _ _)

theorem request_spares (s : System κ) (r : ActorRef) (name : String) (args : Args) :
    Spares Actor.still s (s.request r name args).2 := by
  unfold request
  cases h : s.actor? r with
  | none => exact .refl s
  | some a =>
    dsimp only
    split
    · exact .refl s
    · let s₁ : System κ := { s with calls := s.calls.push ⟨name, .waiting⟩ }
      have hcalls : Spares Actor.still s s₁ := ⟨rfl, fun _ => rfl⟩
      exact hcalls.trans (enqueue_spares s₁ r _)

theorem elsewhere_spares (s : System κ) (c : CallRef) (use : Fate κ) :
    Spares Actor.still s (s.elsewhere c use).2 := by
  unfold elsewhere
  split
  · exact .refl s
  · rename_i x _
    have hgone : Spares Actor.still s { s with abroad := s.abroad.erase x } :=
      ⟨rfl, fun _ => rfl⟩
    cases use with
    | answer vs => exact hgone.trans (.settle _ c _)
    | drop => exact hgone.trans (.settle _ c _)
    | pass slot target action => exact hgone.trans (push_spares _ target _)

theorem Spares.estate (h : Spares Actor.core s s') : Spares Actor.estate s s' :=
  h.coarsen Actor.estate

end System

namespace Actor

variable {κ : Type}

theorem expire_fst (a : Actor κ) (now : UInt64) : (a.expire now).1 = (a.timers.poll now).1 := by
  unfold expire
  generalize a.timers.poll now = p
  obtain ⟨_ | e, timers⟩ := p <;> rfl

theorem expire_none {a : Actor κ} {now : UInt64} (h : (a.timers.poll now).1 = none) :
    (a.expire now).2 = { a with timers := (a.timers.poll now).2 } := by
  unfold expire
  generalize a.timers.poll now = p at h
  obtain ⟨x, timers⟩ := p
  obtain rfl : x = none := h
  rfl

theorem expire_some {a : Actor κ} {now : UInt64} {t : Timer.Expired (Task κ)}
    (h : (a.timers.poll now).1 = some t) :
    (a.expire now).2 = { a with
      timers := (a.timers.poll now).2, purses := a.purses.eraseP fun p => p.1 == t.id,
      dispatch.hand := a.purse t.id } := by
  unfold expire
  generalize a.timers.poll now = p at h
  obtain ⟨x, timers⟩ := p
  obtain rfl : x = some t := h
  rfl

theorem cancel_fst (a : Actor κ) (id : Timer.TimerId) :
    (a.cancel id).1.1 = (a.timers.delete id).1 := by
  unfold cancel
  generalize a.timers.delete id = p
  obtain ⟨b, timers⟩ := p
  dsimp only
  split <;> rfl

theorem cancel_timers (a : Actor κ) (id : Timer.TimerId) :
    (a.cancel id).2.timers = (a.timers.delete id).2 := by
  unfold cancel
  generalize a.timers.delete id = p
  obtain ⟨b, timers⟩ := p
  dsimp only
  split <;> rfl

theorem cancel_dormant (a : Actor κ) (id : Timer.TimerId) : (a.cancel id).2.dormant = a.dormant := by
  unfold cancel
  generalize a.timers.delete id = p
  obtain ⟨b, timers⟩ := p
  dsimp only
  split <;> rfl

theorem expire_core (a : Actor κ) (now : UInt64) : (a.expire now).2.core = a.core := by
  unfold expire
  generalize a.timers.poll now = p
  obtain ⟨_ | e, timers⟩ := p <;> rfl

theorem onCall_holding (a : Actor κ) (q : Request) (reply : Option CallRef)
    (mailbox : EventQueue (Event κ)) (batch : List (Event κ)) :
    (a.holding mailbox batch).onCall q reply =
      { a.onCall q reply with actor := (a.onCall q reply).actor.holding mailbox batch } := by
  unfold onCall holding
  dsimp only
  cases a.onRpc.get? q.name <;> rfl

theorem onPost_holding (a : Actor κ) (p : Post κ) (mailbox : EventQueue (Event κ))
    (batch : List (Event κ)) :
    (a.holding mailbox batch).onPost p =
      { a.onPost p with actor := (a.onPost p).actor.holding mailbox batch } := by
  cases p with
  | rpc q => exact a.onCall_holding q none mailbox batch
  | custom action => rfl
  | data kind agent proto payload =>
    unfold onPost onData holding
    dsimp only
    cases a.onMessage.get? proto <;> rfl
  | session kind agent via extra => cases kind <;> cases agent <;> rfl
  | component kind c manager e =>
    cases kind with
    | componentCreate =>
      unfold onPost onCreated holding
      dsimp only
      cases a.components.contains c.id <;> rfl
    | _ => rfl

/-- How an event is taken in has nothing to do with the queue. -/
theorem react_holding (a : Actor κ) (e : Event κ) (mailbox : EventQueue (Event κ))
    (batch : List (Event κ)) :
    (a.holding mailbox batch).react e =
      { a.react e with actor := (a.react e).actor.holding mailbox batch } := by
  cases e with
  | awaitRpc q call => exact a.onCall_holding q (some call) mailbox batch
  | post p => exact a.onPost_holding p mailbox batch
  | errand action replies => rfl

end Actor

namespace System

variable {κ β γ : Type} {π : Actor κ → β} {s s' s'' : System κ} {r : ActorRef} {a a' : Actor κ}

theorem receive_spares (s : System κ) (r : ActorRef) (e : Event κ)
    (hπ : ∀ a : Actor κ, π (a.react e).actor = π a) : Spares π s (s.receive r e).2 := by
  cases h : s.actor? r with
  | none =>
    simp only [receive, h]
    exact .refl s
  | some a =>
    have hput : Spares π s (s.put r (a.react e).actor) := .put h (hπ a)
    simp only [receive, h]
    cases (a.react e).started with
    | none => cases (a.react e).unanswered with
      | none => exact hput
      | some c => exact hput.trans (.settle _ c .dropped)
    | some i => cases (a.react e).unanswered with
      | none => exact hput.trans (.note _ rfl)
      | some c => exact hput.trans (.trans (.note _ rfl) (.settle _ c .dropped))

theorem reset_spares_of (s : System κ) (r : ActorRef)
    (hπ : ∀ (a : Actor κ) dispatch, π { a with dispatch } = π a) : Spares π s (s.reset r) := by
  exact Spares.trans
    (.atActor s r [] (fun a => (a.dispatch.replies, { a with dispatch := .idle })) fun a => hπ a _)
    (.giveUpAll _ _)

theorem reset_spares (s : System κ) (r : ActorRef) : Spares Actor.estate s (s.reset r) :=
  reset_spares_of s r fun _ _ => rfl

theorem dropBatch_spares (s : System κ) (r : ActorRef) : Spares Actor.estate s (s.dropBatch r) :=
  Spares.trans (.atActor s r [] (fun a => (a.batch, { a with batch := [] })) fun _ => rfl)
    (.giveUpAll _ _)

theorem recover_spares (s : System κ) (r : ActorRef) : Spares Actor.estate s (s.recover r) := by
  unfold recover
  extract_lets s₁ s₂ s₃
  have h₁ : Spares Actor.estate s s₁ := .update s r _ fun _ => rfl
  have h₂ : Spares Actor.estate s s₂ := h₁.trans (reset_spares s₁ r)
  have h₃ : Spares Actor.estate s₂ s₃ := by
    simp only [s₃]
    split
    · exact dropBatch_spares s₂ r
    · exact .refl s₂
  exact h₂.trans (h₃.trans (.update s₃ r _ fun _ => rfl))

theorem takeBatch_spares (s : System κ) (r : ActorRef) : Spares Actor.estate s (s.takeBatch r).2 :=
  .atActor s r 0 _ fun _ => rfl

theorem pause_spares (s : System κ) (r : ActorRef)
    (hπ : ∀ a : Actor κ, π { a with mailbox := a.mailbox.announce.2 } = π a) :
    Spares π s (s.pause r).2 := by
  refine .atActor s r false _ fun a => ?_
  dsimp only
  split
  · rfl
  · exact hπ a

/-- The entries of what is closed at the end of an actor, first the components and then the
agents. -/
def farewell (components : List Component) (agents : List Agent) : List Entry :=
  components.map (fun c => .componentClosed c.id c.label) ++ agents.map .agentClosed

def vacate (s : System κ) (r : ActorRef) : System κ :=
  ((((s.update r fun a =>
    { a with agents := .empty, components := .empty, managers := .empty }).markClosed r).discard r).leave r)

theorem foldl_note {α : Type} (entry : α → Entry) (xs : List α) (s : System κ) :
    xs.foldl (fun s x => s.note (entry x)) s =
      { s with journal := s.journal ++ (xs.map entry).toArray } := by
  induction xs generalizing s with
  | nil => simp
  | cons x xs ih =>
    rw [List.foldl_cons, ih]
    simp [note]

theorem closeOwned_eq (h : s.actor? r = some a) :
    s.closeOwned r =
      { s with
        journal := s.journal ++ (farewell a.components.values a.agents.values).toArray }.update r
        fun a => { a with agents := .empty, components := .empty, managers := .empty } := by
  let t : System κ :=
    { s with journal := s.journal ++ (farewell a.components.values a.agents.values).toArray }
  have ht : t.actor? r = some a := h
  have hnotes : a.agents.values.foldl (fun s agent => s.note (.agentClosed agent))
      (a.components.values.foldl (fun s c => s.note (.componentClosed c.id c.label)) s) = t := by
    rw [foldl_note, foldl_note]
    simp [t, farewell, Array.append_assoc]
  simp only [closeOwned, h, hnotes]
  exact (update_eq ht fun a =>
    { a with agents := .empty, components := .empty, managers := .empty }).symm

/-- An actor that ends closes all that it owns, and only then it is closed itself. -/
theorem dismantle_eq (h : s.actor? r = some a) :
    s.dismantle r =
      vacate
        { s with journal := s.journal ++ (farewell a.components.values a.agents.values).toArray } r := by
  rw [dismantle, closeOwned_eq h]
  rfl

theorem leave_absent (h : s.actor? r = none) : s.leave r = s := by
  rw [leave, atActor_absent h]
  rfl

theorem dismantle_absent (h : s.actor? r = none) : s.dismantle r = s := by
  simp only [dismantle, closeOwned, h, markClosed, update_absent h, discard, leave_absent h]

theorem markClosed_spares (s : System κ) (r : ActorRef) :
    Spares (fun _ => ()) s (s.markClosed r) :=
  .update s r _ fun _ => rfl

theorem leave_spares (s : System κ) (r : ActorRef) : Spares (fun _ => ()) s (s.leave r) := by
  have htake : Spares (fun _ => ()) s (s.atActor r [] fun a : Actor κ =>
      (a.kept.values ++ a.purses.flatMap fun p => p.2.values,
        { a with kept := .empty, purses := [] })).2 := .atActor s r [] _ fun _ => rfl
  exact htake.trans (.giveUpAll _ _)

theorem vacate_spares (s : System κ) (r : ActorRef) : Spares (fun _ => ()) s (s.vacate r) :=
  Spares.trans (.update s r _ fun _ => rfl) <| (markClosed_spares _ r).trans <|
    ((discard_spares _ r).coarsen fun _ => ()).trans (leave_spares _ r)

theorem vacate_actor? (h : s.actor? r = some a) :
    (s.vacate r).actor? = Function.update s.actor? r (some
      { a with
        phase := .closed, agents := .empty, components := .empty, managers := .empty, kept := .empty,
        purses := [], mailbox := a.mailbox.discard.2 }) := by
  have hempty : Turns s _ r _ [] := .update h fun a =>
    { a with agents := .empty, components := .empty, managers := .empty }
  have hmarked := hempty.trans (.update hempty.actor?_self fun a => { a with phase := .closed })
  have hdiscarded := hmarked.trans (discard_turns hmarked.actor?_self)
  exact (hdiscarded.trans (leave_turns hdiscarded.actor?_self)).actor

end System

end ActorSystem
