import ActorSystem.Proofs.Beats
import ActorSystem.Proofs.Estates
import ActorSystem.Proofs.Ledgers

/-!
The phases of an actor, from its creation to its end, and what starting and closing it have to do
with them.
-/

set_option autoImplicit false

namespace ActorSystem

variable {κ : Type}

inductive Phase.Passes : Phase → Phase → Prop where
  | stay (p : Phase) : Passes p p
  | wake : Passes .created .running
  | cancel : Passes .created .closed
  | panic : Passes .running .restarting
  | resume : Passes .restarting .running
  | finish : Passes .running .closed

/-- The phases of an actor at two times, the second directly after the first; at first it may not
be there. -/
def Phase.Goes : Option Phase → Option Phase → Prop
  | none, none => True
  | none, some p => p = .created
  | some _, none => False
  | some p, some q => p.Passes q

/-- What an actor keeps through all its life, and how far it has got. -/
structure Life where
  id : ActorId
  name : String
  phase : Phase
  dormant : Bool

def Life.alive (l : Life) : Bool := !l.dormant && l.phase != .closed

def Actor.life (a : Actor κ) : Life := ⟨a.id, a.name, a.phase, a.dormant⟩

def Op.rouses : Op κ → Option ActorRef
  | .start r => some r
  | .close r => some r
  | _ => none

/-- Taking an event in has nothing to do with the life of the actor. -/
theorem Actor.expire_life (a : Actor κ) (now : UInt64) : (a.expire now).2.life = a.life := by
  unfold expire
  generalize a.timers.poll now = p
  obtain ⟨_ | e, timers⟩ := p <;> rfl

theorem Actor.react_life (a : Actor κ) (e : Event κ) : (a.react e).actor.life = a.life :=
  (congrArg Actor.life (a.react_eq e)).trans rfl

namespace System

variable {s s' : System κ} {r : ActorRef} {a : Actor κ}

def life (s : System κ) (r : ActorRef) : Option Life := (s.actor? r).map Actor.life

def outline (s : System κ) : Frame := { s.frame with closings := [] }

theorem Spares.life (h : Spares Actor.life s s') : s'.life = s.life := funext h.actors

theorem Spares.outline {β : Type} {π : Actor κ → β} (h : Spares π s s') :
    s'.outline = s.outline :=
  congrArg (fun f : Frame => { f with closings := [] }) h.frame

theorem Spares.still (h : Spares Actor.still s s') : Spares Actor.life s s' := h.coarsen Actor.life

theorem put_life (ha : s.actor? r = some a) (a' : Actor κ) :
    (s.put r a').life = Function.update s.life r (some a'.life) := by
  funext r'
  simp only [life, actor?_put ha]
  by_cases hr : r' = r
  · subst hr
    simp
  · simp only [Function.update_of_ne hr, life]

theorem life_absent (ha : s.actor? r = none) (g : Life → Life) :
    Function.update s.life r ((s.life r).map g) = s.life := by
  have hnone : (s.life r).map g = s.life r := by simp [life, ha]
  rw [hnone, Function.update_eq_self]

theorem atActor_life {α : Type} (s : System κ) (r : ActorRef) (absent : α)
    {f : Actor κ → α × Actor κ} {g : Life → Life} (hf : ∀ a, (f a).2.life = g a.life) :
    (s.atActor r absent f).2.life = Function.update s.life r ((s.life r).map g) := by
  cases ha : s.actor? r with
  | none => rw [atActor_absent ha, life_absent ha]
  | some a =>
    rw [atActor_eq ha, put_life ha, hf]
    simp [life, ha]

theorem update_life (s : System κ) (r : ActorRef) {f : Actor κ → Actor κ} {g : Life → Life}
    (hf : ∀ a, (f a).life = g a.life) :
    (s.update r f).life = Function.update s.life r ((s.life r).map g) := by
  cases ha : s.actor? r with
  | none => rw [update_absent ha, life_absent ha]
  | some a =>
    funext r'
    simp only [life, actor?_update ha]
    by_cases hr : r' = r
    · subst hr
      simp [ha, hf]
    · simp only [Function.update_of_ne hr, life]

theorem wake_life (s : System κ) (r : ActorRef) :
    (s.wake r).life = Function.update s.life r ((s.life r).map ({ · with phase := .running })) :=
  s.update_life r fun _ => rfl

/-- The actor whose code has panicked, as it is seen while it recovers. -/
def restarting (s : System κ) (r : ActorRef) : System κ :=
  s.update r fun a =>
    { a with phase := .restarting, restarts := a.restarts + 1, timers := a.timers.finish }

def resume (s : System κ) (r : ActorRef) : System κ :=
  let s := s.reset r
  let s :=
    match s.config.restartPolicy with
    | .dropBatch => s.dropBatch r
    | .requeueRemaining => s
  s.update r fun a => { a with phase := .running }

theorem recover_eq (s : System κ) (r : ActorRef) : s.recover r = (s.restarting r).resume r := rfl

theorem restarting_life (s : System κ) (r : ActorRef) :
    (s.restarting r).life =
      Function.update s.life r ((s.life r).map ({ · with phase := .restarting })) :=
  s.update_life r fun _ => rfl

theorem resume_life (s : System κ) (r : ActorRef) :
    (s.resume r).life = Function.update s.life r ((s.life r).map ({ · with phase := .running })) := by
  have hreset : Spares Actor.life s (s.reset r) := reset_spares_of s r fun _ _ => rfl
  unfold resume
  extract_lets s₁ s₂
  have hrest : Spares Actor.life s s₂ := by
    refine hreset.trans ?_
    simp only [s₂]
    split
    · exact Spares.trans (.atActor s₁ r [] (fun a => (a.batch, { a with batch := [] })) fun _ => rfl)
        (.giveUpAll _ _)
    · exact .refl s₁
  rw [← hrest.life]
  exact s₂.update_life r fun _ => rfl

theorem recover_life (s : System κ) (r : ActorRef) :
    (s.recover r).life = Function.update s.life r ((s.life r).map ({ · with phase := .running })) := by
  rw [recover_eq, resume_life, restarting_life, Function.update_self, Function.update_idem]
  cases s.life r <;> rfl

theorem dismantle_life (s : System κ) (r : ActorRef) :
    (s.dismantle r).life =
      Function.update s.life r ((s.life r).map ({ · with phase := .closed })) := by
  cases ha : s.actor? r with
  | none =>
    rw [dismantle_absent ha, life_absent ha]
  | some a =>
    funext r'
    simp only [life, dismantle_actor? ha]
    by_cases hr : r' = r
    · subst hr
      simp [ha, Actor.life]
    · simp only [Function.update_of_ne hr, life]

theorem start_life (s : System κ) (r : ActorRef) :
    (s.start r).2.life = Function.update s.life r ((s.life r).map ({ · with dormant := false })) := by
  refine s.atActor_life r _ fun a => ?_
  cases hd : a.dormant <;> simp [Actor.start, hd, Actor.life]

theorem close_life (s : System κ) (r : ActorRef) :
    (s.close r).life = Function.update s.life r ((s.life r).map fun l =>
      if l.dormant then { l with dormant := false, phase := .closed } else l) := by
  cases ha : s.actor? r with
  | none =>
    rw [close_absent ha, life_absent ha]
  | some a =>
    have hl : s.life r = some a.life := by simp [life, ha]
    cases hd : a.dormant with
    | false =>
      rw [close_awake ha hd, put_life ha, hl]
      simp [Actor.life, hd]
    | true =>
      rw [close_dormant ha hd, (discard_spares _ r).still.life, put_life ha, hl]
      simp [Actor.life, hd]

theorem perform_life (self : ActorRef) (o : Op κ) (s : System κ) (r : ActorRef) {l : Life}
    (hl : s.life r = some l) :
    (perform self o s).2.life r = some l ∧ (o.rouses = some r → l.dormant = false) ∨
      o.rouses = some r ∧ l.dormant = true ∧
        ((perform self o s).2.life r = some { l with dormant := false } ∨
          (perform self o s).2.life r = some { l with dormant := false, phase := .closed }) := by
  have hcalm : ∀ {o : Op κ}, o.rouses = none → Spares Actor.life s (perform self o s).2 →
      (perform self o s).2.life r = some l ∧ (o.rouses = some r → l.dormant = false) := by
    intro o hnone hs
    exact ⟨by rw [hs.life, hl], by simp [hnone]⟩
  cases o with
  | setTimer delay callback args => exact .inl (hcalm rfl (.atActor s self 0 _ fun _ => rfl))
  | cancelTimer id => exact .inl (hcalm rfl (cancelTimer_spares_of s self id fun _ _ _ => rfl))
  | start target =>
    have hstart : (perform self (.start target) s).2.life = _ := s.start_life target
    rw [hstart]
    by_cases hr : r = target
    · subst hr
      rw [Function.update_self, hl]
      cases hd : l.dormant with
      | false => exact .inl ⟨by simp [← hd], fun _ => rfl⟩
      | true => exact .inr ⟨rfl, rfl, .inl rfl⟩
    · rw [Function.update_of_ne hr]
      exact .inl ⟨hl, fun hsome => absurd (Option.some.inj hsome) (Ne.symm hr)⟩
  | close target =>
    have hclose : (perform self (.close target) s).2.life = _ := s.close_life target
    rw [hclose]
    by_cases hr : r = target
    · subst hr
      rw [Function.update_self, hl]
      cases hd : l.dormant with
      | false => exact .inl ⟨by simp [hd], fun _ => rfl⟩
      | true => exact .inr ⟨rfl, rfl, .inr (by simp [hd])⟩
    · rw [Function.update_of_ne hr]
      exact .inl ⟨hl, fun hsome => absurd (Option.some.inj hsome) (Ne.symm hr)⟩
  | _ => exact .inl (hcalm rfl (perform_calm self rfl s).still)

theorem Beat.outline {ok : Op κ → Prop} (h : Beat ok r s s') : s'.outline = s.outline := by
  cases h with
  | wake => exact (Spares.update (π := fun _ => ()) s r _ fun _ => rfl).outline
  | take => exact (takeBatch_spares s r).outline
  | @begin a e rest ha hb =>
    have hput : Spares (fun _ => ()) s (s.put r { a with batch := rest }) := .put ha rfl
    exact (hput.trans (receive_spares _ r e fun _ => rfl)).outline
  | perform ho => exact (perform_spares r _ s).outline
  | complete =>
    have hcount : Spares Actor.estate (s.reset r)
        ((s.reset r).update r fun a => { a with processed := a.processed + 1 }) :=
      .update _ r _ fun _ => rfl
    exact ((reset_spares s r).trans hcount).outline
  | recover => exact (recover_spares s r).outline
  | poll => exact (Spares.atActor (π := fun _ => ()) s r none _ fun _ => rfl).outline
  | fired =>
    have hfinish : Spares Actor.estate s
        (s.update r fun a => { a with timers := a.timers.finish }) := .update s r _ fun _ => rfl
    exact (hfinish.trans (reset_spares _ r)).outline
  | pause => exact (pause_spares (π := fun _ => ()) s r fun _ => rfl).outline
  | dismantle =>
    cases ha : s.actor? r with
    | none => rw [dismantle_absent ha]
    | some a =>
      rw [dismantle_eq ha]
      exact (vacate_spares _ r).outline
  | sleep => exact (Spares.update (π := fun _ => ()) s r _ fun _ => rfl).outline

end System

namespace Machine

variable {code : κ → Invocation → Prog κ Unit} {m : Machine κ} {mv : Move κ} {r : ActorRef}
  {l l' : Life}

def asks (m : Machine κ) : Move κ → Option (Op κ)
  | .outside o => some o
  | .proceed r =>
    match m.mode r, m.todo r with
    | .ready, _ => none
    | _, .op o _ => some o
    | _, _ => none
  | _ => none

/-- Whether a move starts or closes the actor, with or without success. -/
def touches (m : Machine κ) (mv : Move κ) (r : ActorRef) : Bool :=
  (m.system.actor? r).isSome && (m.asks mv).bind Op.rouses == some r

def panics (m : Machine κ) : Move κ → Option ActorRef
  | .proceed r =>
    match m.mode r, m.todo r with
    | .ready, _ => none
    | _, .panic => some r
    | _, _ => none
  | _ => none

inductive Turnover (m : Machine κ) (mv : Move κ) (r : ActorRef) : Life → Life → Prop where
  | same {l : Life} (h : m.touches mv r = true → l.dormant = false) : Turnover m mv r l l
  | start {l : Life} (ht : m.touches mv r = true) (hd : l.dormant = true) :
    Turnover m mv r l { l with dormant := false }
  | cancel {l : Life} (ht : m.touches mv r = true) (hd : l.dormant = true) :
    Turnover m mv r l { l with dormant := false, phase := .closed }
  | wake {l : Life} (hm : mv = .wake r) (halive : l.alive = true) (hmode : m.mode r = .ready) :
    Turnover m mv r l { l with phase := .running }
  | recover {l : Life} (hm : m.panics mv = some r) : Turnover m mv r l { l with phase := .running }
  | finish {l : Life} (hm : mv = .dismantle r) (halive : l.alive = true)
      (hmode : m.mode r = .ready) :
    Turnover m mv r l { l with phase := .closed }

theorem touches_of_asks (h : m.asks mv = none) : m.touches mv r = false := by
  simp [touches, h]

theorem touches_of_absent (hl : m.system.life r = none) : m.touches mv r = false := by
  have ha : m.system.actor? r = none := Option.map_eq_none_iff.1 hl
  simp [touches, ha]

theorem turnover_of_life {s : System κ} (hs : s.life r = m.system.life r)
    (hl : m.system.life r = some l) (ht : m.asks mv = none) :
    ∃ l', s.life r = some l' ∧ m.Turnover mv r l l' :=
  ⟨l, hs.trans hl, .same fun h => by simp [touches_of_asks ht] at h⟩

theorem life_elim {s : System κ} (hl : s.life r = some l) : ∃ a, s.actor? r = some a ∧ a.life = l :=
  Option.map_eq_some_iff.1 hl

theorem turnover_of_op {o : Op κ} {self : ActorRef} (hask : m.asks mv = some o)
    (hl : m.system.life r = some l) :
    ∃ l', (System.perform self o m.system).2.life r = some l' ∧ m.Turnover mv r l l' := by
  obtain ⟨a, ha, -⟩ := life_elim hl
  have htouch : m.touches mv r = true ↔ o.rouses = some r := by simp [touches, ha, hask]
  rcases System.perform_life self o m.system r hl with ⟨hsame, hd⟩ | ⟨ho, hd, hl' | hl'⟩
  · exact ⟨l, hsame, .same fun h => hd (htouch.1 h)⟩
  · exact ⟨_, hl', .start (htouch.2 ho) hd⟩
  · exact ⟨_, hl', .cancel (htouch.2 ho) hd⟩

/-- One actor enters a phase, and all others stay as they are. -/
theorem turnover_of_phase {s : System κ} {self : ActorRef} {p : Phase}
    (hs : s.life = Function.update m.system.life self
      ((m.system.life self).map ({ · with phase := p })))
    (hl : m.system.life r = some l) (ht : m.asks mv = none)
    (hself : r = self → m.Turnover mv r l { l with phase := p }) :
    ∃ l', s.life r = some l' ∧ m.Turnover mv r l l' := by
  by_cases hr : r = self
  · subst hr
    exact ⟨_, by rw [hs, Function.update_self, hl]; rfl, hself rfl⟩
  · refine turnover_of_life ?_ hl ht
    rw [hs, Function.update_of_ne hr]

theorem idle_life {s : System κ} (hidle : (⟨s, m.mode, m.todo⟩ : Machine κ).idle r = true)
    (hl : s.life r = some l) : l.alive = true ∧ m.mode r = .ready := by
  obtain ⟨hmode, a, ha, halive, -⟩ := idle_elim hidle
  obtain ⟨a', ha', rfl⟩ := life_elim hl
  obtain rfl := Option.some.inj (ha.symm.trans ha')
  exact ⟨halive, hmode⟩

theorem begin_turnover (code : κ → Invocation → Prog κ Unit) (m : Machine κ) (self : ActorRef) :
    (m.begin code self).system.life = m.system.life := by
  unfold begin
  split
  · rename_i a hmode ha
    split
    · rfl
    · rename_i e rest hbatch
      have hput : System.Spares Actor.life m.system
          (m.system.put self { a with batch := rest }) := .put ha rfl
      exact (hput.trans (System.receive_spares _ self e fun a => a.react_life e)).life
  · rfl

theorem fire_turnover (code : κ → Invocation → Prog κ Unit) (m : Machine κ) (self : ActorRef) :
    (m.fire code self).system.life = m.system.life := by
  unfold fire
  split
  · have hpoll : System.Spares Actor.life m.system (m.system.expire self).2 :=
      .atActor m.system self none _ fun a => a.expire_life _
    unfold System.expire at hpoll
    dsimp only
    generalize m.system.atActor self none _ = p at hpoll ⊢
    obtain ⟨_ | e, s⟩ := p
    · exact hpoll.life
    · exact hpoll.life
  · rfl

theorem proceed_turnover (m : Machine κ) (self : ActorRef) (hl : m.system.life r = some l) :
    ∃ l', (m.proceed self).2.system.life r = some l' ∧ m.Turnover (.proceed self) r l l' := by
  have hcount : System.Spares Actor.life m.system
      ((m.system.reset self).update self fun a => { a with processed := a.processed + 1 }) :=
    (System.reset_spares_of m.system self fun _ _ => rfl).trans (.update _ self _ fun _ => rfl)
  have hfinish : System.Spares Actor.life m.system
      (m.system.update self fun a => { a with timers := a.timers.finish }) :=
    .update m.system self _ fun _ => rfl
  have hfired := hfinish.trans (System.reset_spares_of _ self fun _ _ => rfl)
  unfold proceed
  split
  · rename_i hmode
    exact turnover_of_life rfl hl (by simp [asks, hmode])
  · rename_i o next htodo hnot
    refine turnover_of_op ?_ hl
    cases hmode : m.mode self with
    | ready => exact absurd hmode hnot
    | _ => simp [asks, hmode, htodo]
  · rename_i e u hmode htodo
    exact turnover_of_life (congrFun hcount.life r) hl (by simp [asks, hmode, htodo])
  · rename_i e hmode htodo
    exact turnover_of_phase (m.system.recover_life self) hl (by simp [asks, hmode, htodo]) fun hr =>
      .recover (by simp [panics, hmode, htodo, hr])
  · rename_i u hmode htodo
    exact turnover_of_life (congrFun hfired.life r) hl (by simp [asks, hmode, htodo])
  · rename_i hmode htodo
    exact turnover_of_phase (m.system.recover_life self) hl (by simp [asks, hmode, htodo]) fun hr =>
      .recover (by simp [panics, hmode, htodo, hr])

theorem spawn_life (s : System κ) (name : String) :
    (s.spawn name).2.life = Function.update s.life s.actors.size
      (some ⟨s.ids.fresh.1, name, .created, true⟩) := by
  funext r
  by_cases hr : r = s.actors.size
  · subst hr
    simp [System.life, System.spawn, System.actor?, Actor.new, Actor.life]
  · rw [Function.update_of_ne hr]
    simp [System.life, System.spawn, System.actor?, Array.getElem?_push, hr]

theorem step_turnover (code : κ → Invocation → Prog κ Unit) (m : Machine κ) (mv : Move κ)
    (hl : m.system.life r = some l) :
    ∃ l', (m.step code mv).2.system.life r = some l' ∧ m.Turnover mv r l l' := by
  cases mv with
  | outside o => exact turnover_of_op rfl hl
  | request self name args =>
    exact turnover_of_life (congrFun (System.request_spares m.system self name args).still.life r) hl
      rfl
  | expire c =>
    exact turnover_of_life (congrFun (System.Spares.settle m.system c .timedOut).life r) hl rfl
  | abandon c =>
    exact turnover_of_life (congrFun (System.Spares.settle m.system c .abandoned).life r) hl rfl
  | elsewhere c use =>
    exact turnover_of_life (congrFun (System.elsewhere_spares m.system c use).still.life r) hl rfl
  | spawn name =>
    refine turnover_of_life ?_ hl rfl
    obtain ⟨a, ha, -⟩ := life_elim hl
    have hlt : r < m.system.actors.size := (Array.getElem?_eq_some_iff.1 ha).1
    exact (congrFun (spawn_life m.system name) r).trans
      (Function.update_of_ne (Nat.ne_of_lt hlt) _ _)
  | arrange clock ids started names pools => exact turnover_of_life rfl hl rfl
  | tend self stirred announced notified channel stage watch =>
    have htend : System.Spares Actor.life m.system (m.system.update self fun a =>
        { a with
          mailbox := { a.mailbox with announced, notified, channel }, stirred, stage, watch }) :=
      .update m.system self _ fun _ => rfl
    exact turnover_of_life (congrFun htend.life r) hl rfl
  | wake self =>
    simp only [step]
    split
    · rename_i hidle
      refine turnover_of_phase (m.system.wake_life self) hl rfl fun hr => ?_
      subst hr
      obtain ⟨halive, hmode⟩ := idle_life hidle hl
      exact .wake rfl halive hmode
    · exact turnover_of_life rfl hl rfl
  | take self =>
    simp only [step]
    split
    · have htake : System.Spares Actor.life m.system (m.system.takeBatch self).2 :=
        .atActor m.system self 0 _ fun _ => rfl
      exact turnover_of_life (congrFun htake.life r) hl rfl
    · exact turnover_of_life rfl hl rfl
  | dispatch self => exact turnover_of_life (congrFun (begin_turnover code m self) r) hl rfl
  | proceed self => exact proceed_turnover m self hl
  | fire self => exact turnover_of_life (congrFun (fire_turnover code m self) r) hl rfl
  | dismantle self =>
    simp only [step, dismantle]
    split
    · rename_i hguard
      simp only [Bool.and_eq_true] at hguard
      refine turnover_of_phase (m.system.dismantle_life self) hl rfl fun hr => ?_
      subst hr
      obtain ⟨halive, hmode⟩ := idle_life hguard.1.1 hl
      exact .finish rfl halive hmode
    · exact turnover_of_life rfl hl rfl

def builds : Move κ → Bool
  | .spawn _ => true
  | .arrange .. => true
  | _ => false

theorem proceed_outline (m : Machine κ) (self : ActorRef) :
    (m.proceed self).2.system.outline = m.system.outline := by
  have hbeat : ∀ {s}, System.Beat (fun _ => True) self m.system s → s.outline = m.system.outline :=
    fun h => h.outline
  unfold proceed
  split
  · rfl
  · exact hbeat (.perform trivial)
  · exact hbeat (.complete _)
  · exact hbeat (.recover _)
  · exact hbeat (.fired _)
  · exact hbeat (.recover _)

theorem step_outline (code : κ → Invocation → Prog κ Unit) (m : Machine κ) (mv : Move κ)
    (hmv : builds mv = false) : (m.step code mv).2.system.outline = m.system.outline := by
  have hbeat : ∀ {self s}, System.Beat (fun _ => True) self m.system s →
      s.outline = m.system.outline := fun h => h.outline
  cases mv with
  | spawn | arrange => cases hmv
  | outside o => exact hbeat (.perform trivial)
  | request self name args => exact (System.request_spares m.system self name args).outline
  | expire c => exact (System.Spares.settle (π := Actor.life) m.system c .timedOut).outline
  | abandon c => exact (System.Spares.settle (π := Actor.life) m.system c .abandoned).outline
  | elsewhere c use => exact (System.elsewhere_spares m.system c use).outline
  | tend self stirred announced notified channel stage watch =>
    have htend : System.Spares Actor.life m.system (m.system.update self fun a =>
        { a with
          mailbox := { a.mailbox with announced, notified, channel }, stirred, stage, watch }) :=
      .update m.system self _ fun _ => rfl
    exact htend.outline
  | wake self =>
    simp only [step]
    split
    · exact hbeat (.wake _)
    · rfl
  | take self =>
    simp only [step]
    split
    · exact hbeat (.take _)
    · rfl
  | dispatch self =>
    simp only [step, begin]
    split
    · rename_i a hmode ha
      split
      · rfl
      · rename_i e rest hbatch
        exact hbeat (.begin ha hbatch)
    · rfl
  | proceed self => exact proceed_outline m self
  | fire self =>
    have hpoll : (m.system.expire self).2.outline = m.system.outline := hbeat (.poll _)
    simp only [step, fire]
    split
    · unfold System.expire at hpoll
      generalize m.system.atActor self none _ = p at hpoll ⊢
      obtain ⟨_ | e, s⟩ := p <;> exact hpoll
    · rfl
  | dismantle self =>
    simp only [step, dismantle]
    split
    · exact hbeat (.dismantle _)
    · rfl

theorem life_eq_none_iff {s : System κ} : s.life r = none ↔ s.actors.size ≤ r := by
  simp [System.life, System.actor?]

theorem size_of_outline {s s' : System κ} (h : s'.outline = s.outline) :
    s'.actors.size = s.actors.size := congrArg System.Frame.size h

theorem step_absent (code : κ → Invocation → Prog κ Unit) (m : Machine κ) (mv : Move κ)
    (hl : m.system.life r = none) (hl' : (m.step code mv).2.system.life r = some l') :
    ∃ name, mv = .spawn name ∧ r = m.system.actors.size ∧
      l' = ⟨m.system.ids.fresh.1, name, .created, true⟩ := by
  cases hb : builds mv with
  | false =>
    have hsize := size_of_outline (step_outline code m mv hb)
    rw [life_eq_none_iff.2 (hsize ▸ life_eq_none_iff.1 hl)] at hl'
    cases hl'
  | true =>
    cases mv with
    | spawn name =>
      have hspawn : (m.step code (.spawn name)).2.system.life = _ := spawn_life m.system name
      rw [hspawn] at hl'
      by_cases hr : r = m.system.actors.size
      · subst hr
        rw [Function.update_self] at hl'
        exact ⟨name, rfl, rfl, (Option.some.inj hl').symm⟩
      · rw [Function.update_of_ne hr, hl] at hl'
        cases hl'
    | arrange clock ids started names pools =>
      have hsame : (m.step code (.arrange clock ids started names pools)).2.system.life r =
          m.system.life r := rfl
      rw [hsame, hl] at hl'
      cases hl'
    | _ => cases hb

namespace Turnover

theorem identity (h : m.Turnover mv r l l') : l'.id = l.id ∧ l'.name = l.name := by
  cases h <;> exact ⟨rfl, rfl⟩

theorem asks_of_panics (hm : m.panics mv = some r) : m.asks mv = none := by
  cases mv with
  | proceed self =>
    cases hmode : m.mode self with
    | ready => simp [asks, hmode]
    | _ =>
      cases htodo : m.todo self with
      | op o next => simp [panics, hmode, htodo] at hm
      | _ => simp [asks, hmode, htodo]
  | _ => cases hm

theorem dormant (h : m.Turnover mv r l l') : l'.dormant = (l.dormant && !m.touches mv r) := by
  cases h with
  | same h =>
    cases ht : m.touches mv r with
    | false => simp
    | true => simp [h ht]
  | start ht hd => simp [ht]
  | cancel ht hd => simp [ht]
  | wake hm =>
    have hasks : m.asks mv = none := by
      rw [hm]
      rfl
    simp [touches_of_asks hasks]
  | recover hm => simp [touches_of_asks (asks_of_panics hm)]
  | finish hm =>
    have hasks : m.asks mv = none := by
      rw [hm]
      rfl
    simp [touches_of_asks hasks]

end Turnover

/-- The loops keep their order: an actor is woken before it does anything else. -/
def paced (m : Machine κ) : Move κ → Bool
  | .take r => m.system.ask r true fun a => a.phase != .created
  | .dispatch r => m.system.ask r true fun a => a.phase != .created
  | .fire r => m.system.ask r true fun a => a.phase != .created
  | .dismantle r => m.system.ask r true fun a => a.phase != .created
  | _ => true

def sights (code : κ → Invocation → Prog κ Unit) (m : Machine κ) (mv : Move κ) : List (System κ) :=
  (m.panics mv).toList.map m.system.restarting ++ [(m.step code mv).2.system]

/-- How the phases of the actors go with what they are at. -/
structure Phased (m : Machine κ) : Prop where
  steady : ∀ r l, m.system.life r = some l → l.phase ≠ .restarting
  fresh : ∀ r l, m.system.life r = some l → l.dormant = true → l.phase = .created
  busy : ∀ r l, m.system.life r = some l → m.mode r ≠ .ready → l.phase = .running

/-- A ledger tells of the life of its actor what the books need. -/
theorem ledger_of_life (hl : m.system.life r = some l) :
    ∃ b, m.books.ledger r = some b ∧ b.dormant = l.dormant ∧
      (b.closed = true ↔ l.phase = .closed) := by
  obtain ⟨a, ha, rfl⟩ := life_elim hl
  exact ⟨a.ledger, System.ledger_intro ha, rfl, by simp [Actor.ledger, Actor.life]⟩

theorem busy_of_panics (hp : m.panics mv = some r) : m.mode r ≠ .ready := by
  cases mv with
  | proceed self =>
    cases hmode : m.mode self with
    | ready => simp [panics, hmode] at hp
    | _ =>
      cases htodo : m.todo self with
      | panic =>
        simp only [panics, hmode, htodo, Option.some.injEq] at hp
        simp [← hp, hmode]
      | _ => simp [panics, hmode, htodo] at hp
  | _ => cases hp

theorem step_of_panics (code : κ → Invocation → Prog κ Unit) (hp : m.panics mv = some r) :
    (m.step code mv).2.system = m.system.recover r := by
  cases mv with
  | proceed self =>
    cases hmode : m.mode self with
    | ready => simp [panics, hmode] at hp
    | _ =>
      cases htodo : m.todo self with
      | panic =>
        simp only [panics, hmode, htodo, Option.some.injEq] at hp
        subst hp
        simp only [step, proceed, hmode, htodo]
        rfl
      | _ => simp [panics, hmode, htodo] at hp
  | _ => cases hp

/-! An actor is left at what it is at by what another one does. -/

theorem mode_runs {self : ActorRef} (hr : r ≠ self) (mode : Mode κ) (p : Prog κ Unit)
    (s : System κ) : (m.runs self mode p s).mode r = m.mode r := Function.update_of_ne hr _ _

theorem mode_begin {self : ActorRef} (code : κ → Invocation → Prog κ Unit) (hr : r ≠ self) :
    (m.begin code self).mode r = m.mode r := by
  unfold begin
  split
  · split
    · rfl
    · exact mode_runs hr _ _ _
  · rfl

theorem mode_fire {self : ActorRef} (code : κ → Invocation → Prog κ Unit) (hr : r ≠ self) :
    (m.fire code self).mode r = m.mode r := by
  unfold fire
  split
  · generalize m.system.atActor self none _ = p
    obtain ⟨_ | e, s⟩ := p
    · rfl
    · exact mode_runs hr _ _ _
  · rfl

theorem mode_proceed {self : ActorRef} (hr : r ≠ self) :
    (m.proceed self).2.mode r = m.mode r := by
  unfold proceed
  split
  · rfl
  all_goals exact mode_runs hr _ _ _

theorem busy_of_proceed (hb : (m.proceed r).2.mode r ≠ .ready) : m.mode r ≠ .ready := by
  intro hready
  simp [proceed, hready] at hb

/-- Only by a dispatch or a timer does an actor become busy. -/
theorem busy_of_step (code : κ → Invocation → Prog κ Unit)
    (hb : (m.step code mv).2.mode r ≠ .ready) :
    m.mode r ≠ .ready ∨
      m.paced mv = m.system.ask r true (fun a => a.phase != .created) ∧
        (m.step code mv).2.system.life = m.system.life ∧
          ∃ a, m.system.actor? r = some a ∧ (a.batch ≠ [] ∨ a.alive = true) := by
  cases mv with
  | wake self | take self =>
    simp only [step] at hb
    split at hb <;> exact .inl hb
  | dispatch self =>
    by_cases hr : r = self
    · subst hr
      refine or_iff_not_imp_left.2 fun hready => ⟨rfl, begin_turnover code m r, ?_⟩
      rw [not_not] at hready
      cases ha : m.system.actor? r with
      | none => simp [step, begin, hready, ha] at hb
      | some a =>
        refine ⟨a, rfl, .inl fun hnil => ?_⟩
        simp [step, begin, hready, ha, hnil] at hb
    · exact .inl (mode_begin code hr ▸ hb)
  | proceed self =>
    refine .inl ?_
    by_cases hr : r = self
    · subst hr
      exact busy_of_proceed hb
    · exact mode_proceed hr ▸ hb
  | fire self =>
    by_cases hr : r = self
    · subst hr
      refine or_iff_not_imp_left.2 fun hready => ⟨rfl, fire_turnover code m r, ?_⟩
      rw [not_not] at hready
      cases hidle : m.idle r with
      | true =>
        obtain ⟨-, a, ha, halive, -⟩ := idle_elim hidle
        exact ⟨a, ha, .inr halive⟩
      | false => simp [step, fire, hidle, hready] at hb
    · exact .inl (mode_fire code hr ▸ hb)
  | dismantle self =>
    simp only [step, dismantle] at hb
    split at hb <;> exact .inl hb
  | _ => exact .inl hb

namespace Phased

theorem turnover (hp : m.Phased) (hf : m.books.Fit) (hpaced : m.paced mv = true)
    (hl : m.system.life r = some l) (ht : m.Turnover mv r l l') :
    (l'.dormant = true → l'.phase = .created) ∧ (m.mode r ≠ .ready → l'.phase = .running) ∧
      l'.phase ≠ .restarting ∧ l.phase.Passes l'.phase := by
  obtain ⟨b, hb, hdormant, hclosed⟩ := ledger_of_life hl
  have hfit := hf.ledger r b hb
  have hrunning : m.mode r ≠ .ready → l.dormant = false := fun hmode =>
    hdormant ▸ (hfit.running hmode).1
  have hsteady := hp.steady r l hl
  cases ht with
  | same => exact ⟨hp.fresh r l hl, hp.busy r l hl, hsteady, .stay _⟩
  | start ht hd => exact ⟨fun h => (Bool.false_ne_true h).elim, hp.busy r l hl, hsteady, .stay _⟩
  | cancel ht hd =>
    refine ⟨fun h => (Bool.false_ne_true h).elim, fun hmode => ?_, by simp, ?_⟩
    · rw [hrunning hmode] at hd
      cases hd
    · rw [hp.fresh r l hl hd]
      exact .cancel
  | wake hm halive hmode =>
    simp only [Life.alive, Bool.and_eq_true, Bool.not_eq_true', bne_iff_ne] at halive
    refine ⟨fun h => ?_, fun _ => rfl, by simp, ?_⟩
    · rw [halive.1] at h
      cases h
    · cases hphase : l.phase with
      | created => exact .wake
      | running => exact .stay _
      | restarting => exact absurd hphase hsteady
      | closed => exact absurd hphase halive.2
  | recover hm =>
    have hmode := busy_of_panics hm
    refine ⟨fun h => ?_, fun _ => rfl, by simp, ?_⟩
    · rw [hrunning hmode] at h
      cases h
    · rw [hp.busy r l hl hmode]
      exact .stay _
  | finish hm halive hmode =>
    subst hm
    simp only [Life.alive, Bool.and_eq_true, Bool.not_eq_true', bne_iff_ne] at halive
    refine ⟨fun h => ?_, fun h => absurd hmode h, by simp, ?_⟩
    · rw [halive.1] at h
      cases h
    · obtain ⟨a, ha, rfl⟩ := life_elim hl
      simp only [paced, System.ask_eq ha, bne_iff_ne] at hpaced
      change a.phase.Passes .closed
      cases hphase : a.phase with
      | created => exact absurd hphase hpaced
      | running => exact .finish
      | restarting => exact absurd hphase hsteady
      | closed => exact absurd hphase halive.2

theorem step (code : κ → Invocation → Prog κ Unit) (hp : m.Phased) (hf : m.books.Fit)
    (hpaced : m.paced mv = true) : (m.step code mv).2.Phased := by
  have hone : ∀ r l', (m.step code mv).2.system.life r = some l' →
      l'.phase ≠ .restarting ∧ (l'.dormant = true → l'.phase = .created) ∧
        (m.mode r ≠ .ready → l'.phase = .running) := by
    intro r l' hl'
    cases hl : m.system.life r with
    | none =>
      obtain ⟨name, -, -, rfl⟩ := step_absent code m mv hl hl'
      have hready : m.mode r = .ready := hf.absent r (by
        rw [System.life, Option.map_eq_none_iff] at hl
        exact System.books_none hl _ _)
      exact ⟨by simp, fun _ => rfl, fun h => absurd hready h⟩
    | some l =>
      obtain ⟨l₁, hl₁, ht⟩ := step_turnover code m mv hl
      obtain rfl := Option.some.inj (hl₁.symm.trans hl')
      obtain ⟨hfresh, hbusy, hsteady, -⟩ := hp.turnover hf hpaced hl ht
      exact ⟨hsteady, hfresh, hbusy⟩
  refine ⟨fun r l' hl' => (hone r l' hl').1, fun r l' hl' => (hone r l' hl').2.1,
    fun r l' hl' hb => ?_⟩
  rcases busy_of_step code hb with hbusy | ⟨hpace, hlife, a, ha, hwork⟩
  · exact (hone r l' hl').2.2 hbusy
  · rw [hpace, System.ask_eq ha, bne_iff_ne] at hpaced
    have hl : m.system.life r = some a.life := by simp [System.life, ha]
    rw [hlife, hl] at hl'
    obtain rfl := Option.some.inj hl'
    have hopen : a.phase ≠ .closed := by
      intro hclosed
      rcases hwork with hbatch | halive
      · have hfit := hf.ledger r _ (System.ledger_intro ha)
        exact hbatch (hfit.closed (by simp [Actor.ledger, hclosed])).2.1
      · simp [Actor.alive, hclosed] at halive
    have hsteady := hp.steady r _ hl
    cases hphase : a.phase with
    | created => exact absurd hphase hpaced
    | running => exact hphase
    | restarting => exact absurd hphase hsteady
    | closed => exact absurd hphase hopen

end Phased

end Machine

/-- The phase of each actor in one system may come directly after that in the other. -/
def System.Passes (s s' : System κ) : Prop :=
  ∀ r, Phase.Goes ((s.actor? r).map Actor.phase) ((s'.actor? r).map Actor.phase)

namespace Machine

variable {code : κ → Invocation → Prog κ Unit} {m : Machine κ} {mv : Move κ}

theorem phase_of_life (s : System κ) (r : ActorRef) :
    (s.actor? r).map Actor.phase = (s.life r).map Life.phase := by
  simp [System.life, Actor.life, Function.comp_def]

/-- The phases pass through a panic, and else they pass at once. -/
theorem Phased.passes (code : κ → Invocation → Prog κ Unit) (hp : m.Phased) (hf : m.books.Fit)
    (hpaced : m.paced mv = true) : List.IsChain System.Passes (m.system :: m.sights code mv) := by
  have hnew : ∀ r, m.system.life r = none →
      Phase.Goes none (((m.step code mv).2.system.life r).map Life.phase) := by
    intro r hl
    cases hl' : (m.step code mv).2.system.life r with
    | none => trivial
    | some l' =>
      obtain ⟨name, -, -, rfl⟩ := step_absent code m mv hl hl'
      rfl
  unfold sights
  cases hpanic : m.panics mv with
  | none =>
    refine .cons_cons (fun r => ?_) (.singleton _)
    rw [phase_of_life, phase_of_life]
    cases hl : m.system.life r with
    | none => exact hnew r hl
    | some l =>
      obtain ⟨l', hl', ht⟩ := step_turnover code m mv hl
      rw [hl']
      obtain ⟨-, -, -, hpasses⟩ := hp.turnover hf hpaced hl ht
      exact hpasses
  | some r₀ =>
    have hbusy := busy_of_panics hpanic
    rw [step_of_panics code hpanic]
    refine .cons_cons (fun r => ?_) (.cons_cons (fun r => ?_) (.singleton _)) <;>
      rw [phase_of_life, phase_of_life]
    · rw [System.restarting_life]
      by_cases hr : r = r₀
      · subst hr
        rw [Function.update_self]
        cases hl : m.system.life r with
        | none => trivial
        | some l =>
          change l.phase.Passes .restarting
          rw [hp.busy r l hl hbusy]
          exact .panic
      · rw [Function.update_of_ne hr]
        cases m.system.life r with
        | none => trivial
        | some l => exact .stay _
    · rw [System.recover_life, System.restarting_life]
      by_cases hr : r = r₀
      · subst hr
        rw [Function.update_self, Function.update_self]
        cases m.system.life r with
        | none => trivial
        | some l => exact .resume
      · rw [Function.update_of_ne hr, Function.update_of_ne hr]
        cases m.system.life r with
        | none => trivial
        | some l => exact .stay _

end Machine

end ActorSystem
