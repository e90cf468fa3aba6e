import ActorSystem.Proofs.Accounting
import ActorSystem.Proofs.Timetable
import ActorSystem.Proofs.Waiting

set_option autoImplicit false

namespace ActorSystem

open Timer (Agenda Expired Mirrors TimerId Wheel tickRange)

variable {κ : Type}

/-- The ledger of an actor that has been started, after its code has run: more may wait for it, and
nothing has been taken. -/
structure Ledger.Grows (l l' : Ledger κ) : Prop where
  batch : l'.batch = l.batch
  dormant : l.dormant = false → l'.dormant = false
  inbox : l.dormant = false → l.inbox <+: l'.inbox

namespace Ledger.Grows

variable {l l' l'' : Ledger κ}

theorem refl (l : Ledger κ) : l.Grows l := ⟨rfl, id, fun _ => List.prefix_refl _⟩

theorem trans (h : l.Grows l') (h' : l'.Grows l'') : l.Grows l'' :=
  ⟨h'.batch.trans h.batch, fun hd => h'.dormant (h.dormant hd),
    fun hd => (h.inbox hd).trans (h'.inbox (h.dormant hd))⟩

end Ledger.Grows

theorem Effect.grows {mode : Mode κ} {l l' : Ledger κ} {ins outs : List CallRef}
    {hs : List (Happening κ)} {xs : List (CallRef × CallState)} (he : Effect mode l ins hs xs outs l') :
    l.Grows l' := by
  cases he <;> constructor <;> simp_all [Ledger.accept, Ledger.board]

namespace System

variable {code : κ → Invocation → Prog κ Unit} {limit : Nat} {c : Clock}
  {s s' : System κ} {r self : ActorRef} {a : Actor κ}

theorem exec_grows {α : Type} (self : ActorRef) (p : Prog κ α) (s : System κ) :
    Option.Rel Ledger.Grows (s.ledger r) ((exec self p s).2.ledger r) := by
  induction p generalizing s with
  | pure x => exact related_refl .refl _
  | panic => exact related_refl .refl _
  | op o next ih =>
    have hd : (s.books (fun _ => .firing) fun _ => []).Deal (s.heard self o)
        ((perform self o s).2.books (fun _ => .firing) fun _ => []) :=
      perform_deal s (.inr (by simp)) o
    exact related_trans (fun _ _ _ => .trans) (hd.relates .refl (fun _ _ _ => .trans) Effect.grows r)
      (ih _ _)

/-- The agenda of the actor between two runs of code, with the chronicle so far. -/
structure Timed (limit : Nat) (r : ActorRef) (c : Clock) (ds : List (Deed κ)) (s : System κ)
    (g : Agenda (Task κ)) : Prop where
  clock : s.clock = c
  minds : Minds g s r
  logged : Logged limit r ds g
  maxDelay : g.maxDelay = limit
  idle : g.running = none
  restarts : s.ask r 0 Actor.restarts = panicsOf r ds
  undisturbed : ∀ d ∈ deedsOf r ds, d.fired?.isSome = true → d.waiting <+: d.left

def OnTime (limit : Nat) (r : ActorRef) (c : Clock) (ds : List (Deed κ)) (s : System κ) : Prop :=
  ∃ g, Timed limit r c ds s g

theorem OnTime.leaves {ds : List (Deed κ)} (h : OnTime limit r c ds s) (hl : Leaves r s s') :
    OnTime limit r c ds s' := by
  obtain ⟨g, hg⟩ := h
  exact ⟨g, hl.clock.trans hg.clock, hg.minds.leaves hl, hg.logged, hg.maxDelay, hg.idle,
    hl.restarts.trans hg.restarts, hg.undisturbed⟩

theorem OnTime.other {ds : List (Deed κ)} {d : Deed κ} (h : OnTime limit r c ds s) (hl : Leaves r s s')
    (hd : d.actor ≠ r) : OnTime limit r c (ds ++ [d]) s' := by
  obtain ⟨g, hg⟩ := h.leaves hl
  have hdeeds : deedsOf r (ds ++ [d]) = deedsOf r ds := by
    rw [deedsOf_append]
    simp [deedsOf, hd]
  refine ⟨g, hg.clock, hg.minds, hg.logged.other hd, hg.maxDelay, hg.idle, ?_,
    hdeeds ▸ hg.undisturbed⟩
  rw [hg.restarts, panicsOf, panicsOf, hdeeds]

/-- How a run of the actor's own code ends, with `run` the timer that was running. -/
structure Ends (r : ActorRef) (run : Option TimerId) (returned : Bool) (s s' : System κ) : Prop where
  clock : s'.clock = s.clock
  actor : ∀ a, s.actor? r = some a → a.alive = true → ∃ a', s'.actor? r = some a' ∧
    a'.dormant = false ∧ a'.restarts = a.restarts + (if returned then 0 else 1) ∧
      (a'.timers = a.timers.finish ∨ run = none ∧ a'.timers = a.timers)

/-- The actor's own code has run; `g₁` was its agenda when it began, and `g` that of the chronicle. -/
theorem OnTime.own {ds : List (Deed κ)} {g g₁ : Agenda (Task κ)} {cause : Cause κ}
    {p : Prog κ Unit} (hclock : s.clock = c) (hlog : Logged limit r ds g) (h₁ : Minds g₁ s r)
    (hlimit : g₁.maxDelay = limit)
    (halive : s.Alive r) (hrestarts : s.ask r 0 Actor.restarts = panicsOf r ds)
    (hundisturbed : ∀ d ∈ deedsOf r ds, d.fired?.isSome = true → d.waiting <+: d.left)
    (hadded : g₁.added = g.added) (hcancelled : g₁.cancelled = g.cancelled)
    (hfired : g₁.fired = g.fired ++ (deed r cause p s s').fired?.toList)
    (hrunning : g₁.running = (deed r cause p s s').running?)
    (hnew : ∀ f ∈ g.fired, (deed r cause p s s').running? ≠ some f.2.id)
    (hends : Ends r (deed r cause p s s').running? (exec r p s).1.isSome (exec r p s).2 s')
    (hqueue : (deed r cause p s s').fired?.isSome = true →
      (deed r cause p s s').waiting <+: (deed r cause p s s').left)
    (hfew : (setBy limit r (ds ++ [deed r cause p s s'])).length ≤ 2 ^ 24 - 2) :
    OnTime limit r c (ds ++ [deed r cause p s s']) s' := by
  have hone : deedsOf r [deed r cause p s s'] = [deed r cause p s s'] := by simp [deedsOf, deed]
  have hset : setBy limit r [deed r cause p s s'] =
      (doings r p s).filterMap (Done.set? (limit) s.clock.now) := by
    rw [setBy, hone]
    simp [Deed.set, deed]
  have hpanics : panicsOf r [deed r cause p s s'] = if (exec r p s).1.isSome then 0 else 1 := by
    rw [panicsOf, hone]
    cases hret : (exec r p s).1.isSome <;> simp [deed, hret]
  obtain ⟨g₂, h₂, hans⟩ := h₁.exec halive p (by
    rwa [hadded, hlimit, hlog.added, ← hset, ← List.length_append, ← setBy_append])
  have hlog₂ : Logged limit r (ds ++ [deed r cause p s s']) g₂ :=
    hlog.own rfl hlimit hadded hcancelled hfired hrunning hnew hans
  have hcore := exec_spares r p s
  obtain ⟨l₂, hl₂, hlive₂⟩ := (Shrinks.exec (r := r) p s).alive halive
  obtain ⟨a₂, ha₂, rfl⟩ := ledger_elim hl₂
  obtain ⟨a', ha', hdormant, hcount, htimers⟩ := hends.actor a₂ ha₂ hlive₂
  obtain ⟨ps, hm⟩ := h₂.alive a₂ ha₂ hlive₂
  have hfinish : ∃ ps, Mirrors g₂.finish a'.timers ps (exec r p s).2.clock.now := by
    rcases htimers with heq | ⟨hnone, heq⟩
    · exact ⟨ps, heq ▸ hm.finish⟩
    · have hsame : g₂.finish = g₂ := by
        have hrun : g₂.running = none := hans.running.trans (hrunning.trans hnone)
        cases g₂
        cases hrun
        rfl
      exact ⟨ps, by rw [heq, hsame]; exact hm⟩
  refine ⟨g₂.finish, hends.clock.trans (hcore.clock.trans hclock),
    h₂.retime hends.clock ha' hdormant h₂.kept.finish hfinish,
    ⟨hlog₂.added, hlog₂.fired, hlog₂.cancelled, hlog₂.spent⟩, hans.maxDelay.trans hlimit, rfl, ?_,
    fun d hd hf => ?_⟩
  · obtain ⟨a, ha, heq⟩ := hcore.some_rev ha₂
    have hsame : a₂.core.restarts = a.core.restarts := congrArg Actor.restarts heq
    have hkept : a₂.restarts = a.restarts := hsame
    rw [ask_eq ha', hcount, hkept, panicsOf_append, hpanics, ← hrestarts, ask_eq ha]
  · rw [deedsOf_append, hone] at hd
    rcases List.mem_append.1 hd with hd | hd
    · exact hundisturbed d hd hf
    · obtain rfl := List.mem_singleton.1 hd
      exact hqueue hf

theorem recover_ends (s : System κ) (run : Option TimerId) : Ends r run false s (s.recover r) := by
  have hspares := recover_spares s r
  refine ⟨hspares.clock, fun a ha halive => ?_⟩
  obtain ⟨a', hl, htimers, ht⟩ := recover_turns ha
  have hdormant : a'.dormant = a.dormant := congrArg Ledger.dormant hl
  have hrestarts : a'.restarts = a.restarts + 1 := congrArg Ledger.restarts hl
  refine ⟨a', ht.actor?_self, ?_, by simpa using hrestarts, .inl htimers⟩
  rw [hdormant]
  exact (Ledger.alive_elim (l := a.ledger) halive).1

theorem recover_leaves (ha : s.actor? self = some a) (hself : self ≠ r) :
    Leaves r s (s.recover self) := by
  obtain ⟨a', -, -, ht⟩ := recover_turns ha
  exact .elsewhere (recover_spares s self).clock ht.config
    (by rw [ht.actor, Function.update_of_ne hself.symm])

theorem reset_leaves (s : System κ) : Leaves r s (s.reset self) :=
  .spares (reset_spares_of s self fun _ _ => rfl)

theorem completed_spares (s : System κ) (r : ActorRef) :
    Spares clockwork s ((s.reset r).update r fun a => { a with processed := a.processed + 1 }) :=
  (reset_spares_of s r fun _ _ => rfl).trans (.update _ r _ fun _ => rfl)

theorem afterEvent_ends (s : System κ) (returned : Bool) :
    Ends r none returned s (s.afterEvent r returned) := by
  cases returned with
  | false => exact recover_ends s none
  | true =>
    have hspares := completed_spares s r
    refine ⟨hspares.clock, fun a ha halive => ?_⟩
    obtain ⟨a', ha', heq⟩ := hspares.some ha
    simp only [clockwork, Prod.mk.injEq] at heq
    obtain ⟨htimers, -, hdormant, hrestarts⟩ := heq
    refine ⟨a', ha', ?_, hrestarts, .inr ⟨rfl, htimers⟩⟩
    rw [hdormant]
    exact (Ledger.alive_elim (l := a.ledger) halive).1

theorem afterEvent_leaves (ha : s.actor? self = some a) (hself : self ≠ r) (returned : Bool) :
    Leaves r s (s.afterEvent self returned) := by
  cases returned with
  | false => exact recover_leaves ha hself
  | true => exact .spares (completed_spares s self)

theorem afterTimer_ends (s : System κ) (run : Option TimerId) (returned : Bool) :
    Ends r run returned s (s.afterTimer r returned) := by
  cases returned with
  | false => exact recover_ends s run
  | true =>
    have hreset : Spares clockwork (s.update r fun a => { a with timers := a.timers.finish })
        (s.afterTimer r true) := reset_spares_of _ r fun _ _ => rfl
    refine ⟨hreset.clock, fun a ha halive => ?_⟩
    obtain ⟨a', ha', heq⟩ := hreset.some (Turns.update ha _).actor?_self
    simp only [clockwork, Prod.mk.injEq] at heq
    obtain ⟨htimers, -, hdormant, hrestarts⟩ := heq
    refine ⟨a', ha', ?_, hrestarts, .inl htimers⟩
    rw [hdormant]
    exact (Ledger.alive_elim (l := a.ledger) halive).1

theorem afterTimer_leaves (ha : s.actor? self = some a) (hself : self ≠ r) (returned : Bool) :
    Leaves r s (s.afterTimer self returned) := by
  cases returned with
  | false => exact recover_leaves ha hself
  | true =>
    have ht := Turns.update ha fun a => { a with timers := a.timers.finish }
    have hfinish : Leaves r s (s.update self fun a => { a with timers := a.timers.finish }) :=
      .elsewhere rfl rfl (by rw [ht.actor, Function.update_of_ne hself.symm])
    exact hfinish.trans (reset_leaves _)

/-- With no batch, nothing that waits is lost to a timer callback, even if that panics. -/
theorem afterTimer_queue (ha : s.actor? r = some a) (hbatch : a.batch = []) (returned : Bool) :
    (s.afterTimer r returned).ask r [] Actor.queue = a.mailbox.toList := by
  cases returned with
  | false =>
    obtain ⟨a', hl, -, ht⟩ := recover_turns ha
    have hinbox : a'.mailbox.toList = a.mailbox.toList := congrArg Ledger.inbox hl
    have hnone : a'.batch = [] := by
      have hb : a'.batch = (a.ledger.afterPanic s.config).batch := congrArg Ledger.batch hl
      rw [hb]
      rcases Ledger.dropped_or s.config a.ledger with ⟨-, hb⟩ | ⟨-, hb⟩
      · exact hb
      · exact hb.trans hbatch
    have hself : (s.afterTimer r false).actor? r = some a' := ht.actor?_self
    rw [ask_eq hself, Actor.queue, hinbox, hnone, List.nil_append]
  | true =>
    have ht := Turns.update ha fun a => { a with timers := a.timers.finish }
    have hself : (s.afterTimer r true).actor? r = _ := (reset_turns ht.actor?_self).actor?_self
    rw [ask_eq hself, Actor.queue]
    simp [hbatch]

theorem expire_eq (ha : s.actor? r = some a) :
    s.expire r = ((a.timers.poll s.clock.now).1, s.polled r a) := by
  rw [expire, atActor_eq ha, a.expire_fst]
  rfl

theorem fireNext_eq (ha : s.actor? r = some a) :
    fireNext code r s =
      match (a.timers.poll s.clock.now).1 with
      | none => (none, s.polled r a)
      | some e =>
        let ran := exec r (code e.payload.callback (.timer e.payload.args)) (s.polled r a)
        (some ran.1.isSome, ran.2.afterTimer r ran.1.isSome) := by
  have hat : (s.atActor r none fun a => a.expire s.clock.now) =
      ((a.timers.poll s.clock.now).1, s.polled r a) := expire_eq ha
  unfold fireNext
  dsimp only
  rw [hat]
  cases (a.timers.poll s.clock.now).1 with
  | none => rfl
  | some e =>
    dsimp only
    generalize exec r _ _ = p
    obtain ⟨_ | u, s₁⟩ := p <;> rfl

theorem clockwork_expire (a : Actor κ) (now : UInt64) :
    clockwork (a.expire now).2 = ((a.timers.poll now).2, a.alive, a.dormant, a.restarts) := by
  unfold Actor.expire
  generalize a.timers.poll now = p
  obtain ⟨_ | e, timers⟩ := p <;> rfl

theorem queue_expire (a : Actor κ) (now : UInt64) :
    (a.expire now).2.batch = a.batch ∧ (a.expire now).2.queue = a.queue := by
  unfold Actor.expire
  generalize a.timers.poll now = p
  obtain ⟨_ | e, timers⟩ := p <;> exact ⟨rfl, rfl⟩

theorem clockwork_react (a : Actor κ) (e : Event κ) :
    clockwork (a.react e).actor = clockwork a := by
  have hl := a.react_ledger e []
  have halive : (a.react e).actor.alive = a.alive := congrArg Ledger.alive hl
  have hdormant : (a.react e).actor.dormant = a.dormant := congrArg Ledger.dormant hl
  have hrestarts : (a.react e).actor.restarts = a.restarts := congrArg Ledger.restarts hl
  rw [clockwork, halive, hdormant, hrestarts, a.react_timers e]
  rfl

theorem OnTime.dispatchNext {ds : List (Deed κ)} (h : OnTime limit r c ds s) (halive : s.Alive self)
    (hfew : (setBy limit r (ds ++ nextDeeds code self s)).length ≤ 2 ^ 24 - 2) :
    OnTime limit r c (ds ++ nextDeeds code self s) (System.dispatchNext code self s) := by
  obtain ⟨l, hl, hlive⟩ := halive
  obtain ⟨a, ha, rfl⟩ := ledger_elim hl
  cases hb : a.batch with
  | nil => simpa [nextDeeds, System.dispatchNext, ha, hb] using h
  | cons e rest =>
    have hnext := dispatchNext_cons code ha hb
    simp only [nextDeeds, ha, hb] at hfew ⊢
    have hput : Spares clockwork s (s.put self { a with batch := rest }) := .put ha rfl
    have hreceive := hput.trans (receive_spares _ self e fun a => clockwork_react a e)
    generalize System.dispatchNext code self s = s' at hnext hfew ⊢
    generalize (s.put self { a with batch := rest }).receive self e = p at hnext hreceive hfew ⊢
    obtain ⟨w, s₁⟩ := p
    dsimp only at hnext hreceive hfew ⊢
    obtain ⟨a₁, ha₁, heq⟩ := hreceive.some ha
    have halive₁ : a₁.alive = true := (congrArg (fun c => c.2.1) heq).trans hlive
    have h₁ : OnTime limit r c ds s₁ := h.leaves (.spares hreceive)
    rw [hnext] at hfew ⊢
    by_cases hself : self = r
    · subst hself
      obtain ⟨g, hg⟩ := h₁
      refine OnTime.own hg.clock hg.logged hg.minds hg.maxDelay ⟨_, ledger_intro ha₁, halive₁⟩
        hg.restarts
        hg.undisturbed rfl rfl (by simp [deed, Deed.fired?]) hg.idle ?_ (afterEvent_ends _ _)
        (by simp [deed, Deed.fired?]) hfew
      intro f _
      simp [deed, Deed.running?, Deed.fired?]
    · have hrun : Leaves r s₁ (exec self (w.prog code) s₁).2 := exec_leaves _ hself s₁
      obtain ⟨l₂, hl₂, -⟩ := (Shrinks.exec (r := self) (w.prog code) s₁).some (ledger_intro ha₁)
      obtain ⟨a₂, ha₂, -⟩ := ledger_elim hl₂
      exact h₁.other (hrun.trans (afterEvent_leaves ha₂ hself _)) hself

theorem poll_cases (g : Agenda (Task κ)) (now : UInt64) :
    g.poll now = (none, g) ∨ ∃ e es, g.timers = e :: es ∧ g.poll now =
      (some e, { g with timers := es, fired := g.fired ++ [(now, e)], running := some e.id }) := by
  unfold Agenda.poll
  split
  · exact .inl rfl
  · rename_i e es hes
    split
    · exact .inr ⟨e, es, hes, rfl⟩
    · exact .inl rfl

theorem Timed.unfired {ds : List (Deed κ)} {g : Agenda (Task κ)} (h : Timed limit r c ds s g)
    (ha : s.actor? r = some a) (halive : a.alive = true)
    (hnone : (a.timers.poll s.clock.now).1 = none) : Timed limit r c ds (s.polled r a) g := by
  have ht : Turns s (s.polled r a) r _ [] := .put ha _
  have hexpire := clockwork_expire a s.clock.now
  simp only [clockwork, Prod.mk.injEq] at hexpire
  obtain ⟨htimers, -, hdormant, hrestarts⟩ := hexpire
  have hstarted : a.dormant = false := (Ledger.alive_elim (l := a.ledger) halive).1
  rw [hstarted] at hdormant
  obtain ⟨ps, hm⟩ := h.minds.alive a ha halive
  obtain ⟨hans, hmirrors⟩ := hm.poll h.minds.kept h.minds.tick
  rw [hnone] at hans
  have hpoll : g.poll s.clock.now = (none, g) := by
    rcases poll_cases g s.clock.now with hpoll | ⟨e, es, -, hpoll⟩
    · exact hpoll
    · rw [hpoll] at hans
      cases hans
  rw [hpoll, ← htimers] at hmirrors
  refine ⟨h.clock, h.minds.retime rfl ht.actor?_self hdormant h.minds.kept hmirrors, h.logged,
    h.maxDelay, h.idle, ?_, h.undisturbed⟩
  rw [← h.restarts, ask_eq ht.actor?_self, ask_eq ha, hrestarts]

theorem Timed.fired {ds : List (Deed κ)} {g : Agenda (Task κ)} {e : Expired (Task κ)}
    (h : Timed limit r c ds s g) (ha : s.actor? r = some a) (halive : a.alive = true)
    (hbatch : a.batch = []) (hsome : (a.timers.poll s.clock.now).1 = some e) :
    let p := code e.payload.callback (.timer e.payload.args)
    let s' := (exec r p (s.polled r a)).2.afterTimer r (exec r p (s.polled r a)).1.isSome
    (setBy limit r (ds ++ [deed r (.timer e) p (s.polled r a) s'])).length ≤ 2 ^ 24 - 2 →
      OnTime limit r c (ds ++ [deed r (.timer e) p (s.polled r a) s']) s' := by
  intro p s' hfew
  have ht : Turns s (s.polled r a) r _ [] := .put ha _
  have hexpire := clockwork_expire a s.clock.now
  simp only [clockwork, Prod.mk.injEq] at hexpire
  obtain ⟨htimers, hlive, hdormant, hrestarts⟩ := hexpire
  obtain ⟨hbatch₁, hqueue₁⟩ := queue_expire a s.clock.now
  have hstarted : a.dormant = false := (Ledger.alive_elim (l := a.ledger) halive).1
  rw [hstarted] at hdormant
  rw [hbatch] at hbatch₁
  obtain ⟨ps, hm⟩ := h.minds.alive a ha halive
  obtain ⟨hans, hmirrors⟩ := hm.poll h.minds.kept h.minds.tick
  have hk := h.minds.kept.poll
  have hold := h.minds.kept.before
  rcases poll_cases g s.clock.now with hnone | ⟨e', es, hes, hpoll⟩
  · rw [hnone, hsome] at hans
    cases hans
  rw [hpoll] at hans hmirrors hk
  rw [hes] at hold
  obtain rfl := Option.some.inj (hsome.symm.trans hans)
  rw [← htimers] at hmirrors
  have h₁ : Minds _ (s.polled r a) r := h.minds.retime rfl ht.actor?_self hdormant hk hmirrors
  refine OnTime.own (s := s.polled r a) h.clock h.logged h₁ h.maxDelay
    ⟨_, ledger_intro ht.actor?_self, hlive.trans halive⟩ ?_ h.undisturbed rfl rfl rfl rfl ?_
    (afterTimer_ends _ _ _) (fun _ => ?_) hfew
  · rw [← h.restarts, ask_eq ht.actor?_self, ask_eq ha, hrestarts]
  · intro f hf heq
    have hlt := hold f hf e List.mem_cons_self
    rw [← Option.some.inj heq] at hlt
    exact UInt64.lt_irrefl _ hlt
  · have hgrows := exec_grows (r := r) r p (s.polled r a)
    rw [ledger_intro ht.actor?_self] at hgrows
    generalize hl₂ : (exec r p (s.polled r a)).2.ledger r = x at hgrows
    obtain ⟨hgrows⟩ := hgrows
    obtain ⟨a₂, ha₂, rfl⟩ := ledger_elim hl₂
    have hqueue : (a.expire s.clock.now).2.mailbox.toList = a.queue := by
      rw [← hqueue₁, Actor.queue, hbatch₁, List.nil_append]
    simp only [deed]
    rw [afterTimer_queue ha₂ (hgrows.batch.trans hbatch₁), ask_eq ht.actor?_self, hqueue₁, ← hqueue]
    exact hgrows.inbox hdormant

theorem OnTime.fireNext {ds : List (Deed κ)} (h : OnTime limit r c ds s) (hq : s.Quiet)
    (halive : s.Alive self)
    (hfew : (setBy limit r (ds ++ fireDeeds code self s)).length ≤ 2 ^ 24 - 2) :
    OnTime limit r c (ds ++ fireDeeds code self s) (System.fireNext code self s).2 := by
  obtain ⟨a, ha, hlive, hbatch, -⟩ := idle_of_quiet hq halive
  have ht : Turns s (s.polled self a) self _ [] := .put ha _
  have hother : self ≠ r → Leaves r s (s.polled self a) := fun hself =>
    .elsewhere rfl rfl (by rw [ht.actor, Function.update_of_ne (Ne.symm hself)])
  have hnext : System.fireNext code self s = _ := fireNext_eq ha
  unfold fireDeeds at hfew ⊢
  rw [expire_eq ha] at hfew ⊢
  cases hp : (a.timers.poll s.clock.now).1 with
  | none =>
    rw [hp] at hnext
    rw [hnext, List.append_nil]
    by_cases hself : self = r
    · subst hself
      obtain ⟨g, hg⟩ := h
      exact ⟨g, hg.unfired ha hlive hp⟩
    · exact h.leaves (hother hself)
  | some e =>
    rw [hp] at hnext hfew
    dsimp only at hnext hfew ⊢
    rw [hnext] at hfew ⊢
    by_cases hself : self = r
    · subst hself
      obtain ⟨g, hg⟩ := h
      exact hg.fired ha hlive hbatch hp hfew
    · obtain ⟨l₂, hl₂, -⟩ := (Shrinks.exec (r := self)
        (code e.payload.callback (.timer e.payload.args)) (s.polled self a)).some
          (ledger_intro ht.actor?_self)
      obtain ⟨a₂, ha₂, -⟩ := ledger_elim hl₂
      exact (h.leaves (hother hself)).other
        ((exec_leaves _ hself _).trans (afterTimer_leaves ha₂ hself _)) hself

theorem Spares.stays_alive (h : Spares clockwork s s') (halive : s.Alive self) : s'.Alive self := by
  obtain ⟨l, hl, hlive⟩ := halive
  obtain ⟨a, ha, rfl⟩ := ledger_elim hl
  obtain ⟨a', ha', heq⟩ := h.some ha
  exact ⟨a'.ledger, ledger_intro ha', (congrArg (fun c => c.2.1) heq).trans hlive⟩

theorem wake_leaves (halive : s.Alive self) : Leaves r s (s.wake self) := by
  obtain ⟨l, hl, hlive⟩ := halive
  obtain ⟨a, ha, rfl⟩ := ledger_elim hl
  exact .turns ha (.update ha _) rfl ⟨rfl, .inl ⟨rfl, fun _ => hlive, id⟩⟩

namespace OnTime

variable {ds : List (Deed κ)}

theorem dispatchMany (n : Nat) {s : System κ} {ds : List (Deed κ)} (h : OnTime limit r c ds s)
    (halive : s.Alive self)
    (hfew : (setBy limit r (ds ++ manyDeeds code self n s)).length ≤ 2 ^ 24 - 2) :
    OnTime limit r c (ds ++ manyDeeds code self n s) (System.dispatchMany code self n s) := by
  induction n generalizing s ds with
  | zero => simpa [manyDeeds, System.dispatchMany] using h
  | succ n ih =>
    obtain ⟨l, hl, -⟩ := id halive
    have hnext := (dispatchNext_shrinks code s hl).1
    have h₁ := h.dispatchNext halive (setBy_le hfew)
    rw [manyDeeds, ← List.append_assoc] at hfew ⊢
    exact ih h₁ (hnext.alive halive) hfew

theorem processBatch (h : OnTime limit r c ds s) (halive : s.Alive self)
    (hfew : (setBy limit r (ds ++ batchDeeds code self s)).length ≤ 2 ^ 24 - 2) :
    OnTime limit r c (ds ++ batchDeeds code self s) (System.processBatch code self s).2 := by
  have htake : Spares clockwork s (s.takeBatch self).2 := .atActor s self 0 _ fun _ => rfl
  exact (h.leaves (.spares htake)).dispatchMany _ (htake.stays_alive halive) hfew

theorem fireTimers (max : Nat) {s : System κ} {ds : List (Deed κ)} (h : OnTime limit r c ds s)
    (hq : s.Quiet) (halive : s.Alive self)
    (hfew : (setBy limit r (ds ++ timerDeeds code self max s)).length ≤ 2 ^ 24 - 2) :
    OnTime limit r c (ds ++ timerDeeds code self max s) (System.fireTimers code self max s).2 := by
  induction max generalizing s ds with
  | zero => simpa [timerDeeds, System.fireTimers] using h
  | succ max ih =>
    have h₁ := h.fireNext hq halive (setBy_le hfew)
    obtain ⟨-, hs⟩ : Keeps code s (System.fireNext code self s).2 := fireNext_follows s hq halive
    unfold System.fireTimers
    unfold timerDeeds at hfew ⊢
    generalize System.fireNext code self s = p at h₁ hs hfew ⊢
    obtain ⟨_ | _ | _, s₁⟩ := p
    · simpa using h₁
    · simpa using h₁
    · rw [← List.append_assoc] at hfew ⊢
      exact ih h₁ (hs.quiet hq) (hs.alive halive) hfew

theorem drain (n : Nat) {s : System κ} {ds : List (Deed κ)} (h : OnTime limit r c ds s)
    (hq : s.Quiet) (halive : s.Alive self)
    (hfew : (setBy limit r (ds ++ drainDeeds code self n s)).length ≤ 2 ^ 24 - 2) :
    OnTime limit r c (ds ++ drainDeeds code self n s) (System.drain code self n s) := by
  induction n generalizing s ds with
  | zero => simpa [drainDeeds, System.drain] using h
  | succ n ih =>
    have h₁ := h.processBatch halive (setBy_le hfew)
    obtain ⟨-, hs⟩ : Keeps code s (System.processBatch code self s).2 :=
      processBatch_follows s hq halive
    unfold System.drain
    unfold drainDeeds at hfew ⊢
    generalize System.processBatch code self s = p at h₁ hs hfew ⊢
    obtain ⟨_ | taken, s₁⟩ := p
    · simpa using h₁
    · rw [← List.append_assoc] at hfew ⊢
      exact ih h₁ (hs.quiet hq) (hs.alive halive) hfew

/-- What has ended keeps its agenda, and nobody asks anything of it any more. -/
theorem dismantle (h : OnTime limit r c ds s) (halive : s.Alive self) :
    OnTime limit r c ds (s.dismantle self) := by
  obtain ⟨l, hl, hlive⟩ := halive
  obtain ⟨a, ha, rfl⟩ := ledger_elim hl
  have ht := dismantle_turns ha
  have hclock : (s.dismantle self).clock = s.clock := by
    rw [dismantle_eq ha]
    exact (vacate_spares _ self).clock
  by_cases hself : self = r
  · subst hself
    obtain ⟨g, hg⟩ := h
    have hdormant : a.dormant = false := (Ledger.alive_elim hlive).1
    refine ⟨g, hclock.trans hg.clock,
      ⟨hclock ▸ hg.minds.kept, hclock ▸ hg.minds.tick, fun b hb hblive => ?_, fun hd => ?_⟩,
      hg.logged, hg.maxDelay, hg.idle, ?_, hg.undisturbed⟩
    · obtain rfl := Option.some.inj (ht.actor?_self.symm.trans hb)
      simp [Actor.alive] at hblive
    · have hd' := hd _ ht.actor?_self
      rw [hdormant] at hd'
      cases hd'
    · rw [← hg.restarts, ask_eq ht.actor?_self, ask_eq ha]
  · exact h.leaves (.elsewhere hclock ht.config
      (by rw [ht.actor, Function.update_of_ne (Ne.symm hself)]))

theorem shutdown (h : OnTime limit r c ds s) (hq : s.Quiet) (halive : s.Alive self)
    (hclosing : s.ask self true Actor.closing = true)
    (hfew : (setBy limit r (ds ++ shutdownDeeds code self s)).length ≤ 2 ^ 24 - 2) :
    OnTime limit r c (ds ++ shutdownDeeds code self s) (System.shutdown code self s) := by
  obtain ⟨l, hl, -⟩ := id halive
  obtain ⟨a, ha, rfl⟩ := ledger_elim hl
  unfold System.shutdown
  unfold shutdownDeeds at hfew ⊢
  rw [ask_eq ha] at hclosing hfew ⊢
  have hdrain := h.drain _ hq halive hfew
  obtain ⟨-, hs, -⟩ := drain_follows code (a.mailbox.toList.length + 1) s hq halive hl hclosing
    (Nat.lt_succ_self _)
  exact hdrain.dismantle (hs.alive halive)

theorem round (h : OnTime limit r c ds s) (hq : s.Quiet) (halive : s.Alive self)
    (hfew : (setBy limit r (ds ++ roundDeeds code self s)).length ≤ 2 ^ 24 - 2) :
    OnTime limit r c (ds ++ roundDeeds code self s) (System.round code self s).2 := by
  have hbatch : Keeps code s (System.processBatch code self s).2 := processBatch_follows s hq halive
  have hq₁ := hbatch.2.quiet hq
  have halive₁ := hbatch.2.alive halive
  unfold roundDeeds at hfew ⊢
  have h₁ := h.processBatch halive (setBy_le (setBy_le hfew))
  unfold System.round
  generalize System.processBatch code self s = p at h₁ hq₁ halive₁ hfew ⊢
  obtain ⟨taken, s₁⟩ := p
  dsimp only at h₁ hq₁ halive₁ hfew ⊢
  have htimers : Keeps code s₁ (System.fireTimers code self s₁.config.maxTimers s₁).2 :=
    fireTimers_follows _ s₁ hq₁ halive₁
  have hfew₁ := setBy_le hfew
  rw [← List.append_assoc] at hfew₁
  have h₂ := h₁.fireTimers _ hq₁ halive₁ hfew₁
  generalize System.fireTimers code self s₁.config.maxTimers s₁ = p at h₂ htimers hfew ⊢
  obtain ⟨fired, s₂⟩ := p
  dsimp only at h₂ htimers hfew ⊢
  rw [← List.append_assoc, ← List.append_assoc] at hfew ⊢
  cases hc : s₂.ask self true Actor.closing with
  | true =>
    simp only [hc, if_true] at hfew ⊢
    exact h₂.shutdown (htimers.2.quiet hq₁) (htimers.2.alive halive₁) hc hfew
  | false =>
    simp only [hc, Bool.false_eq_true, if_false, List.append_nil] at hfew ⊢
    split
    · exact h₂
    · exact h₂.leaves (.spares (pause_spares s₂ self fun _ => rfl))

theorem rounds (n : Nat) {s : System κ} {ds : List (Deed κ)} (h : OnTime limit r c ds s)
    (hq : s.Quiet) (halive : s.Alive self) (hend : System.rounds code self n s = some s')
    (hfew : (setBy limit r (ds ++ roundsDeeds code self n s)).length ≤ 2 ^ 24 - 2) :
    OnTime limit r c (ds ++ roundsDeeds code self n s) s' := by
  induction n generalizing s ds with
  | zero => cases hend
  | succ n ih =>
    unfold roundsDeeds at hfew ⊢
    have h₁ := h.round hq halive (setBy_le hfew)
    have hround : Follows code self s (System.round code self s).2 ∨
        (System.round code self s).1 = false ∧
          (s.Alive self → Leads code s (System.round code self s).2) := round_follows s
    unfold System.rounds at hend
    generalize System.round code self s = p at h₁ hround hend hfew ⊢
    obtain ⟨_ | _, s₁⟩ := p
    · obtain rfl := Option.some.inj hend
      rw [List.append_nil]
      exact h₁
    · rcases hround with hround | ⟨hfalse, -⟩
      · obtain ⟨-, hs⟩ := hround hq halive
        rw [← List.append_assoc] at hfew ⊢
        exact ih h₁ (hs.quiet hq) (hs.alive halive) hend hfew
      · cases hfalse

theorem turn (n : Nat) (h : OnTime limit r c ds s) (hq : s.Quiet) (halive : s.Alive self)
    (hend : System.turn code n self s = some s')
    (hfew : (setBy limit r (ds ++ turnDeeds code n self s)).length ≤ 2 ^ 24 - 2) :
    OnTime limit r c (ds ++ turnDeeds code n self s) s' := by
  obtain ⟨s₁, hrounds, rfl⟩ := Option.map_eq_some_iff.1 hend
  obtain ⟨-, hs⟩ : Keeps code s (s.wake self) := wake_follows s hq halive
  have hwake := (h.leaves (wake_leaves halive)).rounds n (hs.quiet hq) (hs.alive halive) hrounds hfew
  exact hwake.leaves (.spares (.update s₁ self _ fun _ => rfl))

end OnTime

/-- What has been reached from the start has its configuration, and counts its events right. -/
theorem reached_fit {config : Config} {clock : Clock}
    (h : (Machine.resting (System.new config clock)).Reaches code (Machine.resting s)) :
    s.config = config ∧ ∀ a, s.actor? r = some a → a.mailbox.pending = a.mailbox.toList.length := by
  obtain ⟨mvs, hplay⟩ := h
  obtain ⟨hfit, -, hconfig⟩ := Machine.books_accounted code config clock mvs
  rw [hplay] at hfit hconfig
  exact ⟨hconfig, fun a ha => Machine.pending_of_fit (hfit.ledger r a.ledger (ledger_intro ha))⟩

theorem shutdown_ended (hq : s.Quiet) (halive : s.Alive r)
    (hclosing : s.ask r true Actor.closing = true) : ¬ (System.shutdown code r s).Alive r := by
  obtain ⟨l, hl, -⟩ := id halive
  obtain ⟨a, ha, rfl⟩ := ledger_elim hl
  unfold System.shutdown
  rw [ask_eq ha] at hclosing ⊢
  obtain ⟨-, hs, -⟩ := drain_follows code (a.mailbox.toList.length + 1) s hq halive hl hclosing
    (Nat.lt_succ_self _)
  obtain ⟨l₁, hl₁, -⟩ := hs.some hl
  obtain ⟨a₁, ha₁, -⟩ := ledger_elim hl₁
  rintro ⟨l', hl', hlive⟩
  obtain rfl := Option.some.inj
    ((ledger_intro (dismantle_turns ha₁).actor?_self).symm.trans hl')
  simp [Actor.ledger, Ledger.alive] at hlive

def Lull (s : System κ) (r : ActorRef) : Prop :=
  ∃ a, s.actor? r = some a ∧ a.queue = [] ∧ a.timers.nextWake s.clock.now ≠ some 0

theorem pause_lull (ha : s.actor? r = some a) (hbatch : a.batch = [])
    (hpending : a.mailbox.pending = a.mailbox.toList.length) (hpause : (s.pause r).1 = false) :
    (s.pause r).2.Lull r := by
  rw [pause_eq ha] at hpause ⊢
  split at hpause
  · cases hpause
  · rename_i hwake
    rw [if_neg hwake]
    have hidle : ¬ 0 < a.mailbox.pending := by
      intro hpos
      simp [EventQueue.announce, hpos] at hpause
    have hnil : a.mailbox.toList = [] := List.eq_nil_of_length_eq_zero (by omega)
    refine ⟨_, (Turns.update ha _).actor?_self, ?_, hwake⟩
    simp [Actor.queue, hbatch, hnil]

section

variable {config : Config} {clock : Clock}

/-- The last round of an actor that goes on is followed by a lull. -/
theorem round_lull (hr : (Machine.resting (System.new config clock)).Reaches code (Machine.resting s))
    (hq : s.Quiet) (halive : s.Alive r) (hlast : (System.round code r s).1 = false)
    (halive' : (System.round code r s).2.Alive r) : (System.round code r s).2.Lull r := by
  have hbatch : Follows code r s (System.processBatch code r s).2 := processBatch_follows s
  unfold System.round at hlast halive' ⊢
  generalize System.processBatch code r s = p at hbatch hlast halive' ⊢
  obtain ⟨taken, s₁⟩ := p
  have htimers : Follows code r s₁ (System.fireTimers code r s₁.config.maxTimers s₁).2 :=
    fireTimers_follows _ s₁
  dsimp only at hlast halive' ⊢
  generalize System.fireTimers code r s₁.config.maxTimers s₁ = p at htimers hlast halive' ⊢
  obtain ⟨fired, s₂⟩ := p
  obtain ⟨hreach, hs⟩ := (hbatch.trans htimers) hq halive
  dsimp only at hreach hs hlast halive' ⊢
  have hq₂ := hs.quiet hq
  have halive₂ := hs.alive halive
  cases hc : s₂.ask r true Actor.closing with
  | true =>
    rw [hc, if_pos rfl] at halive'
    have hended : ¬ (System.shutdown code r s₂).Alive r := shutdown_ended hq₂ halive₂ hc
    exact absurd halive' hended
  | false =>
    simp only [hc, Bool.false_eq_true, if_false] at hlast ⊢
    split at hlast
    · cases hlast
    · rename_i htaken
      rw [if_neg htaken]
      obtain ⟨a, ha, -, hnone, -⟩ := idle_of_quiet hq₂ halive₂
      exact pause_lull ha hnone ((reached_fit (hr.trans hreach)).2 a ha) hlast

theorem rounds_lull (n : Nat)
    (hr : (Machine.resting (System.new config clock)).Reaches code (Machine.resting s))
    (hq : s.Quiet) (halive : s.Alive r) (hend : System.rounds code r n s = some s')
    (halive' : s'.Alive r) : s'.Lull r := by
  induction n generalizing s with
  | zero => cases hend
  | succ n ih =>
    have hround : Follows code r s (System.round code r s).2 ∨
        (System.round code r s).1 = false ∧
          (s.Alive r → Leads code s (System.round code r s).2) := round_follows s
    have hlull : (System.round code r s).1 = false → (System.round code r s).2.Alive r →
        (System.round code r s).2.Lull r := round_lull hr hq halive
    unfold System.rounds at hend
    generalize System.round code r s = p at hround hlull hend
    obtain ⟨_ | _, s₁⟩ := p
    · obtain rfl := Option.some.inj hend
      exact hlull rfl halive'
    · rcases hround with hround | ⟨hfalse, -⟩
      · obtain ⟨hreach, hs⟩ := hround hq halive
        exact ih (hr.trans hreach) (hs.quiet hq) (hs.alive halive) hend
      · cases hfalse

/-- Where a turn ends the actor has nothing left to do, unless it has ended itself. -/
theorem turn_lull (n : Nat)
    (hr : (Machine.resting (System.new config clock)).Reaches code (Machine.resting s))
    (hq : s.Quiet) (halive : s.Alive r) (hend : System.turn code n r s = some s')
    (halive' : s'.Alive r) : s'.Lull r := by
  obtain ⟨s₁, hrounds, rfl⟩ := Option.map_eq_some_iff.1 hend
  obtain ⟨hreach, hs⟩ : Keeps code s (s.wake r) := wake_follows s hq halive
  have hsleep : Spares (fun a : Actor κ => (a.ledger, a.timers)) s₁ (s₁.sleep r) :=
    .update s₁ r _ fun _ => rfl
  obtain ⟨l, hl, hlive⟩ := halive'
  obtain ⟨a, ha, rfl⟩ := ledger_elim hl
  obtain ⟨a₁, ha₁, heq⟩ := hsleep.some_rev ha
  obtain ⟨hledger, htimers⟩ := Prod.mk.inj heq
  obtain ⟨b, hb, hqueue, hwake⟩ := rounds_lull n (hr.trans hreach) (hs.quiet hq) (hs.alive halive)
    hrounds ⟨a₁.ledger, ledger_intro ha₁, hledger ▸ hlive⟩
  obtain rfl := Option.some.inj (ha₁.symm.trans hb)
  refine ⟨a, ha, ?_, ?_⟩
  · have hbatch : a.batch = a₁.batch := congrArg Ledger.batch hledger
    have hinbox : a.mailbox.toList = a₁.mailbox.toList := congrArg Ledger.inbox hledger
    rwa [Actor.queue, hbatch, hinbox]
  · rw [hsleep.clock, htimers]
    exact hwake

end

end System

end ActorSystem
