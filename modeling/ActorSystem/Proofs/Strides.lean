import ActorSystem.Proofs.Acts

/-!
What one move may do to one actor, to what the actor is at and to the code that it has still to run.
All of it is said once; what holds of an actor at every moment is then a matter of one look at each
of the cases.
-/

set_option autoImplicit false

namespace ActorSystem

variable {κ : Type}

/-- An actor, what it is at, and the code that it has still to run. -/
structure Seat (κ : Type) where
  actor : Actor κ
  mode : Mode κ
  todo : Prog κ Unit

/-- Whether something of the actor that performs it goes into it or comes out of it. -/
def Op.inward : Op κ → Bool
  | .execute .. => true
  | o => o.aims.isNone

inductive Op.Outcome (o : Op κ) (a : Actor κ) : Actor κ → Prop where
  | same : Op.Outcome o a a
  | own (store : Table Int32 Value) (timers : Timer.Wheel (Task κ))
      (purses : List (Timer.TimerId × Replies)) (kept hand : Replies) (reply : Option CallRef)
      (ho : o.inward = true) (hreply : reply = a.dispatch.reply ∨ reply = none) :
    Op.Outcome o a
      { a with store, timers, purses, kept, dispatch.hand := hand, dispatch.reply := reply }
  | enlist (hand : Replies) (e : Event κ) (ho : o.inward = true) (hopen : a.refuses = false) :
    Op.Outcome o a ({ a with dispatch.hand := hand }.enqueue e)
  | accept (p : Post κ) (hopen : a.refuses = false) : Op.Outcome o a (a.enqueue (.post p))
  | register (onMessage : Table UInt32 κ) (onRpc : Table String κ) :
    Op.Outcome o a { a with onMessage, onRpc }
  | start (timers : Timer.Wheel (Task κ)) (hdormant : a.dormant = true) :
    Op.Outcome o a { a with dormant := false, timers }
  | close (hdormant : a.dormant = false) : Op.Outcome o a { a with closing := true, stirred := true }
  | cancel (hdormant : a.dormant = true) :
    Op.Outcome o a
      { a with
        dormant := false, closing := true, stirred := true, phase := .closed,
        mailbox := a.mailbox.discard.2 }

theorem Op.act_outcome (now maxDelay : UInt64) (sender : Option ActorId) (o : Op κ) (a : Actor κ) :
    o.Outcome a (o.act now maxDelay sender a).1 := by
  cases o with
  | put | erase | setTimer => exact .own _ _ _ _ _ _ rfl (.inl rfl)
  | answerKept | dropKept | release => exact .own _ _ _ _ _ _ rfl (.inl rfl)
  | answer vs => exact .own _ _ _ _ _ _ rfl (.inr rfl)
  | keepReply slot =>
    simp only [Op.act, Act.keepReply]
    split
    · exact .same
    · exact .own _ _ _ _ _ _ rfl (.inr rfl)
  | unshelve slot =>
    simp only [Op.act, Act.unshelve]
    split
    · exact .same
    · exact .own _ _ _ _ _ _ rfl (.inl rfl)
  | shelve slot =>
    simp only [Op.act, Act.shelve]
    split
    · exact .same
    · exact .own _ _ _ _ _ _ rfl (.inl rfl)
  | cancelTimer id =>
    simp only [Op.act, Act.cancel, Actor.cancel]
    split <;> exact .own _ _ _ _ _ _ rfl (.inl rfl)
  | execute target action owned =>
    simp only [Op.act, Act.enlist, Act.accept]
    split
    · exact .own _ _ _ _ _ _ rfl (.inl rfl)
    · rename_i hopen
      exact .enlist _ _ rfl (Bool.not_eq_true _ ▸ hopen)
  | post | call =>
    simp only [Op.act, Act.accept]
    split
    · exact .same
    · rename_i hopen
      exact .accept _ (Bool.not_eq_true _ ▸ hopen)
  | registerMessage target proto handler =>
    simp only [Op.act, Act.write, Actor.registerMessage]
    split
    · exact .same
    · exact .register _ _
  | registerRpc target name handler =>
    simp only [Op.act, Act.write, Actor.registerRpc]
    split
    · exact .same
    · exact .register _ _
  | start target =>
    simp only [Op.act, Act.write, Actor.start]
    split
    · rename_i hdormant
      exact .start _ hdormant
    · exact .same
  | close target =>
    cases hdormant : a.dormant with
    | true =>
      have hcancel := Op.Outcome.cancel (o := .close target) hdormant
      simpa [Op.act, Act.close, Act.andThen, Act.write, Act.discard, hdormant] using hcancel
    | false =>
      have hclose := Op.Outcome.close (o := .close target) hdormant
      simpa [Op.act, Act.close, Act.write, hdormant] using hclose
  | _ => exact .same

def Move.maker : Move κ → Option ActorRef
  | .wake r | .take r | .dispatch r | .proceed r | .fire r | .dismantle r => some r
  | _ => none

namespace System.Does

variable {act : Act κ} {s s' : System κ} {r r' : ActorRef} {a : Actor κ}

theorem self (h : Does act r s s') (ha : s.actor? r = some a) : s'.actor? r = some (act a).1 := by
  rw [h.actor, Function.update_self, ha, Option.map_some]

theorem other (h : Does act r' s s') (hr : r ≠ r') : s'.actor? r = s.actor? r := by
  rw [h.actor, Function.update_of_ne hr]

end System.Does

namespace Machine

variable {code : κ → Invocation → Prog κ Unit} {m : Machine κ} {mv : Move κ} {r r' : ActorRef}
  {x y : Seat κ} {a : Actor κ} {mode : Mode κ} {p : Prog κ Unit}

def seat (m : Machine κ) (r : ActorRef) : Option (Seat κ) :=
  (m.system.actor? r).map fun a => ⟨a, m.mode r, m.todo r⟩

theorem seat_eq (ha : m.system.actor? r = some a) : m.seat r = some ⟨a, m.mode r, m.todo r⟩ := by
  rw [seat, ha, Option.map_some]

theorem seat_elim (hx : m.seat r = some x) :
    m.system.actor? r = some x.actor ∧ m.mode r = x.mode ∧ m.todo r = x.todo := by
  obtain ⟨a, ha, rfl⟩ := Option.map_eq_some_iff.1 hx
  exact ⟨ha, rfl, rfl⟩

theorem seat_fit (hf : m.books.Fit) (hx : m.seat r = some x) :
    x.actor.ledger.Fit m.system.config x.mode := by
  obtain ⟨ha, hmode, -⟩ := seat_elim hx
  exact hmode ▸ hf.ledger r _ (System.ledger_intro ha)

/-- What an operation of the actor `self` makes of the actor that it is about. -/
def effect (m : Machine κ) (self : ActorRef) (o : Op κ) : Act κ :=
  o.act m.system.clock.now m.system.config.maxDelayMs ((m.system.actor? self).map Actor.id)

theorem effect_outcome (m : Machine κ) (self : ActorRef) (o : Op κ) (a : Actor κ) :
    o.Outcome a (m.effect self o a).1 :=
  o.act_outcome _ _ _ a

/-- What a move may do to the actor `r`. -/
inductive Stride (code : κ → Invocation → Prog κ Unit) (m : Machine κ) (r : ActorRef) :
    Move κ → Seat κ → Seat κ → Prop where
  | same {mv : Move κ} {x : Seat κ} : Stride code m r mv x x
  | told {mv : Move κ} {a : Actor κ} {mode : Mode κ} {p : Prog κ Unit} (self : ActorRef) (o : Op κ)
      (ho : o.inward = false) (hmv : mv.maker ≠ some r) :
    Stride code m r mv ⟨a, mode, p⟩ ⟨(m.effect self o a).1, mode, p⟩
  | handed {mv : Move κ} {a : Actor κ} {mode : Mode κ} {p : Prog κ Unit} (action : κ)
      (replies : Replies) (hopen : a.refuses = false) (hmv : mv.maker ≠ some r) :
    Stride code m r mv ⟨a, mode, p⟩ ⟨a.enqueue (.errand action replies), mode, p⟩
  | asked {a : Actor κ} {mode : Mode κ} {p : Prog κ Unit} (name : String) (args : Args)
      (hopen : a.refuses = false) :
    Stride code m r (.request r name args) ⟨a, mode, p⟩
      ⟨a.enqueue (.awaitRpc ⟨none, name, args⟩ m.system.calls.size), mode, p⟩
  | tended {a : Actor κ} {mode : Mode κ} {p : Prog κ Unit} (stirred : Bool)
      (announced notified : UInt32) (channel : WakeChannel) (stage : Stage) (watch : Watch) :
    Stride code m r (.tend r stirred announced notified channel stage watch) ⟨a, mode, p⟩
      ⟨{ a with mailbox := { a.mailbox with announced, notified, channel }, stirred, stage, watch },
        mode, p⟩
  | wake {a : Actor κ} {p : Prog κ Unit} (halive : a.alive = true) (hbatch : a.batch = []) :
    Stride code m r (.wake r) ⟨a, .ready, p⟩ ⟨(Act.wake a).1, .ready, p⟩
  | take {a : Actor κ} {p : Prog κ Unit} (halive : a.alive = true) (hbatch : a.batch = []) :
    Stride code m r (.take r) ⟨a, .ready, p⟩
      ⟨(Act.take m.system.config.batchSize a).1, .ready, p⟩
  | begin {a : Actor κ} {p : Prog κ Unit} (e : Event κ) (rest : List (Event κ))
      (hbatch : a.batch = e :: rest) :
    Stride code m r (.dispatch r) ⟨a, .ready, p⟩
      ⟨({ a with batch := rest }.react e).actor, .handling e,
        ({ a with batch := rest }.react e).work.prog code⟩
  /-- The code of the actor goes one operation on, which is about the actor itself. -/
  | perform {a : Actor κ} {mode : Mode κ} (o : Op κ) (next : o.Answer → Prog κ Unit)
      (hmode : mode ≠ .ready) (ho : o.place r = r) :
    Stride code m r (.proceed r) ⟨a, mode, .op o next⟩
      ⟨(m.effect r o a).1, mode, next (System.perform r o m.system).1⟩
  | send {a : Actor κ} {mode : Mode κ} (o : Op κ) (next : o.Answer → Prog κ Unit)
      (hmode : mode ≠ .ready) (ho : o.place r ≠ r) :
    Stride code m r (.proceed r) ⟨a, mode, .op o next⟩
      ⟨a, mode, next (System.perform r o m.system).1⟩
  | entrust {a : Actor κ} {mode : Mode κ} (target : ActorRef) (action : κ) (owned : List String)
      (next : Unit → Prog κ Unit) (hmode : mode ≠ .ready) :
    Stride code m r (.proceed r) ⟨a, mode, .op (.execute target action owned) next⟩
      ⟨(Act.entrust owned a).1, mode, next ()⟩
  | complete {a : Actor κ} (e : Event κ) :
    Stride code m r (.proceed r) ⟨a, .handling e, .pure ()⟩ ⟨(Act.complete a).1, .ready, .pure ()⟩
  | fired {a : Actor κ} :
    Stride code m r (.proceed r) ⟨a, .firing, .pure ()⟩ ⟨(Act.fired a).1, .ready, .pure ()⟩
  | recover {a : Actor κ} {mode : Mode κ} (hmode : mode ≠ .ready) :
    Stride code m r (.proceed r) ⟨a, mode, .panic⟩
      ⟨(Act.recover m.system.config.restartPolicy a).1, .ready, .pure ()⟩
  | poll {a : Actor κ} {p : Prog κ Unit} (halive : a.alive = true) (hbatch : a.batch = [])
      (hnone : (a.timers.poll m.system.clock.now).1 = none) :
    Stride code m r (.fire r) ⟨a, .ready, p⟩ ⟨(Act.poll m.system.clock.now a).1, .ready, p⟩
  | fire {a : Actor κ} {p : Prog κ Unit} (t : Timer.Expired (Task κ)) (halive : a.alive = true)
      (hbatch : a.batch = []) (ht : (a.timers.poll m.system.clock.now).1 = some t) :
    Stride code m r (.fire r) ⟨a, .ready, p⟩
      ⟨(Act.poll m.system.clock.now a).1, .firing,
        code t.payload.callback (.timer t.payload.args)⟩
  | dismantle {a : Actor κ} {p : Prog κ Unit} (halive : a.alive = true) (hbatch : a.batch = [])
      (hclosing : a.closing = true) :
    Stride code m r (.dismantle r) ⟨a, .ready, p⟩ ⟨(Act.vacate a).1, .ready, p⟩

/-- Only a dispatch brings an event to the code of the actor, and only one that is in its batch. -/
theorem Stride.begun (h : Stride code m r mv x y) (hno : mv ≠ .dispatch r ∨ x.actor.batch = []) :
    Mode.begun x.mode y.mode = [] := by
  cases h with
  | begin e rest hbatch =>
    rcases hno with hmv | hnil
    · exact absurd rfl hmv
    · exact absurd (hbatch.symm.trans hnil) (List.cons_ne_nil e rest)
  | recover => simp [Mode.begun]
  | complete | fired | fire => rfl
  | _ => exact Mode.begun_self _

/-- What is done to the actor without regard to what it is at. -/
theorem stride_done {s : System κ} {act : Act κ} (hx : m.seat r = some x)
    (hd : System.Does act r' m.system s)
    (hself : r = r' → Stride code m r mv x { x with actor := (act x.actor).1 }) :
    ∃ y, seat { m with system := s } r = some y ∧ Stride code m r mv x y := by
  obtain ⟨ha, hmode, htodo⟩ := seat_elim hx
  by_cases hr : r = r'
  · refine ⟨_, ?_, hself hr⟩
    subst hr
    rw [seat_eq (hd.self ha), ← hmode, ← htodo]
  · refine ⟨x, ?_, .same⟩
    rw [seat_eq ((hd.other hr).trans ha)]
    exact congrArg some (by rw [hmode, htodo])

theorem stride_runs {s : System κ} {act : Act κ} (hx : m.seat r = some x)
    (hd : System.Does act r' m.system s)
    (hself : r = r' → Stride code m r mv x ⟨(act x.actor).1, mode, p⟩) :
    ∃ y, (m.runs r' mode p s).seat r = some y ∧ Stride code m r mv x y := by
  obtain ⟨ha, hmode, htodo⟩ := seat_elim hx
  by_cases hr : r = r'
  · refine ⟨_, ?_, hself hr⟩
    subst hr
    rw [seat_eq (m := m.runs r mode p s) (hd.self ha)]
    simp [runs]
  · refine ⟨x, ?_, .same⟩
    rw [seat_eq (m := m.runs r' mode p s) ((hd.other hr).trans ha)]
    simp [runs, Function.update_of_ne hr, hmode, htodo]

theorem stride_same {s : System κ} (hx : m.seat r = some x) (ha : s.actor? r = m.system.actor? r) :
    ∃ y, seat { m with system := s } r = some y ∧ Stride code m r mv x y := by
  refine ⟨x, ?_, .same⟩
  rw [seat, ha]
  exact hx

/-- An event that an errand makes goes into the mailbox of its target, or nothing happens to it. -/
theorem handed_stride (hx : m.seat r = some x) {s : System κ} (hs : s.actor? r = m.system.actor? r)
    (target : ActorRef) (action : κ) (replies : Replies) (hmv : mv.maker ≠ some r) :
    ∃ a, (s.push target (.errand action replies)).actor? r = some a ∧
      Stride code m r mv x ⟨a, x.mode, x.todo⟩ := by
  obtain ⟨ha, hmode, htodo⟩ := seat_elim hx
  have ha' : s.actor? r = some x.actor := hs.trans ha
  by_cases hr : r = target
  · subst hr
    have hself := (System.push_does ha' (.errand action replies)).self ha'
    cases hopen : x.actor.refuses with
    | true =>
      refine ⟨x.actor, ?_, .same⟩
      simpa [Act.accept, hopen] using hself
    | false =>
      refine ⟨_, ?_, .handed action replies hopen hmv⟩
      simpa [Act.accept, hopen] using hself
  · exact ⟨x.actor, (System.push_other hr s _).trans ha', .same⟩

theorem stride_execute (hx : m.seat r = some x) (target : ActorRef) (action : κ)
    (owned : List String) (hr' : r' ≠ r) (hmv : mv.maker ≠ some r) :
    ∃ a, (m.system.execute r' target action owned).actor? r = some a ∧
      Stride code m r mv x ⟨a, x.mode, x.todo⟩ :=
  handed_stride hx ((System.takeOwned_does m.system r' owned).other (Ne.symm hr')) target action _ hmv

theorem stride_told (hx : m.seat r = some x) (o : Op κ) (hr' : r' ≠ r) (hmv : mv.maker ≠ some r) :
    ∃ a, (System.perform r' o m.system).2.actor? r = some a ∧
      Stride code m r mv x ⟨a, x.mode, x.todo⟩ := by
  obtain ⟨ha, -, -⟩ := seat_elim hx
  cases hcross : o.crosses r' with
  | true =>
    cases o with
    | execute target action owned => exact stride_execute hx target action owned hr' hmv
    | _ => cases hcross
  | false =>
    have hdoes := System.perform_does r' hcross m.system
    by_cases ho : o.place r' = r
    · rw [ho] at hdoes
      refine ⟨_, hdoes.self ha, .told r' o ?_ hmv⟩
      cases o with
      | execute target action owned =>
        obtain rfl : target = r := ho
        simp [Op.crosses, Ne.symm hr'] at hcross
      | post | call | registerMessage | registerRpc | start | close => rfl
      | _ => exact absurd ho hr'
    · exact ⟨x.actor, (hdoes.other (Ne.symm ho)).trans ha, .same⟩

theorem stride_performs {mode : Mode κ} {o : Op κ} {next : o.Answer → Prog κ Unit} {a : Actor κ}
    (ha : m.system.actor? r = some a) (hmode : mode ≠ .ready) :
    ∃ a', (System.perform r o m.system).2.actor? r = some a' ∧
      Stride code m r (.proceed r) ⟨a, mode, .op o next⟩
        ⟨a', mode, next (System.perform r o m.system).1⟩ := by
  cases hcross : o.crosses r with
  | true =>
    cases o with
    | execute target action owned =>
      refine ⟨_, ?_, .entrust target action owned next hmode⟩
      have hne : target ≠ r := bne_iff_ne.1 hcross
      exact (System.push_other hne.symm _ _).trans ((System.takeOwned_does m.system r owned).self ha)
    | _ => cases hcross
  | false =>
    have hdoes := System.perform_does r hcross m.system
    by_cases ho : o.place r = r
    · rw [ho] at hdoes
      exact ⟨_, hdoes.self ha, .perform o next hmode ho⟩
    · exact ⟨a, (hdoes.other (Ne.symm ho)).trans ha, .send o next hmode ho⟩

theorem stride_proceed (hx : m.seat r = some x) :
    ∃ y, (m.proceed r').2.seat r = some y ∧ Stride code m r (.proceed r') x y := by
  obtain ⟨a, mode, p⟩ := x
  obtain ⟨ha, hmode, htodo⟩ := seat_elim hx
  unfold proceed
  split
  · exact ⟨_, hx, .same⟩
  · rename_i o next htodo' hnot
    by_cases hr : r = r'
    · subst hr
      obtain rfl : mode = m.mode r := hmode.symm
      obtain rfl : p = .op o next := htodo.symm.trans htodo'
      obtain ⟨a', ha', hstride⟩ : ∃ a', (System.perform r o m.system).2.actor? r = some a' ∧
          Stride code m r (.proceed r) ⟨a, m.mode r, .op o next⟩
            ⟨a', m.mode r, next (System.perform r o m.system).1⟩ := stride_performs ha hnot
      refine ⟨_, ?_, hstride⟩
      rw [seat_eq (m := m.runs r _ _ _) ha']
      simp [runs]
    · obtain ⟨a', ha', hstride⟩ : ∃ a', (System.perform r' o m.system).2.actor? r = some a' ∧
          Stride code m r (.proceed r') ⟨a, mode, p⟩ ⟨a', mode, p⟩ :=
        stride_told hx o (Ne.symm hr) (by simpa [Move.maker] using Ne.symm hr)
      refine ⟨_, ?_, hstride⟩
      rw [seat_eq (m := m.runs r' _ _ _) ha']
      simp only [runs, Function.update_of_ne hr, hmode, htodo]
  · rename_i e u hhandling htodo'
    refine stride_runs hx (System.afterEvent_does m.system r') ?_
    rintro rfl
    obtain rfl : mode = .handling e := hmode.symm.trans hhandling
    obtain rfl : p = .pure () := htodo.symm.trans htodo'
    exact .complete e
  · rename_i e hhandling htodo'
    refine stride_runs hx (System.recover_does m.system r') ?_
    rintro rfl
    obtain rfl : mode = .handling e := hmode.symm.trans hhandling
    obtain rfl : p = .panic := htodo.symm.trans htodo'
    exact .recover (by simp)
  · rename_i u hfiring htodo'
    refine stride_runs hx (System.fired_does m.system r') ?_
    rintro rfl
    obtain rfl : mode = .firing := hmode.symm.trans hfiring
    obtain rfl : p = .pure () := htodo.symm.trans htodo'
    exact .fired
  · rename_i hfiring htodo'
    refine stride_runs hx (System.recover_does m.system r') ?_
    rintro rfl
    obtain rfl : mode = .firing := hmode.symm.trans hfiring
    obtain rfl : p = .panic := htodo.symm.trans htodo'
    exact .recover (by simp)

theorem stride_begin (hx : m.seat r = some x) :
    ∃ y, (m.begin code r').seat r = some y ∧ Stride code m r (.dispatch r') x y := by
  obtain ⟨a, mode, p⟩ := x
  obtain ⟨ha, hmode, htodo⟩ := seat_elim hx
  unfold begin
  split
  · rename_i a' hready ha'
    split
    · exact ⟨_, hx, .same⟩
    · rename_i e rest hbatch
      obtain ⟨hdoes, hwork⟩ := System.opening_does ha' hbatch
      have hopening : Act.opening a' = some ({ a' with batch := rest }.react e) := by
        simp only [Act.opening, hbatch]
      rw [hopening, Option.map_some, Option.some.injEq] at hwork
      generalize (m.system.put r' { a' with batch := rest }).receive r' e = q at hdoes hwork ⊢
      obtain ⟨w, s⟩ := q
      subst hwork
      refine stride_runs hx hdoes ?_
      rintro rfl
      obtain rfl : a = a' := Option.some.inj (ha.symm.trans ha')
      obtain rfl : mode = .ready := hmode.symm.trans hready
      simp only [Act.begin, hopening]
      exact .begin e rest hbatch
  · exact ⟨_, hx, .same⟩

theorem stride_fire (hx : m.seat r = some x) :
    ∃ y, (m.fire code r').seat r = some y ∧ Stride code m r (.fire r') x y := by
  obtain ⟨a, mode, p⟩ := x
  obtain ⟨ha, hmode, htodo⟩ := seat_elim hx
  unfold fire
  split
  · rename_i hidle
    obtain ⟨hready, a', ha', halive, hbatch⟩ := idle_elim hidle
    have hdoes : System.Does (Act.poll m.system.clock.now) r' m.system
        (m.system.put r' (a'.expire m.system.clock.now).2) := .put ha' _
    rw [System.atActor_eq ha', a'.expire_fst]
    cases ht : (a'.timers.poll m.system.clock.now).1 with
    | none =>
      refine stride_done hx hdoes ?_
      rintro rfl
      obtain rfl : a = a' := Option.some.inj (ha.symm.trans ha')
      obtain rfl : mode = .ready := hmode.symm.trans hready
      exact .poll halive hbatch ht
    | some t =>
      refine stride_runs hx hdoes ?_
      rintro rfl
      obtain rfl : a = a' := Option.some.inj (ha.symm.trans ha')
      obtain rfl : mode = .ready := hmode.symm.trans hready
      exact .fire t halive hbatch ht
  · exact ⟨_, hx, .same⟩

theorem stride_idle {s : System κ} {act : Act κ} (hx : m.seat r = some x)
    (hd : System.Does act r' m.system s)
    (hself : ∀ a p, r = r' → x = ⟨a, .ready, p⟩ → a.alive = true → a.batch = [] →
      Stride code m r mv x ⟨(act a).1, .ready, p⟩) :
    ∃ y, (if m.idle r' then { m with system := s } else m).seat r = some y ∧
      Stride code m r mv x y := by
  split
  · rename_i hidle
    obtain ⟨hready, a', ha', halive, hbatch⟩ := idle_elim hidle
    refine stride_done hx hd ?_
    rintro rfl
    obtain ⟨a, mode, p⟩ := x
    obtain ⟨ha, hmode, -⟩ := seat_elim hx
    obtain rfl : a = a' := Option.some.inj (ha.symm.trans ha')
    obtain rfl : mode = .ready := hmode.symm.trans hready
    exact hself a p rfl rfl halive hbatch
  · exact ⟨_, hx, .same⟩

theorem stride_dismantle (hx : m.seat r = some x) :
    ∃ y, (m.dismantle r').2.seat r = some y ∧ Stride code m r (.dismantle r') x y := by
  obtain ⟨a, mode, p⟩ := x
  obtain ⟨ha, hmode, -⟩ := seat_elim hx
  unfold dismantle
  split
  · rename_i hguard
    simp only [Bool.and_eq_true] at hguard
    obtain ⟨hready, a', ha', halive, hbatch⟩ := idle_elim hguard.1.1
    have hclosing := hguard.1.2
    rw [System.ask_eq ha'] at hclosing
    refine stride_done hx (System.dismantle_does m.system r') ?_
    rintro rfl
    obtain rfl : a = a' := Option.some.inj (ha.symm.trans ha')
    obtain rfl : mode = .ready := hmode.symm.trans hready
    exact .dismantle halive hbatch hclosing
  · exact ⟨_, hx, .same⟩

theorem stride_request (hx : m.seat r = some x) (name : String) (args : Args) :
    ∃ y, seat { m with system := (m.system.request r' name args).2 } r = some y ∧
      Stride code m r (.request r' name args) x y := by
  cases ha' : m.system.actor? r' with
  | none => exact stride_same hx (by simp only [System.request, ha'])
  | some a' =>
    cases hopen : a'.refuses with
    | true => exact stride_same hx (by simp only [System.request, ha', hopen, if_true])
    | false =>
      let s₁ : System κ := { m.system with calls := m.system.calls.push ⟨name, .waiting⟩ }
      have hput : (s₁.put r' (a'.enqueue (.awaitRpc ⟨none, name, args⟩ m.system.calls.size))).actor? =
          Function.update m.system.actor? r'
            (some (a'.enqueue (.awaitRpc ⟨none, name, args⟩ m.system.calls.size))) :=
        System.actor?_put (s := s₁) ha' _
      rw [System.request_open ha' hopen]
      by_cases hr : r = r'
      · subst hr
        obtain ⟨ha, hmode, htodo⟩ := seat_elim hx
        obtain ⟨a, mode, p⟩ := x
        obtain rfl : a = a' := Option.some.inj (ha.symm.trans ha')
        refine ⟨_, ?_, .asked name args hopen⟩
        simp only [seat]
        rw [hput, Function.update_self, Option.map_some, hmode, htodo]
      · refine stride_same hx ?_
        dsimp only
        rw [hput, Function.update_of_ne hr]

theorem stride_actor {s : System κ} (hx : m.seat r = some x) (ha : s.actor? r = some a)
    (h : Stride code m r mv x ⟨a, x.mode, x.todo⟩) :
    ∃ y, seat { m with system := s } r = some y ∧ Stride code m r mv x y := by
  obtain ⟨-, hmode, htodo⟩ := seat_elim hx
  refine ⟨_, ?_, h⟩
  rw [seat_eq (m := { m with system := s }) ha, hmode, htodo]

theorem stride_elsewhere (hx : m.seat r = some x) (c : CallRef) (use : Fate κ) :
    ∃ a, (m.system.elsewhere c use).2.actor? r = some a ∧
      Stride code m r (.elsewhere c use) x ⟨a, x.mode, x.todo⟩ := by
  obtain ⟨ha, -, -⟩ := seat_elim hx
  unfold System.elsewhere
  split
  · exact ⟨_, ha, .same⟩
  · rename_i y hy
    cases use with
    | answer vs => exact ⟨x.actor, (congrFun (System.settle_actor? _ c _) r).trans ha, .same⟩
    | drop => exact ⟨x.actor, (congrFun (System.settle_actor? _ c _) r).trans ha, .same⟩
    | pass slot target action =>
      exact handed_stride (s := { m.system with abroad := m.system.abroad.erase y }) hx rfl target
        action _ (by simp [Move.maker])

theorem step_stride (code : κ → Invocation → Prog κ Unit) (m : Machine κ) (mv : Move κ)
    (hx : m.seat r = some x) :
    ∃ y, (m.step code mv).2.seat r = some y ∧ Stride code m r mv x y := by
  obtain ⟨ha, -, -⟩ := seat_elim hx
  cases mv with
  | outside o =>
    have hself : m.system.actors.size ≠ r := by
      rintro rfl
      simp [System.actor?] at ha
    obtain ⟨a, ha', hstride⟩ : ∃ a, (System.perform m.system.actors.size o m.system).2.actor? r =
        some a ∧ Stride code m r (.outside o) x ⟨a, x.mode, x.todo⟩ :=
      stride_told hx o hself (by simp [Move.maker])
    exact stride_actor hx ha' hstride
  | request r' name args => exact stride_request hx name args
  | expire c =>
    exact stride_same hx (by
      simp only [System.settle]
      split <;> rfl)
  | abandon c =>
    exact stride_same hx (by
      simp only [System.settle]
      split <;> rfl)
  | elsewhere c use =>
    obtain ⟨a, ha', hstride⟩ : ∃ a, (m.system.elsewhere c use).2.actor? r = some a ∧
        Stride code m r (.elsewhere c use) x ⟨a, x.mode, x.todo⟩ := stride_elsewhere hx c use
    exact stride_actor hx ha' hstride
  | spawn name =>
    refine stride_same hx ?_
    have hlt : r < m.system.actors.size := by
      by_contra hle
      simp [System.actor?, Array.getElem?_eq_none (Nat.le_of_not_lt hle)] at ha
    simp [System.spawn, System.actor?, Array.getElem?_push, Nat.ne_of_lt hlt]
  | arrange clock ids started names pools => exact stride_same hx rfl
  | tend r' stirred announced notified channel stage watch =>
    refine stride_done hx (.update m.system r' _) ?_
    rintro rfl
    exact .tended stirred announced notified channel stage watch
  | wake r' =>
    refine stride_idle hx (System.wake_does m.system r') ?_
    rintro a p rfl rfl halive hbatch
    exact .wake halive hbatch
  | take r' =>
    refine stride_idle hx (System.takeBatch_does m.system r') ?_
    rintro a p rfl rfl halive hbatch
    exact .take halive hbatch
  | dispatch r' => exact stride_begin hx
  | proceed r' => exact stride_proceed hx
  | fire r' => exact stride_fire hx
  | dismantle r' => exact stride_dismantle hx

theorem ready_of_unseated (hf : m.books.Fit) (hx : m.seat r = none) : m.mode r = .ready :=
  hf.absent r (System.books_none (by simpa [seat] using hx) _ _)

theorem step_seated (code : κ → Invocation → Prog κ Unit) (m : Machine κ) (mv : Move κ)
    (hx : m.seat r = none) (hy : (m.step code mv).2.seat r = some y) :
    ∃ id name, y.actor = .new id name m.system.config ∧ m.mode r = y.mode := by
  have hnone : m.system.actor? r = none := by simpa [seat] using hx
  obtain ⟨ha', hmode', -⟩ := seat_elim hy
  have hlife : (m.step code mv).2.system.life r = some y.actor.life := by
    rw [System.life, ha', Option.map_some]
  obtain ⟨name, rfl, rfl, -⟩ := step_absent code m mv (by rw [System.life, hnone, Option.map_none]) hlife
  refine ⟨m.system.ids.fresh.1, name, ?_, hmode'⟩
  simpa [step, System.spawn, System.actor?] using ha'.symm

theorem step_unseated (code : κ → Invocation → Prog κ Unit) (mv : Move κ) (hf : m.books.Fit)
    (hx : m.seat r = none) : (m.step code mv).2.mode r = .ready := by
  cases hy : (m.step code mv).2.seat r with
  | none => exact ready_of_unseated ((step_books code m mv hf).fit hf) hy
  | some y =>
    obtain ⟨-, -, -, hmode⟩ := step_seated code m mv hx hy
    rw [(seat_elim hy).2.1, ← hmode, ready_of_unseated hf hx]

def met (m : Machine κ) (h : History κ) (r : ActorRef) : List (Event κ) :=
  Happening.handledIn (h.of r) ++ (m.mode r).hand

theorem met_step (code : κ → Invocation → Prog κ Unit) (mv : Move κ) (hf : m.books.Fit)
    (h : History κ) (r : ActorRef) :
    (m.step code mv).2.met (h ++ (m.step code mv).1) r =
      m.met h r ++ Mode.begun (m.mode r) ((m.step code mv).2.mode r) := by
  have hstep := (step_books code m mv hf).handled hf r
  unfold met
  rw [History.of_append, Happening.handledIn_append, List.append_assoc, List.append_assoc]
  exact congrArg _ hstep

/-- It holds of every actor, with the events that have come to its code, and no event has come to
an actor that is not there. -/
structure Seats (P : List (Event κ) → Seat κ → Prop) (h : History κ) (m : Machine κ) : Prop where
  fit : m.books.Fit
  absent : ∀ r, m.seat r = none → m.met h r = []
  seat : ∀ r x, m.seat r = some x → P (m.met h r) x

theorem Seats.start {P : List (Event κ) → Seat κ → Prop} (config : Config) (clock : Clock) :
    Seats P [] (resting (.new config clock)) := by
  refine ⟨Books.start_fit config clock, fun _ _ => rfl, fun r x hx => ?_⟩
  simp [Machine.seat, resting, System.new, System.actor?] at hx

/-- What a new actor brings along and every stride keeps is kept by every move. -/
theorem Seats.step {P : List (Event κ) → Seat κ → Prop} {h : History κ}
    (hnew : ∀ id name p, P [] ⟨.new id name m.system.config, .ready, p⟩)
    (hstep : ∀ r mv x y, x.actor.ledger.Fit m.system.config x.mode → Stride code m r mv x y →
      P (m.met h r) x → P (m.met h r ++ Mode.begun x.mode y.mode) y)
    (hs : Seats P h m) (mv : Move κ) :
    Seats P (h ++ (m.step code mv).1) (m.step code mv).2 := by
  have hready : ∀ {r}, m.seat r = none → m.met h r = [] ∧
      Mode.begun (m.mode r) ((m.step code mv).2.mode r) = [] := by
    intro r hnone
    rw [ready_of_unseated hs.fit hnone, step_unseated code mv hs.fit hnone]
    exact ⟨hs.absent r hnone, rfl⟩
  refine ⟨(step_books code m mv hs.fit).fit hs.fit, fun r hnone => ?_, fun r y hy => ?_⟩
  · cases hseat : m.seat r with
    | none => rw [met_step code mv hs.fit, (hready hseat).1, (hready hseat).2, List.append_nil]
    | some x =>
      obtain ⟨y, hy, -⟩ := step_stride code m mv hseat
      rw [hnone] at hy
      cases hy
  · rw [met_step code mv hs.fit]
    cases hseat : m.seat r with
    | none =>
      rw [(hready hseat).1, (hready hseat).2, List.append_nil]
      obtain ⟨id, name, hactor, hmode⟩ := step_seated code m mv hseat hy
      obtain ⟨a, mode, p⟩ := y
      obtain rfl : a = _ := hactor
      obtain rfl : mode = .ready := hmode.symm.trans (ready_of_unseated hs.fit hseat)
      exact hnew id name p
    | some x =>
      obtain ⟨y', hy', hstride⟩ := step_stride code m mv hseat
      obtain rfl : y' = y := Option.some.inj (hy'.symm.trans hy)
      rw [(seat_elim hseat).2.1, (seat_elim hy).2.1]
      exact hstep r mv x y' (seat_fit hs.fit hseat) hstride (hs.seat r x hseat)

theorem Seats.play (code : κ → Invocation → Prog κ Unit) {P : List (Event κ) → Seat κ → Prop}
    {config : Config} (hnew : ∀ id name p, P [] ⟨.new id name config, .ready, p⟩)
    (hstep : ∀ (m : Machine κ) r mv x y es, x.actor.ledger.Fit config x.mode →
      Stride code m r mv x y → P es x → P (es ++ Mode.begun x.mode y.mode) y)
    (mvs : List (Move κ)) {m : Machine κ} {h : History κ} (hconfig : m.system.config = config)
    (hs : Seats P h m) :
    Seats P (h ++ (Machine.play code mvs m).1) (Machine.play code mvs m).2 := by
  induction mvs generalizing m h with
  | nil => simpa [Machine.play] using hs
  | cons mv mvs ih =>
    have hone : Seats P (h ++ (m.step code mv).1) (m.step code mv).2 :=
      hs.step (hconfig ▸ hnew) (fun r mv x y hfit => hstep m r mv x y _ (hconfig ▸ hfit)) mv
    have hrest := ih ((step_books code m mv hs.fit).config.trans hconfig) hone
    simpa [Machine.play] using hrest

end Machine

end ActorSystem
