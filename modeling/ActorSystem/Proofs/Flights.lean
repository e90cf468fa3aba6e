import ActorSystem.Proofs.Custody
import ActorSystem.Proofs.Told

set_option autoImplicit false

namespace ActorSystem

section

variable {κ : Type} {s s' : System κ} {r : ActorRef} {a a' : Actor κ}
  {xs : List (CallRef × CallState)}

theorem System.Turns.change_at (mode : ActorRef → Mode κ) (legs : ActorRef → List (Leg κ))
    {hs : List (Happening κ)} (h : s.actor? r = some a) (ht : System.Turns s s' r a' xs)
    (new : List (Leg κ))
    (hc : Change s.config (mode r) (a.ledgerWith (legs r)) hs xs (mode r) (a'.ledgerWith new)) :
    Books.Step (s.books mode legs) none (hs.map fun x => (r, x))
      (s'.books mode (Function.update legs r new)) := by
  have hstep : Books.Step (s.books mode legs) none (hs.map fun x => (r, x))
      ((s.books mode legs).change r (mode r) (a'.ledgerWith new) xs) :=
    .change r (System.books_intro h mode legs) hc
  have hsame : (s.books mode legs).change r (mode r) (a'.ledgerWith new) xs =
      (s.books mode legs).act r (a'.ledgerWith new) s.abroad xs := by
    simp [Books.change, Books.act, System.books]
  rwa [hsame, ← ht.books_at] at hstep

/-- What one step of a thread does to the actor at which it is at work, and to the calls. -/
theorem Leg.fly_turns (h : s.actor? r = some a) (others : List (Leg κ)) (leg : Leg κ) :
    ∃ a' xs, System.Turns s (leg.fly r s).2.2 r a' xs ∧
      Flies (a.ledgerWith others) leg (leg.fly r s).1 (leg.fly r s).2.1 xs
        (a'.ledgerWith others) := by
  cases leg with
  | put e =>
    refine ⟨_, [], .update h _, ?_⟩
    have hf : Flies (a.ledgerWith others) (.put e) _ _ [] _ := .put e
    simpa [Actor.ledgerWith, fly] using hf
  | count =>
    refine ⟨_, [], .update h _, ?_⟩
    have hf : Flies (a.ledgerWith others) .count _ _ [] _ := .count
    simpa [Actor.ledgerWith, fly] using hf
  | recheck =>
    refine ⟨a, [], .refl h, ?_⟩
    simp only [fly, System.ask_eq h]
    exact .recheck
  | signal unstarted =>
    exact ⟨_, [], .update h _, .signal unstarted⟩
  | mark own =>
    exact ⟨_, [], .update h _, .mark own⟩
  | look own =>
    refine ⟨a, [], .refl h, ?_⟩
    simp only [fly, System.ask_eq h]
    by_cases hneg : a.mailbox.pending < 0
    · simp only [hneg, decide_true, if_true]
      exact .outrun own hneg
    · simp only [hneg, decide_false, Bool.false_eq_true, if_false]
      exact .look own
  | lift own =>
    have happend := a.mailbox.lift_append_toList EventQueue.unlimited
    have hpending : (a.mailbox.lift EventQueue.unlimited).2.pending = a.mailbox.pending := rfl
    have hnil := fun hnone => EventQueue.toList_eq_nil_of_lift (q := a.mailbox) hnone
    simp only [fly, System.atActor_eq h]
    generalize a.mailbox.lift EventQueue.unlimited = p at happend hpending hnil ⊢
    obtain ⟨⟨es, more⟩, mailbox⟩ := p
    dsimp only at happend hpending hnil ⊢
    refine ⟨{ a with mailbox }, [], ?_⟩
    cases es with
    | nil =>
      have hempty := hnil rfl
      rw [List.nil_append] at happend
      have hf : Flies (a.ledgerWith others) (.lift own) _ _ [] _ := .void own hempty
      refine ⟨.put h _, ?_⟩
      simpa [Actor.ledgerWith, happend, hpending] using hf
    | cons e es =>
      have hf : Flies (a.ledgerWith others) (.lift own) _ _ [] _ :=
        .lift own (e :: es) mailbox.toList happend.symm (by simp)
      refine ⟨.put h _, ?_⟩
      simpa [Actor.ledgerWith, hpending] using hf
  | uncount own es =>
    exact ⟨_, [], .update h _, .uncount own es⟩
  | shed own es =>
    exact ⟨a, _, (System.Turns.refl h).giveUpAll _, .shed own es⟩
  | leave =>
    exact ⟨_, _, System.leave_turns h, .leave⟩

end

namespace Traffic

variable {κ : Type} {t : Traffic κ}

def Move.forgets? : Move κ → Option (CallRef × CallState)
  | .whole mv => mv.forgets?
  | _ => none

def Seated (t : Traffic κ) : Prop := ∀ r, t.system.actor? r = none → t.legs r = []

theorem add_books (t : Traffic κ) (s : System κ) (r : ActorRef) (leg : Leg κ) :
    ((t.withSystem s).add r leg).books =
      s.books t.machine.mode (Function.update t.legs r (t.legs r ++ [leg])) := rfl

theorem books_eq (t : Traffic κ) : t.books = t.system.books t.machine.mode t.legs := rfl

/-- A push sets out, with the replies that its event carries, or it is over at once. -/
theorem embark_deal (t : Traffic κ) (r : ActorRef) {e : Event κ} (hcall : e.call? = none)
    (taken abroad : List (ActorRef × CallRef)) (habroad : abroad.Perm (taken ++ t.system.abroad))
    (htaken : taken.map Prod.snd = e.calls) :
    (t.withSystem { t.system with abroad }).books.Deal [] (t.embark r e).books := by
  unfold embark
  cases hopen : t.system.accepts r with
  | false =>
    have hwaste := System.Books.Deal.wastes (b := (t.withSystem { t.system with abroad }).books) taken
      t.system.abroad habroad
    rw [if_neg Bool.false_ne_true, System.giveUpAll_eq, ← htaken]
    exact hwaste
  | true =>
    cases h : t.system.actor? r with
    | none => simp [System.accepts_absent h] at hopen
    | some a =>
      have ha : a.refuses = false := by simpa [System.accepts_eq h] using hopen
      have h' : { t.system with abroad }.actor? r = some a := h
      have hact : Effect (t.machine.mode r) (a.ledgerWith (t.legs r)) e.calls [] [] []
          (a.ledgerWith (t.legs r ++ [.put e])) := .board e hcall ha
      rw [if_pos rfl]
      exact (System.Turns.refl h').flow_at taken t.system.abroad h' _ hact
        (by simpa using habroad) htaken

theorem embark_execute (t : Traffic κ) (self target : ActorRef) (action : κ) (owned : List String) :
    t.books.Deal []
      ((t.withSystem (t.system.takeOwned self owned).2).embark target
        (.errand action (t.system.takeOwned self owned).1)).books := by
  cases h : t.system.actor? self with
  | none =>
    rw [System.takeOwned, System.atActor_absent h]
    exact embark_deal t target rfl [] t.system.abroad (.refl _) rfl
  | some a =>
    obtain ⟨hreplies, ht⟩ := System.takeOwned_turns h owned
    rw [hreplies]
    generalize (t.system.takeOwned self owned).2 = s₁ at ht ⊢
    let taken := (a.dispatch.hand.only owned).values.map fun c => (self, c)
    have hgive : t.books.Deal []
        ({ s₁ with abroad := t.system.abroad ++ taken }.books t.machine.mode t.legs) :=
      ht.flow [] _ h (.entrust owned) (.refl _) rfl
    refine hgive.both (embark_deal (t.withSystem s₁) target rfl taken _ ?_ ?_)
    · change (t.system.abroad ++ taken).Perm (taken ++ s₁.abroad)
      rw [ht.abroad]
      exact List.perm_append_comm
    · simp [taken, Event.calls, Function.comp_def]

/-- A close sets out: it claims an actor that nobody has started, so that nobody will. -/
theorem claim_deal (t : Traffic κ) (r : ActorRef) {x : Bool} {s : System κ}
    (hclaim : t.system.claim r = (x, s)) {a : Actor κ} (h : t.system.actor? r = some a) :
    t.books.Deal [] ((t.withSystem s).add r (.signal x)).books := by
  rw [System.claim, System.atActor_eq h] at hclaim
  obtain ⟨rfl, rfl⟩ := Prod.mk.inj hclaim
  have ht := System.Turns.put h { a with dormant := false }
  have hact : Effect (t.machine.mode r) (a.ledgerWith (t.legs r)) [] [] [] []
      (({ a with dormant := false } : Actor κ).ledgerWith (t.legs r ++ [.signal a.dormant])) := by
    cases hd : a.dormant with
    | true => exact .claim hd
    | false =>
      have hwarn : Effect (t.machine.mode r) (a.ledgerWith (t.legs r)) [] [] [] [] _ := .warn hd
      simpa [Actor.ledgerWith, Ledger.board, hd] using hwarn
  exact ht.flow_at [] t.system.abroad h _ hact (by simp) rfl

theorem begin_deal {self : ActorRef} {o : Op κ} {x : o.Answer} {t' : Traffic κ}
    (h : t.begin self o = some (x, t')) : t.books.Deal [] t'.books := by
  cases o with
  | post target p =>
    obtain ⟨-, rfl⟩ := Prod.mk.inj (Option.some.inj h)
    exact embark_deal t target rfl [] t.system.abroad (.refl _) rfl
  | call target name args =>
    obtain ⟨-, rfl⟩ := Prod.mk.inj (Option.some.inj h)
    exact embark_deal t target rfl [] t.system.abroad (.refl _) rfl
  | execute target action owned =>
    obtain ⟨-, rfl⟩ := Prod.mk.inj (Option.some.inj h)
    exact embark_execute t self target action owned
  | close target =>
    simp only [begin] at h
    cases ha : t.system.actor? target with
    | none =>
      have hnone : (t.system.claim target).2.ask target false (fun _ => true) = false := by
        rw [System.claim, System.atActor_absent ha, System.ask_absent ha]
      rw [hnone, if_neg Bool.false_ne_true] at h
      obtain ⟨-, rfl⟩ := Prod.mk.inj (Option.some.inj h)
      exact .same _
    | some a =>
      have hsome : (t.system.claim target).2.ask target false (fun _ => true) = true := by
        rw [System.claim, System.atActor_eq ha, System.ask_eq (System.Turns.put ha _).actor?_self]
      rw [hsome, if_pos rfl] at h
      obtain ⟨-, rfl⟩ := Prod.mk.inj (Option.some.inj h)
      exact claim_deal t target rfl ha
  | _ => simp [begin] at h

theorem begin_mode {self : ActorRef} {o : Op κ} {x : o.Answer} {t' : Traffic κ}
    (h : t.begin self o = some (x, t')) : t'.machine.mode = t.machine.mode := by
  have hembark : ∀ (t : Traffic κ) r e, (t.embark r e).machine.mode = t.machine.mode := by
    intro t r e
    unfold embark
    split <;> rfl
  cases o with
  | post | call | execute =>
    obtain ⟨-, rfl⟩ := Prod.mk.inj (Option.some.inj h)
    exact hembark ..
  | close target =>
    simp only [begin] at h
    split at h <;>
    · obtain ⟨-, rfl⟩ := Prod.mk.inj (Option.some.inj h)
      rfl
  | _ => simp [begin] at h

theorem launch_deal (t : Traffic κ) (r : ActorRef) : t.books.Deal [] (t.launch r).books := by
  unfold launch
  split
  · exact .same _
  · rename_i o next htodo hnot
    split
    · exact .same _
    · rename_i x t' hbegin
      have hdeal := begin_deal hbegin
      have hmode := begin_mode hbegin
      have hbooks : { t' with
          machine := t'.machine.runs r (t.machine.mode r) (next x) t'.system }.books = t'.books := by
        simp [books, Machine.booksWith, Machine.runs, ← hmode, system]
      rwa [hbooks]
  · exact .same _

theorem request_step (t : Traffic κ) (code : κ → Invocation → Prog κ Unit) (r : ActorRef)
    (name : String) (args : Args) :
    Books.Step t.books none (t.step code (.request r name args)).1
      (t.step code (.request r name args)).2.books := by
  simp only [step]
  cases hopen : t.system.accepts r with
  | false => exact .deal (.same _)
  | true =>
    cases h : t.system.actor? r with
    | none => simp [System.accepts_absent h] at hopen
    | some a =>
      have ha : a.refuses = false := by simpa [System.accepts_eq h] using hopen
      let s : System κ := { t.system with calls := t.system.calls.push ⟨name, .waiting⟩ }
      have hs : s.actor? r = some a := h
      have hbooks := (System.Turns.refl hs).books_at t.machine.mode t.legs
        (t.legs r ++ [.put (.awaitRpc ⟨none, name, args⟩ t.system.calls.size)])
      rw [if_pos rfl]
      rw [add_books, hbooks]
      exact .book r name args (System.books_intro h t.machine.mode t.legs) ha

theorem retire_step (t : Traffic κ) (r : ActorRef) :
    Books.Step t.books none (t.retire r).1 (t.retire r).2.books := by
  unfold retire
  split
  · rename_i hguard
    simp only [Bool.and_eq_true, Bool.not_eq_true', beq_iff_eq] at hguard
    obtain ⟨⟨⟨hfree, hidle⟩, hclosing⟩, hnone⟩ := hguard
    obtain ⟨hmode, a, ha, halive, hbatch⟩ := Machine.idle_elim hidle
    have hclosing' : a.closing = true := by
      rw [system, System.ask_eq ha] at hclosing
      exact hclosing
    have hc : Change t.system.config .ready (a.ledgerWith (t.legs r)) [.ended []] [] .ready _ :=
      .retire halive hfree hbatch hclosing' (System.takeBatch_nothing ha hnone _)
    have hstep := (System.closeOwned_turns ha).change_at t.machine.mode t.legs ha
      (t.legs r ++ [.mark true]) (hmode ▸ hc)
    exact hstep
  · exact .deal (.same _)

theorem fly_step (t : Traffic κ) (r : ActorRef) (i : Nat) (hs : t.Seated) :
    Books.Step t.books none (t.fly r i).1 (t.fly r i).2.books := by
  unfold fly
  cases hleg : (t.legs r)[i]? with
  | none => exact .deal (.same _)
  | some leg =>
    cases ha : t.system.actor? r with
    | none => simp [hs r ha] at hleg
    | some a =>
      obtain ⟨a', xs, ht, hf⟩ := Leg.fly_turns ha (t.legs r) leg
      have hlegs : (a.ledgerWith (t.legs r)).legs =
          (t.legs r).take i ++ leg :: (t.legs r).drop (i + 1) := by
        obtain ⟨hi, rfl⟩ := List.getElem?_eq_some_iff.1 hleg
        simp [Actor.ledgerWith]
      exact ht.change_at _ _ ha _ (.fly _ leg _ _ hlegs hf)

theorem whole_step (code : κ → Invocation → Prog κ Unit) (t : Traffic κ) (mv : ActorSystem.Move κ)
    (hf : t.books.Fit) (hs : t.Seated) :
    Books.Step t.books (Move.whole mv).forgets? (t.step code (.whole mv)).1
      (t.step code (.whole mv)).2.books := by
  simp only [step]
  by_cases hhalted : mv.mover?.any t.halted = true
  · rw [if_pos hhalted]
    cases mv with
    | expire | abandon => simp [ActorSystem.Move.mover?] at hhalted
    | _ => exact .deal (.same _)
  · rw [if_neg hhalted]
    refine Machine.step_booksWith code t.machine mv hf hs fun r hr => ?_
    simpa [hr, halted] using hhalted

theorem step_books (code : κ → Invocation → Prog κ Unit) (t : Traffic κ) (mv : Move κ)
    (hf : t.books.Fit) (hs : t.Seated) :
    Books.Step t.books mv.forgets? (t.step code mv).1 (t.step code mv).2.books := by
  cases mv with
  | whole mv => exact whole_step code t mv hf hs
  | request r name args => exact request_step t code r name args
  | outside o =>
    refine .deal ?_
    simp only [step]
    cases hbegin : t.begin t.system.actors.size o with
    | none => exact .same _
    | some p => exact begin_deal hbegin
  | launch r => exact .deal (launch_deal t r)
  | retire r => exact retire_step t r
  | fly r i => exact fly_step t r i hs

section

variable {r : ActorRef}

theorem add_absent (t : Traffic κ) {r' : ActorRef} (leg : Leg κ) (hr : r ≠ r') :
    (t.add r' leg).legs r = t.legs r := Function.update_of_ne hr ..

theorem embark_absent (h : t.system.actor? r = none) (r' : ActorRef) (e : Event κ) :
    (t.embark r' e).legs r = t.legs r := by
  unfold embark
  split
  · rename_i hopen
    refine t.add_absent _ fun hr => ?_
    rw [← hr, System.accepts_absent h] at hopen
    cases hopen
  · rfl

theorem begin_absent {self : ActorRef} {o : Op κ} {x : o.Answer} {t' : Traffic κ}
    (hbegin : t.begin self o = some (x, t')) (h : t.system.actor? r = none) :
    t'.legs r = t.legs r := by
  cases o with
  | post target | call target =>
    obtain ⟨-, rfl⟩ := Prod.mk.inj (Option.some.inj hbegin)
    exact embark_absent h ..
  | execute target action owned =>
    obtain ⟨-, rfl⟩ := Prod.mk.inj (Option.some.inj hbegin)
    have h' : (t.system.takeOwned self owned).2.actor? r = none := by
      cases ha : t.system.actor? self with
      | none => rwa [System.takeOwned, System.atActor_absent ha]
      | some a =>
        have hne : r ≠ self := fun hr => by simp [← hr, h] at ha
        rw [(System.takeOwned_turns ha owned).2.actor, Function.update_of_ne hne, h]
    exact embark_absent (t := t.withSystem _) h' ..
  | close target =>
    simp only [begin] at hbegin
    split at hbegin
    · rename_i hsome
      obtain ⟨-, rfl⟩ := Prod.mk.inj (Option.some.inj hbegin)
      refine add_absent _ _ fun hr => ?_
      rw [← hr, System.claim, System.atActor_absent h, System.ask_absent h] at hsome
      cases hsome
    · obtain ⟨-, rfl⟩ := Prod.mk.inj (Option.some.inj hbegin)
      rfl
  | _ => simp [begin] at hbegin

theorem launch_absent (h : t.system.actor? r = none) (r' : ActorRef) :
    (t.launch r').legs r = t.legs r := by
  unfold launch
  split
  · rfl
  · split
    · rfl
    · rename_i t' hbegin
      have habsent : t'.legs r = t.legs r := begin_absent hbegin h
      exact habsent
  · rfl

theorem step_absent (code : κ → Invocation → Prog κ Unit) (hs : t.Seated)
    (h : t.system.actor? r = none) (mv : Move κ) : (t.step code mv).2.legs r = t.legs r := by
  cases mv with
  | whole mv =>
    simp only [step]
    split <;> rfl
  | request r' name args =>
    simp only [step]
    split
    · rename_i hopen
      refine add_absent _ _ fun hr => ?_
      rw [← hr, System.accepts_absent h] at hopen
      cases hopen
    · rfl
  | outside o =>
    simp only [step]
    cases hbegin : t.begin t.system.actors.size o with
    | none => rfl
    | some p => exact begin_absent hbegin h
  | launch r' => exact launch_absent h r'
  | retire r' =>
    simp only [step, retire]
    split
    · rename_i hguard
      simp only [Bool.and_eq_true] at hguard
      obtain ⟨-, a, ha, -, -⟩ := Machine.idle_elim hguard.1.1.2
      refine add_absent _ _ fun hr => ?_
      rw [← hr] at ha
      exact absurd (h.symm.trans ha) (by simp)
    · rfl
  | fly r' i =>
    simp only [step, fly]
    split
    · rfl
    · rename_i leg hleg
      refine Function.update_of_ne (fun hr => ?_) ..
      simp [← hr, hs r h] at hleg

theorem step_seated (code : κ → Invocation → Prog κ Unit) (t : Traffic κ) (mv : Move κ)
    (hf : t.books.Fit) (hs : t.Seated) : (t.step code mv).2.Seated := by
  intro r hnone
  cases h : t.system.actor? r with
  | none => rw [step_absent code hs h mv, hs r h]
  | some a =>
    obtain ⟨l', hl', -⟩ := (step_books code t mv hf hs).ages hf
      (System.books_intro h t.machine.mode t.legs)
    exact absurd hl' (by rw [books_eq, System.books_none hnone]; simp)

end

theorem play_induction (code : κ → Invocation → Prog κ Unit) {P : History κ → Traffic κ → Prop}
    (hstep : ∀ h t mv, t.books.Fit → t.Seated → P h t →
      P (h ++ (t.step code mv).1) (t.step code mv).2)
    (mvs : List (Move κ)) {t : Traffic κ} (hf : t.books.Fit) (hs : t.Seated) {h : History κ}
    (hp : P h t) :
    (play code mvs t).2.books.Fit ∧ (play code mvs t).2.Seated ∧
      P (h ++ (play code mvs t).1) (play code mvs t).2 := by
  induction mvs generalizing t h with
  | nil => exact ⟨hf, hs, by simpa [play] using hp⟩
  | cons mv mvs ih =>
    have hs' := step_seated code t mv hf hs
    obtain ⟨hf'', hs'', hp''⟩ := ih ((step_books code t mv hf hs).fit hf) hs' (hstep h t mv hf hs hp)
    exact ⟨hf'', hs'', by simpa [play] using hp''⟩

theorem new_fit (config : Config) (clock : Clock) : (new config clock : Traffic κ).books.Fit :=
  Books.start_fit config clock

theorem new_seated (config : Config) (clock : Clock) : (new config clock : Traffic κ).Seated :=
  fun _ _ => rfl

/-- Whole operations are threads that nobody gets in the way of. -/
theorem play_whole (code : κ → Invocation → Prog κ Unit) (mvs : List (ActorSystem.Move κ))
    (m : Machine κ) :
    play code (mvs.map .whole) (calm m) =
      ((Machine.play code mvs m).1, calm (Machine.play code mvs m).2) := by
  induction mvs generalizing m with
  | nil => rfl
  | cons mv mvs ih =>
    have hfree : mv.mover?.any (calm m).halted = false := by
      cases mv.mover? <;> rfl
    have hstep : (calm m).step code (.whole mv) =
        ((m.step code mv).1, calm (m.step code mv).2) := by
      simp only [step, hfree, Bool.false_eq_true, if_false]
      rfl
    simp only [List.map_cons, play, Machine.play, hstep, ih]

end Traffic

end ActorSystem
