import ActorSystem.Proofs.Flights
import ActorSystem.Proofs.Leaving

/-!
The end of an actor. One that is told to close takes in only what was on its way before; it ends once
all that it took in has been dispatched. Then it closes what it owns, each once, and is never heard
of again; what other threads still put into its mailbox is thrown away.
-/

set_option autoImplicit false

namespace ActorSystem

variable {κ : Type}

open Happening

namespace Happening

/-- The events that a handler was given, each with those that its panic has thrown away. -/
def dispatched : Happening κ → List (Event κ)
  | completed e => [e]
  | panicked e dropped => e :: dropped
  | _ => []

def isEnd : Happening κ → Bool
  | ended _ => true
  | _ => false

/-- Of an actor whose loop is still running, nothing has been consumed in any other way. -/
theorem consumedIn_eq {hs : List (Happening κ)} (htimers : ∀ es, timerPanicked es ∈ hs → es = [])
    (hcancelled : ∀ es, cancelled es ∉ hs) (hended : ∀ es, ended es ∈ hs → es = [])
    (hdiscarded : ∀ es, discarded es ∉ hs) : consumedIn hs = hs.flatMap dispatched := by
  refine List.flatMap_congr fun x hx => ?_
  cases x with
  | timerPanicked es => exact htimers es hx
  | cancelled es => exact absurd hx (hcancelled es)
  | ended es => exact hended es hx
  | discarded es => exact absurd hx (hdiscarded es)
  | _ => rfl

end Happening

namespace History

def ended (h : History κ) : List ActorRef := (h.filter fun x => x.2.isEnd).map Prod.fst

@[simp] theorem ended_append (h h' : History κ) : ended (h ++ h') = ended h ++ ended h' := by
  simp [ended]

theorem mem_ended {h : History κ} {r : ActorRef} : r ∈ h.ended ↔ ∃ es, (r, .ended es) ∈ h := by
  unfold ended
  constructor
  · intro hr
    obtain ⟨⟨r', x⟩, hx, rfl⟩ := List.mem_map.1 hr
    obtain ⟨hmem, hend⟩ := List.mem_filter.1 hx
    cases x with
    | ended es => exact ⟨es, hmem⟩
    | _ => cases hend
  · rintro ⟨es, hmem⟩
    exact List.mem_map.2 ⟨_, List.mem_filter.2 ⟨hmem, rfl⟩, rfl⟩

theorem ended_nil {h : History κ} (hnone : ∀ x ∈ h, x.2.isEnd = false) : h.ended = [] := by
  rw [ended, List.filter_eq_nil_iff.2 fun x hx => by simp [hnone x hx], List.map_nil]

/-- What an actor has to close, by the events that its handlers were given. -/
def farewell (h : History κ) (r : ActorRef) : List Entry :=
  System.farewell (registeredBy (handledIn (h.of r))) (connectedBy (handledIn (h.of r))).values

end History

namespace System

variable {s : System κ} {r : ActorRef} {a : Actor κ}

theorem heard_ended (s : System κ) (self : ActorRef) (o : Op κ) : (s.heard self o).ended = [] := by
  have hreplied : ∀ (cs : List CallRef) (vs : List Value),
      History.ended (cs.map fun c => ((self, .replied c vs) : ActorRef × Happening κ)) = [] := by
    intro cs vs
    simp [History.ended, isEnd, List.filter_map, Function.comp_def]
  cases o with
  | answer vs => exact hreplied _ vs
  | answerKept slot vs => exact hreplied _ vs
  | post target p | call target name args | execute target action owned =>
    simp only [heard]
    split <;> rfl
  | close target =>
    simp only [heard]
    split
    · split <;> rfl
    · rfl
  | _ => rfl

theorem elsewhere_ended (s : System κ) (c : CallRef) (use : Fate κ) :
    (s.elsewhere c use).1.ended = [] := by
  unfold elsewhere
  split
  · rfl
  · cases use with
    | pass slot target action =>
      dsimp only
      split <;> rfl
    | _ => rfl

theorem closeOwned_closings (h : s.actor? r = some a) :
    (s.closeOwned r).closings = s.closings ++ farewell a.components.values a.agents.values := by
  have hall : (farewell a.components.values a.agents.values).filter Entry.isClosing =
      farewell a.components.values a.agents.values := by
    simp [farewell, Entry.isClosing, List.filter_map, Function.comp_def]
  rw [closeOwned_eq h]
  simp [closings, update, hall]

theorem dismantle_closings (h : s.actor? r = some a) :
    (s.dismantle r).closings = s.closings ++ farewell a.components.values a.agents.values := by
  have hrest : Spares (fun _ => ()) (s.closeOwned r) (s.dismantle r) :=
    (markClosed_spares _ r).trans
      (((discard_spares _ r).coarsen fun _ => ()).trans (leave_spares _ r))
  rw [hrest.closings, closeOwned_closings h]

end System

namespace Machine

variable {m : Machine κ} {r : ActorRef}

theorem step_keeps_closings (code : κ → Invocation → Prog κ Unit) (m : Machine κ) (mv : Move κ)
    (hmv : ∀ r, mv ≠ .dismantle r) :
    (m.step code mv).2.system.closings = m.system.closings ∧ (m.step code mv).1.ended = [] := by
  cases mv with
  | dismantle r => exact absurd rfl (hmv r)
  | outside o => exact ⟨(System.perform_spares _ o m.system).closings, System.heard_ended _ _ o⟩
  | request r name args =>
    refine ⟨(System.request_spares m.system r name args).closings, ?_⟩
    simp only [step]
    split <;> rfl
  | expire c => exact ⟨(System.Spares.settle (π := id) m.system c .timedOut).closings, rfl⟩
  | abandon c => exact ⟨(System.Spares.settle (π := id) m.system c .abandoned).closings, rfl⟩
  | elsewhere c use =>
    exact ⟨(System.elsewhere_spares m.system c use).closings, System.elsewhere_ended m.system c use⟩
  | spawn name => exact ⟨rfl, rfl⟩
  | arrange clock ids started names pools => exact ⟨rfl, rfl⟩
  | tend r stirred announced notified channel stage watch => exact ⟨rfl, rfl⟩
  | wake r =>
    refine ⟨?_, rfl⟩
    simp only [step]
    split <;> rfl
  | take r =>
    refine ⟨?_, rfl⟩
    simp only [step]
    split
    · exact (System.takeBatch_spares m.system r).closings
    · rfl
  | dispatch r =>
    refine ⟨?_, rfl⟩
    simp only [step, begin]
    split
    · rename_i a hmode ha
      split
      · rfl
      · rename_i e rest hbatch
        have hreceived : System.Spares (fun _ => ()) (m.system.put r { a with batch := rest })
            ((m.system.put r { a with batch := rest }).receive r e).2 :=
          System.receive_spares _ r e fun _ => rfl
        exact hreceived.closings
    · rfl
  | proceed r =>
    simp only [step, proceed]
    split
    · exact ⟨rfl, rfl⟩
    · rename_i o next hnot htodo
      exact ⟨(System.perform_spares r o m.system).closings, System.heard_ended _ r o⟩
    · exact ⟨(System.reset_spares m.system r).closings, rfl⟩
    · exact ⟨(System.recover_spares m.system r).closings, rfl⟩
    · exact ⟨(System.reset_spares _ r).closings, rfl⟩
    · exact ⟨(System.recover_spares m.system r).closings, rfl⟩
  | fire r =>
    refine ⟨?_, rfl⟩
    simp only [step, fire]
    split
    · rename_i hidle
      obtain ⟨-, a, ha, -, -⟩ := idle_elim hidle
      rw [System.atActor_eq ha]
      cases (a.expire m.system.clock.now).1 with
      | none => rfl
      | some e => rfl
    · rfl

theorem inherits_of {m' : Machine κ} (h : System.Spares Actor.estate m.system m'.system)
    (hmode : m'.mode = m.mode) : m.Inherits m' := by
  intro r a' ha'
  obtain ⟨a, ha, hestate⟩ := h.some_rev ha'
  exact .same ha hestate (by rw [hmode]; exact Mode.begun_self _)

end Machine

namespace Traffic

variable {t : Traffic κ} {r : ActorRef} {a : Actor κ}

theorem embark_spares (t : Traffic κ) (r : ActorRef) (e : Event κ) :
    System.Spares Actor.still t.system (t.embark r e).system := by
  unfold embark
  split
  · exact .refl _
  · exact .giveUpAll _ _

theorem begin_spares {self : ActorRef} {o : Op κ} {x : o.Answer} {t' : Traffic κ}
    (h : t.begin self o = some (x, t')) : System.Spares Actor.core t.system t'.system := by
  cases o with
  | post | call =>
    obtain ⟨-, rfl⟩ := Prod.mk.inj (Option.some.inj h)
    exact (embark_spares ..).core
  | execute target action owned =>
    obtain ⟨-, rfl⟩ := Prod.mk.inj (Option.some.inj h)
    have htake : System.Spares Actor.still t.system (t.system.takeOwned self owned).2 :=
      .atActor _ self Table.empty _ fun _ => rfl
    exact (htake.trans (embark_spares (t.withSystem _) target _)).core
  | close target =>
    have hclaim : System.Spares Actor.core t.system (t.system.claim target).2 :=
      .atActor _ target false _ fun _ => rfl
    simp only [begin] at h
    split at h <;> obtain ⟨-, rfl⟩ := Prod.mk.inj (Option.some.inj h)
    · exact hclaim
    · exact .refl _
  | _ => simp [begin] at h

theorem launch_spares (t : Traffic κ) (r : ActorRef) :
    System.Spares Actor.core t.system (t.launch r).system ∧
      (t.launch r).machine.mode = t.machine.mode := by
  unfold launch
  split
  · exact ⟨.refl _, rfl⟩
  · split
    · exact ⟨.refl _, rfl⟩
    · rename_i t' hbegin
      have hspares : System.Spares Actor.core t.system t'.system := begin_spares hbegin
      refine ⟨hspares, ?_⟩
      simp [Machine.runs, ← begin_mode hbegin]
  · exact ⟨.refl _, rfl⟩

theorem fly_spares (r : ActorRef) (s : System κ) (leg : Leg κ) :
    System.Spares Actor.estate s (leg.fly r s).2.2 := by
  cases leg with
  | recheck | look => exact .refl s
  | lift own =>
    have hlift : System.Spares Actor.estate s (s.atActor r [] fun a : Actor κ =>
        ((a.mailbox.lift EventQueue.unlimited).1.items,
          { a with mailbox := (a.mailbox.lift EventQueue.unlimited).2 })).2 :=
      .atActor s r [] _ fun _ => rfl
    simp only [Leg.fly]
    split <;> exact hlift
  | shed own es => exact .giveUpAll s _
  | leave =>
    have htake : System.Spares Actor.estate s (s.atActor r [] fun a : Actor κ =>
        (a.kept.values ++ a.purses.flatMap fun p => p.2.values,
          { a with kept := .empty, purses := [] })).2 := .atActor s r [] _ fun _ => rfl
    exact htake.trans (.giveUpAll _ _)
  | _ => exact .update s r _ fun _ => rfl

theorem fly_isEnd (r : ActorRef) (s : System κ) (leg : Leg κ) :
    ∀ x ∈ (leg.fly r s).2.1, x.isEnd = false := by
  cases leg with
  | lift own =>
    simp only [Leg.fly]
    split <;> simp [isEnd]
  | _ => simp [Leg.fly, isEnd]

/-- The actor has been told to close and finds nothing more to do. -/
structure Departs (t : Traffic κ) (r : ActorRef) (a : Actor κ) : Prop where
  actor : t.system.actor? r = some a
  mode : t.machine.mode r = .ready
  alive : a.alive = true
  free : t.halted r = false
  closing : a.closing = true
  batch : a.batch = []
  mailbox : (a.ledgerWith (t.legs r)).TakesNothing t.system.config

/-- A move ends one actor, which then closes what it owns, or it closes nothing. -/
inductive Parts (t t' : Traffic κ) (h : History κ) : Prop where
  | none (hclosings : t'.system.closings = t.system.closings) (hended : h.ended = [])
      (hheirs : t.machine.Inherits t'.machine)
  | one (r : ActorRef) (a a' : Actor κ) (es : List (Event κ)) (hd : t.Departs r a)
      (hh : h = [(r, .ended es)])
      (hclosings : t'.system.closings =
        t.system.closings ++ System.farewell a.components.values a.agents.values)
      (hactor : t'.system.actor? = Function.update t.system.actor? r (some a'))
      (hestate : a'.estate = .nothing) (hclosing : a'.closing = true)
      (hl : (a'.ledgerWith (t'.legs r)).Leaving)
      (hmode : t'.machine.mode = t.machine.mode)

theorem Parts.refl (t : Traffic κ) : Parts t t [] := .none rfl rfl (.refl _)

theorem retire_parts (t : Traffic κ) (r : ActorRef) : Parts t (t.retire r).2 (t.retire r).1 := by
  unfold retire
  split
  · rename_i hguard
    simp only [Bool.and_eq_true, Bool.not_eq_true', beq_iff_eq] at hguard
    obtain ⟨⟨⟨hfree, hidle⟩, hclosing⟩, hnone⟩ := hguard
    obtain ⟨hmode, a, ha, halive, hbatch⟩ := Machine.idle_elim hidle
    have ha' : t.system.actor? r = some a := ha
    rw [System.ask_eq ha'] at hclosing
    refine .one r a _ [] ⟨ha', hmode, halive, hfree, hclosing, hbatch,
      System.takeBatch_nothing ha' hnone _⟩ rfl (System.closeOwned_closings ha')
      (System.closeOwned_turns ha').actor rfl hclosing (.inr ?_) rfl
    simp [Actor.ledgerWith, add, withSystem]
  · exact .refl t

theorem dismantle_parts (t : Traffic κ) (r : ActorRef) (hfree : t.halted r = false) :
    Parts t { t with machine := (t.machine.dismantle r).2 } (t.machine.dismantle r).1 := by
  unfold Machine.dismantle
  split
  · rename_i hguard
    simp only [Bool.and_eq_true, beq_iff_eq] at hguard
    obtain ⟨⟨hidle, hclosing⟩, hnone⟩ := hguard
    obtain ⟨hmode, a, ha, halive, hbatch⟩ := Machine.idle_elim hidle
    have ha' : t.system.actor? r = some a := ha
    rw [System.ask_eq ha] at hclosing
    have hd : t.Departs r a := ⟨ha', hmode, halive, hfree, hclosing, hbatch,
      System.takeBatch_nothing ha' hnone _⟩
    have hclosings := System.dismantle_closings ha
    have hactor := System.dismantle_actor? ha
    generalize t.machine.system.dismantle r = s at hclosings hactor ⊢
    exact .one r a _ _ hd rfl hclosings hactor rfl hclosing (.inl (by simp)) rfl
  · exact .refl t

theorem whole_parts (code : κ → Invocation → Prog κ Unit) (t : Traffic κ) (mv : ActorSystem.Move κ) :
    Parts t (t.step code (.whole mv)).2 (t.step code (.whole mv)).1 := by
  simp only [step]
  split
  · exact .refl t
  · rename_i hfree
    by_cases hmv : ∀ r, mv ≠ .dismantle r
    · obtain ⟨hclosings, hended⟩ := Machine.step_keeps_closings code t.machine mv hmv
      exact .none hclosings hended (Machine.step_inherits code t.machine mv)
    · obtain ⟨r, rfl⟩ : ∃ r, mv = .dismantle r := by simpa using hmv
      exact dismantle_parts t r (by simpa [ActorSystem.Move.mover?] using hfree)

theorem step_parts (code : κ → Invocation → Prog κ Unit) (t : Traffic κ) (mv : Move κ) :
    Parts t (t.step code mv).2 (t.step code mv).1 := by
  have hcore : ∀ {t' : Traffic κ}, System.Spares Actor.core t.system t'.system →
      t'.machine.mode = t.machine.mode → Parts t t' [] := fun h hmode =>
    .none h.closings rfl (Machine.inherits_of h.estate hmode)
  cases mv with
  | whole mv => exact whole_parts code t mv
  | request r name args =>
    simp only [step]
    split
    · exact .none rfl rfl (Machine.inherits_of (m := t.machine) ⟨rfl, fun _ => rfl⟩ rfl)
    · exact .refl t
  | outside o =>
    simp only [step]
    cases hbegin : t.begin t.system.actors.size o with
    | none => exact .refl t
    | some p =>
      obtain ⟨x, t'⟩ := p
      exact hcore (begin_spares hbegin) (begin_mode hbegin)
  | launch r => exact hcore (launch_spares t r).1 (launch_spares t r).2
  | retire r => exact retire_parts t r
  | fly r i =>
    simp only [step, fly]
    split
    · exact .refl t
    · rename_i leg hleg
      have hspares := fly_spares r t.system leg
      refine .none hspares.closings (History.ended_nil fun x hx => ?_)
        (Machine.inherits_of hspares rfl)
      obtain ⟨y, hy, rfl⟩ := List.mem_map.1 hx
      exact fly_isEnd r t.system leg y hy

/-- What holds of everything that is done with one actor holds of what a move does with it. -/
theorem step_pervaded {R : Mode κ → Ledger κ → List (Happening κ) → Mode κ → Ledger κ → Prop}
    (code : κ → Invocation → Prog κ Unit) (mv : Move κ) (hR : Pervades t.system.config R)
    (hf : t.books.Fit) (hs : t.Seated) (ha : t.system.actor? r = some a) :
    ∃ a', (t.step code mv).2.system.actor? r = some a' ∧
      R (t.machine.mode r) (a.ledgerWith (t.legs r)) ((t.step code mv).1.of r)
        ((t.step code mv).2.machine.mode r) (a'.ledgerWith ((t.step code mv).2.legs r)) := by
  obtain ⟨l', hl', h⟩ := (step_books code t mv hf hs).pervaded hR hf
    (System.books_intro ha t.machine.mode t.legs)
  obtain ⟨a', ha', rfl⟩ := Option.map_eq_some_iff.1 hl'
  exact ⟨a', ha', h⟩

/-- What a run has left to its actors, and what it has closed. -/
structure Settled (h : History κ) (t : Traffic κ) : Prop where
  owns : ∀ r a, t.system.actor? r = some a → r ∉ h.ended → a.phase ≠ .closed →
    a.Owns (handledIn (h.of r) ++ (t.machine.mode r).hand)
  ended : ∀ r ∈ h.ended, ∃ a, t.system.actor? r = some a ∧ a.estate = .nothing ∧
    a.closing = true ∧ (a.ledgerWith (t.legs r)).Leaving
  once : h.ended.Nodup
  closings : t.system.closings = h.ended.flatMap h.farewell
  discarded : ∀ r es, (r, .discarded es) ∈ h → ∃ a, t.system.actor? r = some a ∧ a.phase = .closed

namespace Settled

variable {code : κ → Invocation → Prog κ Unit} {mv : Move κ} {h : History κ} {a' : Actor κ}

theorem new (config : Config) (clock : Clock) : Settled [] (.new config clock : Traffic κ) := by
  refine ⟨fun r a ha => ?_, by simp [History.ended], by simp [History.ended], rfl, by simp⟩
  have hnone : (Traffic.new config clock : Traffic κ).system.actor? r = none := rfl
  cases hnone.symm.trans ha

theorem owns_step (hs : t.Settled h) (hf : t.books.Fit) (hseat : t.Seated)
    (hacc : t.books.Accounted h) (ha' : (t.step code mv).2.system.actor? r = some a')
    (hend : r ∉ (h ++ (t.step code mv).1).ended) (hopen : a'.phase ≠ .closed) :
    a'.Owns (handledIn ((h ++ (t.step code mv).1).of r) ++
      ((t.step code mv).2.machine.mode r).hand) := by
  have hstep := step_books code t mv hf hseat
  rw [History.ended_append, List.mem_append, not_or] at hend
  have hold : ∀ {a}, t.system.actor? r = some a → a.phase ≠ .closed := by
    intro a ha hclosed
    obtain ⟨a₁, ha₁, hages⟩ := step_pervaded code mv (pervades_ages _) hf hseat ha
    obtain rfl := Option.some.inj (ha'.symm.trans ha₁)
    have hclosed' := hages.closed (by simp [hclosed])
    exact hopen (by simpa using hclosed')
  have hhand : handledIn ((h ++ (t.step code mv).1).of r) ++
      ((t.step code mv).2.machine.mode r).hand =
        handledIn (h.of r) ++ (t.machine.mode r).hand ++
          Mode.begun (t.machine.mode r) ((t.step code mv).2.machine.mode r) := by
    have heq := hstep.handled hf r
    rw [History.of_append, handledIn_append, List.append_assoc, List.append_assoc]
    exact congrArg _ heq
  rw [hhand]
  cases step_parts code t mv with
  | none hclosings hended hheirs =>
    cases hheirs r a' ha' with
    | fresh hnone he hm =>
      have hl : t.books.ledger r = none := System.books_none hnone ..
      have hmode : t.machine.mode r = .ready := hf.absent r hl
      rw [hm, hacc.absent r hl, hmode]
      exact Actor.owns_nothing he
    | same hold' he hm =>
      rw [hm, List.append_nil]
      exact (hs.owns r _ hold' hend.1 (hold hold')).congr he
    | begun hold' hb hm ho =>
      rw [hm]
      exact ho _ (hs.owns r _ hold' hend.1 (hold hold'))
    | left hp he => exact absurd hp hopen
  | one r₀ a a₁ es hd hh hclosings hactor hestate hclosing hl hmode =>
    have hne : r ≠ r₀ := by
      rintro rfl
      exact hend.2 (by rw [hh]; simp [History.ended, isEnd])
    rw [hactor, Function.update_of_ne hne] at ha'
    rw [hmode, Mode.begun_self, List.append_nil]
    exact hs.owns r a' ha' hend.1 hopen

/-- An actor that has ended has nothing more, and of what happens nothing is its own doing. -/
theorem ended_step (hs : t.Settled h) (hf : t.books.Fit) (hseat : t.Seated) (hr : r ∈ h.ended) :
    (∀ x ∈ (t.step code mv).1.of r, x.isForeign = true) ∧
      ∃ a', (t.step code mv).2.system.actor? r = some a' ∧ a'.estate = .nothing ∧
        a'.closing = true ∧ (a'.ledgerWith ((t.step code mv).2.legs r)).Leaving := by
  obtain ⟨a, ha, hestate, hclosing, hl⟩ := hs.ended r hr
  obtain ⟨a', ha', hleaving⟩ := step_pervaded code mv (pervades_leaving _) hf hseat ha
  obtain ⟨a₁, ha₁, hages⟩ := step_pervaded code mv (pervades_ages _) hf hseat ha
  obtain rfl := Option.some.inj (ha'.symm.trans ha₁)
  obtain ⟨hl', -, hforeign⟩ := hleaving hl
  refine ⟨hforeign, a', ha', ?_, hages.closing hclosing, hl'⟩
  have hbatch := ((hf.ledger r _ (System.books_intro ha t.machine.mode t.legs)).leaving hl).2.1
  cases step_parts code t mv with
  | none hclosings hended hheirs =>
    cases hheirs r a' ha' with
    | fresh hnone he hm => exact he
    | same hold he hm =>
      obtain rfl := Option.some.inj (ha.symm.trans hold)
      exact he.trans hestate
    | begun hold hb hm ho =>
      obtain rfl := Option.some.inj (ha.symm.trans hold)
      exact absurd hbatch hb
    | left hp he => exact he
  | one r₀ a₀ a₁ es hd hh hclosings hactor hestate' hclosing' hl hmode =>
    rw [hactor] at ha'
    by_cases hne : r = r₀
    · subst hne
      rw [Function.update_self] at ha'
      exact Option.some.inj ha' ▸ hestate'
    · rw [Function.update_of_ne hne] at ha'
      obtain rfl := Option.some.inj (ha.symm.trans ha')
      exact hestate

theorem handled_foreign {hs : List (Happening κ)} (hforeign : ∀ x ∈ hs, x.isForeign = true) :
    handledIn hs = [] := by
  refine List.filterMap_eq_nil_iff.2 fun x hx => ?_
  have hx := hforeign x hx
  cases x <;> first | rfl | cases hx

theorem farewell_step (hs : t.Settled h) (hf : t.books.Fit) (hseat : t.Seated) :
    h.ended.flatMap (History.farewell (h ++ (t.step code mv).1)) = h.ended.flatMap h.farewell := by
  refine List.flatMap_congr fun r hr => ?_
  have hforeign : ∀ x ∈ (t.step code mv).1.of r, x.isForeign = true := (hs.ended_step hf hseat hr).1
  have hnone := handled_foreign hforeign
  rw [History.farewell, History.of_append, handledIn_append, hnone, List.append_nil,
    History.farewell]

theorem discarded_step (hs : t.Settled h) (hf : t.books.Fit) (hseat : t.Seated)
    {es : List (Event κ)} (hmem : (r, .discarded es) ∈ h ++ (t.step code mv).1) :
    ∃ a', (t.step code mv).2.system.actor? r = some a' ∧ a'.phase = .closed := by
  have hnext : ∀ {a}, t.system.actor? r = some a →
      a.phase = .closed ∨ .discarded es ∈ (t.step code mv).1.of r →
      ∃ a', (t.step code mv).2.system.actor? r = some a' ∧ a'.phase = .closed := by
    intro a ha hcase
    obtain ⟨a', ha', hclosed⟩ := step_pervaded code mv (pervades_discarded _) hf hseat ha
    have hclosed' := hclosed (hcase.imp (fun hclosed => by simp [hclosed]) fun hes => ⟨es, hes⟩)
    exact ⟨a', ha', by simpa using hclosed'⟩
  rcases List.mem_append.1 hmem with hmem | hmem
  · obtain ⟨a, ha, hclosed⟩ := hs.discarded r es hmem
    exact hnext ha (.inl hclosed)
  · cases ha : t.system.actor? r with
    | some a => exact hnext ha (.inr (History.mem_of.2 hmem))
    | none =>
      have hnone := ((step_books code t mv hf hseat).absent hf (System.books_none ha ..)).1
      exact absurd (History.mem_of.2 hmem) (by rw [hnone]; simp)

theorem step (hs : t.Settled h) (hf : t.books.Fit) (hseat : t.Seated) (hacc : t.books.Accounted h)
    (mv : Move κ) : (t.step code mv).2.Settled (h ++ (t.step code mv).1) := by
  have howns : ∀ r a', (t.step code mv).2.system.actor? r = some a' →
      r ∉ (h ++ (t.step code mv).1).ended → a'.phase ≠ .closed →
      a'.Owns (handledIn ((h ++ (t.step code mv).1).of r) ++
        ((t.step code mv).2.machine.mode r).hand) :=
    fun r a' ha' hend hopen => hs.owns_step hf hseat hacc ha' hend hopen
  have hfarewell : h.ended.flatMap (History.farewell (h ++ (t.step code mv).1)) =
      h.ended.flatMap h.farewell := hs.farewell_step hf hseat
  cases step_parts code t mv with
  | none hclosings hended hheirs =>
    refine ⟨howns, ?_, ?_, ?_, fun r es hmem => hs.discarded_step hf hseat hmem⟩ <;>
      rw [History.ended_append, hended, List.append_nil]
    · exact fun r hr => (hs.ended_step hf hseat hr).2
    · exact hs.once
    · rw [hclosings, hs.closings, hfarewell]
  | one r a a' es hd hh hclosings hactor hestate hclosing hl hmode =>
    have hnew : (t.step code mv).1.ended = [r] := by rw [hh]; rfl
    have hopen : r ∉ h.ended := by
      intro hr
      obtain ⟨a₀, ha₀, -, -, hl₀⟩ := hs.ended r hr
      obtain rfl := Option.some.inj (hd.actor.symm.trans ha₀)
      have hfit := hf.ledger r _ (System.books_intro ha₀ t.machine.mode t.legs)
      rcases (hfit.leaving hl₀).2.2.2 with hclosed | hhalted
      · have halive := hd.alive
        simp only [Actor.alive, bne, Actor.ledgerWith] at halive hclosed
        simp [hclosed] at halive
      · exact absurd (hd.free.symm.trans hhalted) Bool.noConfusion
    refine ⟨howns, ?_, ?_, ?_, fun r es hmem => hs.discarded_step hf hseat hmem⟩ <;>
      rw [History.ended_append, hnew]
    · intro r' hr'
      rcases List.mem_append.1 hr' with hr' | hr'
      · exact (hs.ended_step hf hseat hr').2
      · obtain rfl := List.mem_singleton.1 hr'
        exact ⟨a', by rw [hactor, Function.update_self], hestate, hclosing, hl⟩
    · simpa using hs.once.concat hopen
    · have hclosed : a.phase ≠ .closed := fun hclosed => by
        have halive := hd.alive
        simp [Actor.alive, hclosed] at halive
      have hown : a.Owns (handledIn (h.of r)) := by
        have hown := hs.owns r a hd.actor hopen hclosed
        rwa [hd.mode, Mode.hand_ready, List.append_nil] at hown
      have hsame : History.farewell (h ++ (t.step code mv).1) r =
          System.farewell a.components.values a.agents.values := by
        have hof : History.of [(r, .ended es)] r = [.ended es] := by simp [History.of]
        rw [History.farewell, hh, History.of_append, hof, hown.values, hown.agents]
        simp [handled?]
      rw [List.flatMap_append, hfarewell, hclosings, hs.closings, List.flatMap_singleton, hsame]

theorem play (code : κ → Invocation → Prog κ Unit) (hs : t.Settled h) (hf : t.books.Fit) (hseat : t.Seated) (hacc : t.books.Accounted h)
    (mvs : List (Move κ)) :
    (play code mvs t).2.books.Fit ∧ (play code mvs t).2.Seated ∧
      (play code mvs t).2.Settled (h ++ (play code mvs t).1) ∧
        (play code mvs t).2.books.Accounted (h ++ (play code mvs t).1) ∧
          (play code mvs t).2.system.config = t.system.config :=
  play_induction code
    (P := fun h t' => t'.Settled h ∧ t'.books.Accounted h ∧ t'.system.config = t.system.config)
    (fun _ t' mv hf hseat ⟨hs, hacc, hconfig⟩ =>
      ⟨hs.step hf hseat hacc mv, (step_books code t' mv hf hseat).accounted hf hacc,
        (step_books code t' mv hf hseat).config.trans hconfig⟩)
    mvs hf hseat ⟨hs, hacc, rfl⟩

end Settled

def Running (t : Traffic κ) (r : ActorRef) : Prop := ∃ l, t.books.ledger r = some l ∧ l.Running

def weight (t : Traffic κ) (r : ActorRef) : Nat := ((t.books.ledger r).map Ledger.weight).getD 0

def ownMoves (r : ActorRef) : List (Move κ) :=
  [.whole (.wake r), .whole (.take r), .whole (.dispatch r), .whole (.proceed r), .whole (.fire r),
    .whole (.dismantle r), .launch r, .retire r]

/-- The move with which a started actor ends. What its handlers were given is all that it ever took
in, together with what a panic threw away; events are left only by pushes that are half through, and
fewer than there are of these, so that one such push leaves none. What the actor owns is told by the
events that its handlers were given. -/
structure Ending (h : History κ) (t t' : Traffic κ) (r : ActorRef) (es : List (Event κ))
    (a a' : Actor κ) : Prop where
  before : t.system.actor? r = some a
  after : t'.system.actor? r = some a'
  running : t.Running r
  closing : a.closing = true
  idle : t.machine.mode r = .ready ∧ a.batch = []
  discarded : es = []
  order : acceptedIn (h.of r) = (h.of r).flatMap dispatched ++ a.mailbox.toList
  left : a.mailbox.toList = [] ∨
    a.mailbox.toList.length < ((t.legs r).map Leg.uncounted).sum ∧ a.mailbox.pending < 0
  policy : ∀ e dropped, .panicked e dropped ∈ h.of r →
    t.system.config.restartPolicy = .requeueRemaining → dropped = []
  owns : a.components.values = registeredBy (handledIn (h.of r)) ∧
    a.agents = connectedBy (handledIn (h.of r))
  distinct : (a.components.values.map Component.id).Nodup ∧ (a.agents.values.map Agent.id).Nodup
  closes : t'.system.closings =
    t.system.closings ++ System.farewell a.components.values a.agents.values
  estate : a'.estate = .nothing
  phase : a'.phase = .closed ∨ .mark true ∈ t'.legs r

/-- An actor that has come to its end: it has nothing, it does nothing, and it takes nothing. Once it
is closed and the threads at work at it are through with the mailbox, nothing is there either. -/
structure Gone (code : κ → Invocation → Prog κ Unit) (t : Traffic κ) (r : ActorRef) (a : Actor κ) :
    Prop where
  estate : a.estate = .nothing
  phase : a.phase = .closed ∨ .mark true ∈ t.legs r
  idle : t.machine.mode r = .ready ∧ a.batch = [] ∧ ¬ t.Running r
  moves : ∀ mv ∈ ownMoves r, t.step code mv = ([], t)
  silent : ∀ mvs, (play code mvs t).2.machine.mode r = .ready ∧
    ∀ x ∈ (play code mvs t).1.of r, x.isForeign = true
  start : t.system.start r = (.error (.alreadyStarted a.name), t.system)
  request : ∀ name args, t.system.request r name args = (.error (.actorClosed a.name), t.system) ∧
    t.step code (.request r name args) = ([], t)
  post : ∀ p, t.system.post r p = t.system ∧ t.step code (.outside (.post r p)) = ([], t)
  empty : a.phase = .closed → (∀ leg ∈ t.legs r, leg.clears = false) →
    a.mailbox.toList = [] ∧ a.mailbox.pending = 0
  /-- Every step of the threads brings them nearer to their end, and nothing takes them back. -/
  clears : a.phase = .closed → ∀ mv, (t.step code mv).2.weight r ≤ t.weight r ∧
    ∀ i leg, mv = .fly r i → (t.legs r)[i]? = some leg → leg.isSignal = false →
      (t.step code mv).2.weight r < t.weight r

section

variable {code : κ → Invocation → Prog κ Unit} {h : History κ} {a' : Actor κ}

theorem running_iff (ha : t.system.actor? r = some a) :
    t.Running r ↔ (a.ledgerWith (t.legs r)).Running := by
  have hl : t.books.ledger r = some (a.ledgerWith (t.legs r)) := System.books_intro ha ..
  simp [Running, hl]

theorem weight_eq (ha : t.system.actor? r = some a) :
    t.weight r = (a.ledgerWith (t.legs r)).weight := by
  have hl : t.books.ledger r = some (a.ledgerWith (t.legs r)) := System.books_intro ha ..
  simp [weight, hl]

theorem running_free (ha : t.system.actor? r = some a) (hdormant : a.dormant = false)
    (hopen : a.phase ≠ .closed) (hfree : t.halted r = false) : t.Running r := by
  have hnone : ∀ leg ∈ t.legs r, leg.isFinal = false := by
    simpa [halted] using hfree
  refine (running_iff ha).2 ⟨hdormant, ?_, ?_⟩
  · rintro (hclosed | hmark)
    · exact hopen (by simpa using hclosed)
    · cases hnone _ hmark
  · rintro (hsignal | hmark)
    · cases hnone _ hsignal
    · cases hnone _ hmark

theorem leaving_moves (hf : t.books.Fit) (ha : t.system.actor? r = some a)
    (hl : (a.ledgerWith (t.legs r)).Leaving) {mv : Move κ} (hmv : mv ∈ ownMoves r) :
    t.step code mv = ([], t) := by
  obtain ⟨hmode, hbatch, -, hcase⟩ :=
    (hf.ledger r _ (System.books_intro ha t.machine.mode t.legs)).leaving hl
  have hmode' : t.machine.mode r = .ready := hmode
  have hbatch' : a.batch = [] := hbatch
  have hactor : t.machine.system.actor? r = some a := ha
  have hstill : t.halted r = true ∨ t.machine.idle r = false := by
    rcases hcase with hclosed | hhalted
    · refine .inr ?_
      have hclosed' : a.phase = .closed := by simpa using hclosed
      simp [Machine.idle, hmode', System.ask_eq hactor, Actor.alive, hclosed']
    · exact .inl hhalted
  simp only [ownMoves, List.mem_cons, List.not_mem_nil, or_false] at hmv
  rcases hmv with rfl | rfl | rfl | rfl | rfl | rfl | rfl | rfl <;> rcases hstill with hhalted | hidle
  all_goals
    simp_all [step, launch, retire, ActorSystem.Move.mover?, Machine.step, Machine.begin,
      Machine.proceed, Machine.fire, Machine.dismantle]

theorem leaving_play (hf : t.books.Fit) (hs : t.Seated) (ha : t.system.actor? r = some a)
    (hl : (a.ledgerWith (t.legs r)).Leaving) (mvs : List (Move κ)) :
    (play code mvs t).2.machine.mode r = .ready ∧
      ∀ x ∈ (play code mvs t).1.of r, x.isForeign = true := by
  induction mvs generalizing t a with
  | nil =>
    exact ⟨((hf.ledger r _ (System.books_intro ha t.machine.mode t.legs)).leaving hl).1,
      by simp [play, History.of]⟩
  | cons mv mvs ih =>
    obtain ⟨a', ha', hcase⟩ := step_pervaded code mv (pervades_leaving _) hf hs ha
    obtain ⟨hl', -, hforeign⟩ := hcase hl
    obtain ⟨hmode, hrest⟩ := ih ((step_books code t mv hf hs).fit hf) (step_seated code t mv hf hs)
      ha' hl'
    refine ⟨hmode, fun x hx => ?_⟩
    simp only [play, History.of_append] at hx
    exact (List.mem_append.1 hx).elim (hforeign x) (hrest x)

theorem step_weight (hf : t.books.Fit) (hs : t.Seated) (mv : Move κ)
    (ha : t.system.actor? r = some a) (hclosed : a.phase = .closed) :
    (t.step code mv).2.weight r ≤ t.weight r := by
  obtain ⟨a', ha', hcase⟩ := step_pervaded code mv (pervades_weight _) hf hs ha
  rw [weight_eq ha', weight_eq ha]
  exact (hcase (by simp [hclosed])).2

theorem fly_weight (ha : t.system.actor? r = some a) {i : Nat} {leg : Leg κ}
    (hleg : (t.legs r)[i]? = some leg) (hsignal : leg.isSignal = false) :
    (t.fly r i).2.weight r < t.weight r := by
  obtain ⟨a', xs, ht, hflies⟩ := Leg.fly_turns ha (t.legs r) leg
  have hlegs : (a.ledgerWith (t.legs r)).legs = (t.legs r).take i ++ leg :: (t.legs r).drop (i + 1) := by
    obtain ⟨hi, rfl⟩ := List.getElem?_eq_some_iff.1 hleg
    simp [Actor.ledgerWith]
  have ha' : (t.fly r i).2.system.actor? r = some a' := by
    simp only [fly, hleg]
    exact ht.actor?_self
  have hnew : (t.fly r i).2.legs r =
      (t.legs r).take i ++ (leg.fly r t.system).1.toList ++ (t.legs r).drop (i + 1) := by
    simp [fly, hleg]
  have hopen : leg ≠ .signal true := by
    rintro rfl
    cases hsignal
  rw [weight_eq ha', weight_eq ha, hnew]
  exact (hflies.weight hlegs hopen).2 hsignal

theorem gone (hf : t.books.Fit) (hs : t.Seated) (ha : t.system.actor? r = some a)
    (hestate : a.estate = .nothing) (hclosing : a.closing = true)
    (hl : (a.ledgerWith (t.legs r)).Leaving) : Gone code t r a := by
  have hfit := hf.ledger r _ (System.books_intro ha t.machine.mode t.legs)
  obtain ⟨hmode, hbatch, hdormant, -⟩ := hfit.leaving hl
  have hawake : a.dormant = false := hdormant
  have hrefuses : a.refuses = true := by simp [Actor.refuses, hclosing]
  have haccepts := System.accepts_refused ha hrefuses
  refine ⟨hestate, ?_, ⟨hmode, hbatch, fun hr => ((running_iff ha).1 hr).stays hl⟩,
    fun mv hmv => leaving_moves hf ha hl hmv, leaving_play hf hs ha hl, ?_, fun name args => ⟨?_, ?_⟩,
    fun p => ⟨System.post_refused haccepts p, ?_⟩, ?_, ?_⟩
  · exact hl.imp_left fun hclosed => by simpa using hclosed
  · simp [System.start, System.atActor_eq ha, Actor.start, hawake, System.put_self ha]
  · exact System.request_refused ha hrefuses name args
  · simp [step, haccepts]
  · simp only [step, begin, embark, haccepts, Bool.false_eq_true, if_false]
    rfl
  · intro hclosed hclears
    exact hfit.swept_out (by simp [hclosed]) hclears
  · intro hclosed mv
    refine ⟨step_weight hf hs mv ha hclosed, ?_⟩
    rintro i leg rfl hleg hsignal
    exact fly_weight ha hleg hsignal

/-- What is left when an actor ends: fewer events than there are pushes that are half through. -/
theorem Departs.left (hd : t.Departs r a) (hf : t.books.Fit) (hsize : 1 ≤ t.system.config.batchSize) :
    a.mailbox.toList = [] ∨
      a.mailbox.toList.length < ((t.legs r).map Leg.uncounted).sum ∧ a.mailbox.pending < 0 := by
  have hfit := hf.ledger r _ (System.books_intro hd.actor t.machine.mode t.legs)
  rcases hd.mailbox with hneg | hzero | hnil
  · refine .inr ⟨?_, hneg⟩
    have hopen : (a.ledgerWith (t.legs r)).closed = false := by
      have halive := hd.alive
      simp only [Actor.alive, Bool.and_eq_true, bne] at halive
      simpa using halive.2
    have hlifted : (a.ledgerWith (t.legs r)).lifted = 0 := by
      refine List.sum_eq_zero fun n hn => ?_
      obtain ⟨leg, hmem, rfl⟩ := List.mem_map.1 hn
      cases leg with
      | uncount own es =>
        exact absurd (hopen.symm.trans (hfit.sweeps _ hmem rfl)) Bool.noConfusion
      | _ => rfl
    have hpending := hfit.pending
    rw [hlifted] at hpending
    change a.mailbox.pending + ((t.legs r).map Leg.uncounted).sum = a.mailbox.toList.length + (0 : Nat)
      at hpending
    have hneg' : a.mailbox.pending < 0 := hneg
    omega
  · exact absurd hzero (Nat.one_le_iff_ne_zero.1 hsize)
  · exact .inl hnil

/-- Two pushes are half through when their events have been handled, and a third event, which was
counted before the actor was told to close, is left behind. -/
example :
    let code : Nat → Invocation → Prog Nat Unit := fun _ _ => .pure ()
    let run := play code
      [.whole (.spawn "server"), .whole (.outside (.start 0)),
        .outside (.post 0 (.custom 1)), .fly 0 0, .outside (.post 0 (.custom 2)), .fly 0 1,
        .whole (.take 0), .whole (.dispatch 0), .whole (.proceed 0), .whole (.dispatch 0),
        .whole (.proceed 0), .whole (.outside (.post 0 (.custom 3))), .whole (.outside (.close 0)),
        .whole (.take 0), .retire 0, .fly 0 2, .fly 0 0, .fly 0 0, .fly 0 0, .fly 0 0]
      (new {} ⟨0⟩)
    (run.1.of 0).drop 5 = [.ended [], .discarded [.post (.custom 3)]] :=
  rfl

theorem ending (hset : t.Settled h) (hf : t.books.Fit) (hs : t.Seated) (hacc : t.books.Accounted h)
    (hsize : 1 ≤ t.system.config.batchSize) {mv : Move κ} {es : List (Event κ)}
    (hmem : (r, .ended es) ∈ (t.step code mv).1) :
    ∃ a a', Ending h t (t.step code mv).2 r es a a' := by
  have hacc' := (step_books code t mv hf hs).accounted hf hacc
  have hconfig : (t.step code mv).2.books.config = t.system.config :=
    (step_books code t mv hf hs).config
  cases step_parts code t mv with
  | none hclosings hended hheirs =>
    have hr := History.mem_ended.2 ⟨es, hmem⟩
    simp [hended] at hr
  | one r₀ a a' es' hd hh hclosings hactor hestate hclosing hl hmode =>
    rw [hh, List.mem_singleton] at hmem
    obtain ⟨rfl, hes⟩ := Prod.mk.inj hmem
    obtain rfl : es = es' := by simpa using hes
    have ha' : (t.step code mv).2.system.actor? r = some a' := by rw [hactor, Function.update_self]
    have hawake : a.dormant = false ∧ a.phase ≠ .closed := by
      simpa [Actor.alive] using hd.alive
    have hrun : t.Running r := running_free hd.actor hawake.1 hawake.2 hd.free
    have hopen : r ∉ h.ended := fun hr => by
      obtain ⟨a₀, ha₀, -, -, hl₀⟩ := hset.ended r hr
      exact ((running_iff ha₀).1 hrun).stays hl₀
    have haccount := hacc.account r _ (System.books_intro hd.actor t.machine.mode t.legs)
    have howns : a.Owns (handledIn (h.of r)) := by
      have hown := hset.owns r a hd.actor hopen hawake.2
      rwa [hd.mode, Mode.hand_ready, List.append_nil] at hown
    have hnone : es = [] := by
      have haccount' := hacc'.account r _ (System.books_intro ha' (t.step code mv).2.machine.mode
        (t.step code mv).2.legs)
      rw [hconfig] at haccount'
      refine (haccount'.ended es ?_).resolve_right (Nat.one_le_iff_ne_zero.1 hsize)
      rw [History.of_append, hh]
      simp [History.of]
    have horder : acceptedIn (h.of r) = (h.of r).flatMap dispatched ++ a.mailbox.toList := by
      have horder := haccount.order
      have hmode' : t.books.mode r = .ready := hd.mode
      rw [hmode', Mode.hand_ready, List.append_nil] at horder
      have hconsumed : consumedIn (h.of r) = (h.of r).flatMap dispatched := by
        refine consumedIn_eq haccount.timers (fun es hes => ?_) (fun es hes => ?_) fun es hes => ?_
        · exact hawake.2 (by simpa using (haccount.cancelled es hes).1)
        · exact absurd (History.mem_ended.2 ⟨es, History.mem_of.1 hes⟩) hopen
        · obtain ⟨a₀, ha₀, hclosed⟩ := hset.discarded r es (History.mem_of.1 hes)
          obtain rfl := Option.some.inj (hd.actor.symm.trans ha₀)
          exact hawake.2 hclosed
      rw [horder, hconsumed]
      simp [hd.batch]
    refine ⟨a, a', hd.actor, ha', hrun, hd.closing, ⟨hd.mode, hd.batch⟩, hnone, horder,
      hd.left hf hsize, fun e dropped hdropped => (haccount.panicked e dropped hdropped).2,
      ⟨howns.values, howns.agents⟩, ⟨?_, ?_⟩, hclosings, hestate,
      hl.imp_left fun hclosed => by simpa using hclosed⟩
    · rw [howns.values]
      exact nodup_registeredBy _
    · rw [howns.agents]
      exact nodup_connectedBy _

/-- Nothing comes in at an actor that has been told to close, once the last push is through. -/
theorem shut_play (code : κ → Invocation → Prog κ Unit) (hf : t.books.Fit) (hs : t.Seated) (ha : t.system.actor? r = some a)
    (hclosing : a.closing = true) (hlanded : ∀ leg ∈ t.legs r, leg.isPush = false)
    (mvs : List (Move κ)) :
    acceptedIn ((play code mvs t).1.of r) = [] ∧
      ∀ leg ∈ (play code mvs t).2.legs r, leg.isPush = false := by
  induction mvs generalizing t a with
  | nil => exact ⟨rfl, hlanded⟩
  | cons mv mvs ih =>
    obtain ⟨a', ha', hcase⟩ := step_pervaded code mv (pervades_shuts _) hf hs ha
    obtain ⟨hclosing', hshuts⟩ := hcase hclosing
    obtain ⟨hnone, hlanded'⟩ := ih ((step_books code t mv hf hs).fit hf) (step_seated code t mv hf hs)
      ha' hclosing' (hshuts.landed hlanded)
    refine ⟨?_, hlanded'⟩
    have hhere : acceptedIn ((t.step code mv).1.of r) = [] := by
      refine List.filterMap_eq_nil_iff.2 fun x hx => ?_
      cases x with
      | accepted e =>
        cases hlanded _ (hshuts.accepted e hx)
      | _ => rfl
    simp only [play, History.of_append, acceptedIn_append, hhere, hnone, List.append_nil]

theorem drained (hset : t.Settled h) (hf : t.books.Fit) (hs : t.Seated) (hacc : t.books.Accounted h)
    (hsize : 1 ≤ t.system.config.batchSize) (ha : t.system.actor? r = some a)
    (hclosing : a.closing = true) (hlanded : ∀ leg ∈ t.legs r, leg.isPush = false)
    (mvs : List (Move κ)) :
    acceptedIn ((play code mvs t).1.of r) = [] ∧
      ∀ mv es, (r, .ended es) ∈ ((play code mvs t).2.step code mv).1 →
        acceptedIn (h.of r) = ((h ++ (play code mvs t).1).of r).flatMap dispatched := by
  obtain ⟨hnone, hlanded'⟩ := shut_play code hf hs ha hclosing hlanded mvs
  refine ⟨hnone, fun mv es hmem => ?_⟩
  obtain ⟨hf', hs', hset', hacc', hconfig⟩ := hset.play code hf hs hacc mvs
  obtain ⟨a₁, a₂, hend⟩ := ending hset' hf' hs' hacc' (hconfig ▸ hsize) hmem
  have hzero : (((play code mvs t).2.legs r).map Leg.uncounted).sum = 0 := by
    refine List.sum_eq_zero fun n hn => ?_
    obtain ⟨leg, hleg, rfl⟩ := List.mem_map.1 hn
    cases leg with
    | count => cases hlanded' _ hleg
    | _ => rfl
  have hempty : a₁.mailbox.toList = [] :=
    hend.left.resolve_right fun hless => absurd hless.1 (by rw [hzero]; exact Nat.not_lt_zero _)
  have horder := hend.order
  rw [hempty, List.append_nil, History.of_append, acceptedIn_append, hnone, List.append_nil] at horder
  rw [horder, History.of_append]

end

end Traffic

end ActorSystem
