import ActorSystem.Proofs.Bookkeeping
import Mathlib.Logic.Relation

set_option autoImplicit false

namespace ActorSystem

variable {κ : Type}

namespace System

variable {s : System κ} {r : ActorRef} {a : Actor κ}

theorem put_put (s : System κ) (r : ActorRef) (a a' : Actor κ) :
    (s.put r a).put r a' = s.put r a' := by
  simp [put]

theorem giveUpAll_put (s : System κ) (cs : List CallRef) (r : ActorRef) (a : Actor κ) :
    (s.giveUpAll cs).put r a = (s.put r a).giveUpAll cs := by
  simp [giveUpAll_eq, put]

theorem giveUpAll_append (s : System κ) (cs ds : List CallRef) :
    s.giveUpAll (cs ++ ds) = (s.giveUpAll cs).giveUpAll ds := List.foldl_append

theorem giveUpAll_actor? (s : System κ) (cs : List CallRef) :
    (s.giveUpAll cs).actor? = s.actor? := by
  rw [giveUpAll_eq]
  rfl

end System

namespace Traffic

variable {t t' : Traffic κ} {s : System κ} {r self : ActorRef} {a : Actor κ} {o : Op κ}

def lone (t : Traffic κ) (s : System κ) (r : ActorRef) (leg : Option (Leg κ)) : Traffic κ :=
  { t.withSystem s with legs := Function.update t.legs r leg.toList }

/-- The one thread at the actor takes its steps, and nothing else goes on. -/
def Lands (r : ActorRef) : Traffic κ → Traffic κ → Prop :=
  Relation.ReflTransGen fun t t' => t' = (t.fly r 0).2

theorem lone_none (h : t.legs r = []) (s : System κ) : t.lone s r none = t.withSystem s := by
  simp [lone, withSystem, ← h]

theorem lone_add (h : t.legs r = []) (s : System κ) (leg : Leg κ) :
    (t.withSystem s).add r leg = t.lone s r (some leg) := by
  simp [lone, add, withSystem, h]

theorem lone_fly (t : Traffic κ) (s : System κ) (r : ActorRef) (leg : Leg κ) :
    ((t.lone s r (some leg)).fly r 0).2 = t.lone (leg.fly r s).2.2 r (leg.fly r s).1 := by
  simp [lone, fly, withSystem, system]

theorem Lands.fly (t : Traffic κ) (s : System κ) (r : ActorRef) (leg : Leg κ)
    (h : Lands r (t.lone (leg.fly r s).2.2 r (leg.fly r s).1) t') :
    Lands r (t.lone s r (some leg)) t' :=
  .head (t.lone_fly s r leg).symm h

/-- A thread that empties the mailbox goes round until it finds nothing there. -/
theorem lands_sweep (t : Traffic κ) (own : Bool) {n : Nat} (h : s.actor? r = some a)
    (hn : a.mailbox.toList.length < n) :
    Lands r (t.lone s r (some (.look own)))
      (t.lone ((s.put r { a with mailbox := (a.mailbox.sweep n).2 }).giveUpAll
        ((a.mailbox.sweep n).1.flatMap Event.calls)) r (Leg.rest own)) := by
  induction n generalizing s a with
  | zero => exact absurd hn (Nat.not_lt_zero _)
  | succ n ih =>
    refine .fly _ _ _ _ ?_
    simp only [Leg.fly, System.ask_eq h]
    by_cases hneg : a.mailbox.pending < 0
    · have hnone : a.mailbox.sweep (n + 1) = ([], a.mailbox) := by
        simp [EventQueue.sweep, EventQueue.take, hneg, Taken.nothing]
      rw [hnone]
      simp only [hneg, decide_true, if_true, System.put_self h, List.flatMap_nil]
      exact .refl
    · have htake : a.mailbox.take EventQueue.unlimited =
          ((a.mailbox.lift EventQueue.unlimited).1,
            (a.mailbox.lift EventQueue.unlimited).2.uncount
              (a.mailbox.lift EventQueue.unlimited).1.items.length) := if_neg hneg
      have happend := a.mailbox.lift_append_toList EventQueue.unlimited
      simp only [hneg, decide_false, Bool.false_eq_true, if_false]
      refine .fly _ _ _ _ ?_
      simp only [Leg.fly, System.atActor_eq h]
      rcases EventQueue.sweep_cases n a.mailbox with ⟨hnil, hsweep⟩ | ⟨hne, hsweep⟩
      · rw [hsweep, htake]
        rw [htake] at hnil
        dsimp only at hnil ⊢
        simp only [hnil, List.isEmpty_nil, if_true, List.length_nil, List.flatMap_nil]
        have hsame : (a.mailbox.lift EventQueue.unlimited).2.uncount 0 =
            (a.mailbox.lift EventQueue.unlimited).2 := by
          simp [EventQueue.uncount]
        rw [hsame]
        exact .refl
      · rw [hsweep, htake]
        rw [htake] at hne
        dsimp only at hne ⊢
        generalize a.mailbox.lift EventQueue.unlimited = p at hne happend ⊢
        obtain ⟨⟨es, more⟩, mailbox⟩ := p
        dsimp only at hne happend ⊢
        have hsome : es.isEmpty = false := by simpa using hne
        simp only [hsome, Bool.false_eq_true, if_false]
        refine .fly _ _ _ _ (.fly _ _ _ _ ?_)
        have hput := System.Turns.put h { a with mailbox }
        have hput' := System.Turns.put h { a with mailbox := mailbox.uncount es.length }
        simp only [Leg.fly, System.update_eq hput.actor?_self, System.put_put]
        have hshort : (mailbox.uncount es.length).toList.length < n := by
          have hlength := congrArg List.length happend
          have hpos := List.length_pos_iff.2 hne
          rw [List.length_append] at hlength
          rw [EventQueue.toList_uncount]
          omega
        have hactor := (congrFun (System.giveUpAll_actor? _ (es.flatMap Event.calls)) r).trans
          hput'.actor?_self
        have hrest := ih hactor hshort
        rwa [System.giveUpAll_put, System.put_put, ← System.giveUpAll_append,
          ← List.flatMap_append] at hrest

theorem lands_discard (t : Traffic κ) (s : System κ) (r : ActorRef) (own : Bool) :
    Lands r (t.lone s r (some (.look own))) (t.lone (s.discard r) r (Leg.rest own)) := by
  cases h : s.actor? r with
  | none =>
    refine .fly _ _ _ _ ?_
    simp only [Leg.fly, System.ask_absent h, Bool.false_eq_true, if_false]
    refine .fly _ _ _ _ ?_
    simp only [Leg.fly, System.atActor_absent h, System.discard, h, List.isEmpty_nil, if_true]
    exact .refl
  | some a =>
    have hsweep := lands_sweep t own h (Nat.lt_succ_self a.mailbox.toList.length)
    simp only [System.discard, h]
    exact hsweep

theorem lands_enqueue (h : t.legs r = []) (s : System κ) (e : Event κ) :
    Lands r (t.lone s r (some (.put e))) (t.withSystem (s.enqueue r e)) := by
  have hboth : (s.update r fun a => { a with mailbox := a.mailbox.put e }).update r
      (fun a => { a with mailbox := a.mailbox.count.notify, stirred := true }) =
        s.update r fun a => a.enqueue e := by
    cases ha : s.actor? r with
    | none => simp only [System.update_absent ha]
    | some a =>
      rw [System.update_eq ha, System.update_eq (System.Turns.put ha _).actor?_self, System.put_put,
        System.update_eq ha]
      rfl
  refine .fly _ _ _ _ (.fly _ _ _ _ (.fly _ _ _ _ ?_))
  simp only [Leg.fly, hboth, System.enqueue, System.recheck]
  split
  · rw [← lone_none h]
    exact lands_discard ..
  · rw [lone_none h]
    exact .refl

theorem lands_push (h : t.legs r = []) (s : System κ) (e : Event κ) :
    Lands r ((t.withSystem s).embark r e) (t.withSystem (s.push r e)) := by
  have hsystem : (t.withSystem s).system = s := rfl
  unfold embark System.push
  rw [hsystem]
  split
  · have hadd := lone_add h s (.put e)
    rw [hadd]
    exact lands_enqueue h s e
  · exact .refl

theorem lands_request (code : κ → Invocation → Prog κ Unit) (h : t.legs r = []) (name : String)
    (args : Args) :
    Lands r (t.step code (.request r name args)).2
      (t.withSystem (t.system.request r name args).2) := by
  simp only [step, System.request]
  cases ha : t.system.actor? r with
  | none =>
    simp only [System.accepts_absent ha, Bool.false_eq_true, if_false]
    exact .refl
  | some a =>
    simp only [System.accepts_eq ha]
    cases a.refuses with
    | true => exact .refl
    | false =>
      simp only [Bool.not_false, if_true, Bool.false_eq_true, if_false]
      rw [lone_add h]
      exact lands_enqueue h _ _

theorem lands_close (h : t.legs r = []) {x : Unit} (hbegin : t.begin self (.close r) = some (x, t')) :
    Lands r t' (t.withSystem (t.system.close r)) := by
  simp only [begin] at hbegin
  unfold System.close
  generalize hclaim : t.system.claim r = p at hbegin ⊢
  obtain ⟨unstarted, s⟩ := p
  dsimp only at hbegin ⊢
  split at hbegin
  · obtain ⟨-, rfl⟩ := Prod.mk.inj (Option.some.inj hbegin)
    rw [lone_add h]
    refine .fly _ _ _ _ ?_
    simp only [Leg.fly]
    cases unstarted with
    | true =>
      simp only [if_true]
      refine .fly _ _ _ _ ?_
      rw [← lone_none h]
      exact lands_discard ..
    | false =>
      simp only [Bool.false_eq_true, if_false, lone_none h]
      exact .refl
  · rename_i hnone
    obtain ⟨-, rfl⟩ := Prod.mk.inj (Option.some.inj hbegin)
    have habsent : t.system.actor? r = none := by
      cases ha : t.system.actor? r with
      | none => rfl
      | some a =>
        rw [System.claim, System.atActor_eq ha] at hclaim
        obtain ⟨-, rfl⟩ := Prod.mk.inj hclaim
        rw [System.ask_eq (System.Turns.put ha _).actor?_self] at hnone
        exact absurd rfl hnone
    rw [System.claim, System.atActor_absent habsent] at hclaim
    obtain ⟨rfl, rfl⟩ := Prod.mk.inj hclaim
    simp only [System.signal, System.update_absent habsent, Bool.false_eq_true, if_false]
    exact .refl

theorem lands_retire (h : t.legs r = []) (hguard : (t.retire r).1 ≠ []) :
    Lands r (t.retire r).2 (t.withSystem (t.system.dismantle r)) := by
  unfold retire at hguard ⊢
  split at hguard
  · rename_i hcond
    rw [if_pos hcond, lone_add h]
    refine .fly _ _ _ _ ?_
    refine (lands_discard ..).trans (Lands.fly _ _ _ _ ?_)
    rw [← lone_none h]
    exact .refl
  · exact absurd rfl hguard

/-- Pushes and closes that meet nobody on their way are the operations that running code performs. -/
theorem begin_lands (hnobody : ∀ r, t.legs r = []) {x : o.Answer}
    (hbegin : t.begin self o = some (x, t')) :
    ∃ r, Lands r t' (t.withSystem (System.perform self o t.system).2) := by
  cases o with
  | post target p =>
    obtain ⟨-, rfl⟩ := Prod.mk.inj (Option.some.inj hbegin)
    exact ⟨target, lands_push (hnobody target) t.system _⟩
  | call target name args =>
    obtain ⟨-, rfl⟩ := Prod.mk.inj (Option.some.inj hbegin)
    exact ⟨target, lands_push (hnobody target) t.system _⟩
  | execute target action owned =>
    obtain ⟨-, rfl⟩ := Prod.mk.inj (Option.some.inj hbegin)
    exact ⟨target, lands_push (hnobody target) _ _⟩
  | close target => exact ⟨target, lands_close (hnobody target) hbegin⟩
  | _ => simp [begin] at hbegin

end Traffic

end ActorSystem
