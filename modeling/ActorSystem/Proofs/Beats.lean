import ActorSystem.Proofs.Chronicle
import ActorSystem.Proofs.Frames
import Mathlib.Logic.Relation

set_option autoImplicit false

namespace ActorSystem

variable {κ : Type}

def Within (ok : Op κ → Prop) (ds : List (Deed κ)) : Prop := ∀ d ∈ ds, ∀ x ∈ d.done, ok x.op

theorem Within.append {ok : Op κ → Prop} {ds ds' : List (Deed κ)} :
    Within ok (ds ++ ds') ↔ Within ok ds ∧ Within ok ds' := by
  simp only [Within, List.mem_append, or_imp, forall_and]

namespace System

open Relation (ReflTransGen)

/-- One thing that the loop of the actor `r` does, where its code keeps to operations that are
`ok`. -/
inductive Beat (ok : Op κ → Prop) (r : ActorRef) : System κ → System κ → Prop where
  | wake (s : System κ) : Beat ok r s (s.wake r)
  | take (s : System κ) : Beat ok r s (s.takeBatch r).2
  | begin {s : System κ} {a : Actor κ} {e : Event κ} {rest : List (Event κ)}
      (ha : s.actor? r = some a) (hb : a.batch = e :: rest) :
    Beat ok r s ((s.put r { a with batch := rest }).receive r e).2
  | perform {s : System κ} {o : Op κ} (ho : ok o) : Beat ok r s (perform r o s).2
  | complete (s : System κ) :
    Beat ok r s ((s.reset r).update r fun a => { a with processed := a.processed + 1 })
  | recover (s : System κ) : Beat ok r s (s.recover r)
  | poll (s : System κ) : Beat ok r s (s.expire r).2
  | fired (s : System κ) :
    Beat ok r s ((s.update r fun a => { a with timers := a.timers.finish }).reset r)
  | pause (s : System κ) : Beat ok r s (s.pause r).2
  | dismantle (s : System κ) : Beat ok r s (s.dismantle r)
  | sleep (s : System κ) : Beat ok r s (s.sleep r)

abbrev Beats (ok : Op κ → Prop) (r : ActorRef) : System κ → System κ → Prop :=
  ReflTransGen (Beat ok r)

theorem Beats.keeps {ok : Op κ → Prop} {r : ActorRef} {s s' : System κ} {P : System κ → Prop}
    (hb : ∀ s s', P s → Beat ok r s s' → P s') (h : Beats ok r s s') (hp : P s) : P s' := by
  induction h with
  | refl => exact hp
  | tail _ hbeat ih => exact hb _ _ ih hbeat

variable {ok : Op κ → Prop} {code : κ → Invocation → Prog κ Unit} {r : ActorRef} {s s' : System κ}

theorem exec_beats (p : Prog κ Unit) (s : System κ) (h : ∀ x ∈ doings r p s, ok x.op) :
    Beats ok r s (exec r p s).2 := by
  induction p generalizing s with
  | pure x => exact .refl
  | panic => exact .refl
  | op o next ih =>
    have hrest : ∀ x ∈ doings r (next (System.perform r o s).1) (System.perform r o s).2, ok x.op :=
      fun x hx => h x (List.mem_cons_of_mem _ hx)
    exact .head (.perform (h _ List.mem_cons_self)) (ih _ _ hrest)

theorem dispatchNext_beats (h : Within ok (nextDeeds code r s)) :
    Beats ok r s (dispatchNext code r s) := by
  cases ha : s.actor? r with
  | none =>
    simp only [dispatchNext, ha]
    exact .refl
  | some a =>
    cases hb : a.batch with
    | nil =>
      simp only [dispatchNext, ha, hb]
      exact .refl
    | cons e rest =>
      have hbegin : Beat ok r s ((s.put r { a with batch := rest }).receive r e).2 := .begin ha hb
      rw [dispatchNext_cons code ha hb]
      simp only [nextDeeds, ha, hb] at h
      generalize (s.put r { a with batch := rest }).receive r e = p at hbegin h ⊢
      obtain ⟨w, s₁⟩ := p
      refine .head hbegin (.tail (exec_beats _ s₁ (h _ (List.mem_singleton_self _))) ?_)
      dsimp only
      cases (exec r (w.prog code) s₁).1 with
      | none => exact .recover _
      | some u => exact .complete _

theorem dispatchMany_beats (n : Nat) (h : Within ok (manyDeeds code r n s)) :
    Beats ok r s (dispatchMany code r n s) := by
  induction n generalizing s with
  | zero => exact .refl
  | succ n ih =>
    obtain ⟨hnext, hmany⟩ := Within.append.1 h
    exact (dispatchNext_beats hnext).trans (ih hmany)

theorem processBatch_beats (h : Within ok (batchDeeds code r s)) :
    Beats ok r s (processBatch code r s).2 :=
  .head (.take s) (dispatchMany_beats _ h)

theorem fireNext_expire (code : κ → Invocation → Prog κ Unit) (r : ActorRef) (s : System κ) :
    fireNext code r s =
      match (s.expire r).1 with
      | none => (none, (s.expire r).2)
      | some e =>
        let ran := exec r (code e.payload.callback (.timer e.payload.args)) (s.expire r).2
        (some ran.1.isSome, ran.2.afterTimer r ran.1.isSome) := by
  unfold fireNext expire
  dsimp only
  generalize s.atActor r none _ = p
  obtain ⟨_ | e, s₁⟩ := p
  · rfl
  · dsimp only
    generalize exec r _ s₁ = q
    obtain ⟨_ | u, s₂⟩ := q <;> rfl

theorem fireNext_beats (h : Within ok (fireDeeds code r s)) :
    Beats ok r s (fireNext code r s).2 := by
  have hpoll : Beat ok r s (s.expire r).2 := .poll s
  rw [fireNext_expire]
  unfold fireDeeds at h
  generalize s.expire r = p at hpoll h ⊢
  obtain ⟨_ | e, s₁⟩ := p
  · exact .single hpoll
  · refine .head hpoll (.tail (exec_beats _ s₁ (h _ (List.mem_singleton_self _))) ?_)
    dsimp only
    cases (exec r (code e.payload.callback (.timer e.payload.args)) s₁).1 with
    | none => exact .recover _
    | some u => exact .fired _

theorem fireTimers_beats (max : Nat) (h : Within ok (timerDeeds code r max s)) :
    Beats ok r s (fireTimers code r max s).2 := by
  induction max generalizing s with
  | zero => exact .refl
  | succ max ih =>
    obtain ⟨hnext, hmore⟩ := Within.append.1 h
    have hfire : Beats ok r s (fireNext code r s).2 := fireNext_beats hnext
    unfold fireTimers
    generalize fireNext code r s = p at hfire hmore ⊢
    obtain ⟨_ | _ | _, s₁⟩ := p
    · exact hfire
    · exact hfire
    · exact hfire.trans (ih hmore)

theorem drain_beats (n : Nat) (h : Within ok (drainDeeds code r n s)) :
    Beats ok r s (drain code r n s) := by
  induction n generalizing s with
  | zero => exact .refl
  | succ n ih =>
    obtain ⟨hbatch, hmore⟩ := Within.append.1 h
    have hprocess : Beats ok r s (processBatch code r s).2 := processBatch_beats hbatch
    unfold drain
    generalize processBatch code r s = p at hprocess hmore ⊢
    obtain ⟨_ | taken, s₁⟩ := p
    · exact hprocess
    · exact hprocess.trans (ih hmore)

theorem round_beats (h : Within ok (roundDeeds code r s)) : Beats ok r s (round code r s).2 := by
  obtain ⟨hfirst, hlast⟩ := Within.append.1 h
  obtain ⟨hbatch, htimers⟩ := Within.append.1 hfirst
  have hprocess : Beats ok r s (processBatch code r s).2 := processBatch_beats hbatch
  unfold round
  generalize processBatch code r s = p at hprocess htimers hlast ⊢
  obtain ⟨taken, s₁⟩ := p
  dsimp only at hprocess htimers hlast ⊢
  have hfire := fireTimers_beats _ htimers
  generalize fireTimers code r s₁.config.maxTimers s₁ = p at hfire hlast ⊢
  obtain ⟨fired, s₂⟩ := p
  have hround := hprocess.trans hfire
  dsimp only at hround hlast ⊢
  split
  · rename_i hclosing
    rw [if_pos hclosing] at hlast
    dsimp only
    exact (hround.trans (drain_beats _ hlast)).tail (.dismantle _)
  · split
    · exact hround
    · exact .tail hround (.pause s₂)

theorem rounds_beats (limit : Nat) (h : Within ok (roundsDeeds code r limit s))
    (hend : rounds code r limit s = some s') : Beats ok r s s' := by
  induction limit generalizing s with
  | zero => cases hend
  | succ limit ih =>
    obtain ⟨hfirst, hmore⟩ := Within.append.1 h
    have hround : Beats ok r s (round code r s).2 := round_beats hfirst
    unfold rounds at hend
    generalize round code r s = p at hround hmore hend
    obtain ⟨_ | _, s₁⟩ := p
    · obtain rfl := Option.some.inj hend
      exact hround
    · exact hround.trans (ih hmore hend)

theorem turn_beats (limit : Nat) (h : Within ok (turnDeeds code limit r s))
    (hend : turn code limit r s = some s') : Beats ok r s s' := by
  obtain ⟨s₁, hrounds, rfl⟩ := Option.map_eq_some_iff.1 hend
  exact .head (.wake s) (.tail (rounds_beats limit h hrounds) (.sleep s₁))

end System

end ActorSystem
