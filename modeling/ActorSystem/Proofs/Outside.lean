import ActorSystem.Proofs.Loops
import ActorSystem.Scenario.Run

set_option autoImplicit false

namespace ActorSystem

namespace System

open Machine (resting Reaches)

variable {κ : Type} {code : κ → Invocation → Prog κ Unit} {s s' : System κ} {r : ActorRef}

theorem outside_leads (s : System κ) (o : Op κ) : Leads code s (perform s.actors.size o s).2 := by
  intro hq
  exact ⟨.step (.outside o) rfl, (Shrinks.perform (r := s.actors.size) s o).quiet hq⟩

theorem post_leads (s : System κ) (r : ActorRef) (p : Post κ) : Leads code s (s.post r p) :=
  outside_leads s (.post r p)

theorem close_leads (s : System κ) (r : ActorRef) : Leads code s (s.close r) :=
  outside_leads s (.close r)

theorem start_leads (s : System κ) (r : ActorRef) : Leads code s (s.start r).2 :=
  outside_leads s (.start r)

theorem registerMessage_leads (s : System κ) (r : ActorRef) (proto : UInt32) (handler : κ) :
    Leads code s (s.registerMessage r proto handler).2 :=
  outside_leads s (.registerMessage r proto handler)

theorem registerRpc_leads (s : System κ) (r : ActorRef) (name : String) (handler : κ) :
    Leads code s (s.registerRpc r name handler).2 :=
  outside_leads s (.registerRpc r name handler)

theorem request_leads (s : System κ) (r : ActorRef) (name : String) (args : Args) :
    Leads code s (s.request r name args).2 := by
  intro hq
  refine ⟨.step (.request r name args) rfl, ?_⟩
  cases ha : s.actor? r with
  | none => simpa [request, ha] using hq
  | some a =>
    cases hopen : a.refuses with
    | true => simpa [request, ha, hopen] using hq
    | false =>
      rw [request_open ha hopen]
      let s₁ : System κ := { s with calls := s.calls.push ⟨name, .waiting⟩ }
      have hq₁ : s₁.Quiet := hq
      have ha₁ : s₁.actor? r = some a := ha
      have hclosing : a.closing = false := by
        simp only [Actor.refuses, Bool.or_eq_false_iff] at hopen
        exact hopen.1
      refine Shrinks.quiet (.turns ha₁ (.put ha₁ _) ?_) hq₁
      exact ⟨Nat.le_refl _, id, fun hc => by simp [Actor.ledger, hclosing] at hc⟩

theorem settle_quiet (hq : s.Quiet) (c : CallRef) (state : CallState) :
    (s.settle c state).2.Quiet := by
  intro r l hl
  rw [ledger, settle_actor?] at hl
  exact hq r l hl

theorem expire_leads (s : System κ) (c : CallRef) : Leads code s (s.settle c .timedOut).2 :=
  fun hq => ⟨.step (.expire c) rfl, settle_quiet hq c .timedOut⟩

theorem abandon_leads (s : System κ) (c : CallRef) : Leads code s (s.settle c .abandoned).2 :=
  fun hq => ⟨.step (.abandon c) rfl, settle_quiet hq c .abandoned⟩

theorem arrange_leads (s : System κ) (clock : Clock) (ids : IdSource) (started : Bool)
    (names : Table String ActorRef) (pools : Table String Pool) :
    Leads code s { s with clock, ids, started, names, pools } :=
  fun hq => ⟨.step (.arrange clock ids started names pools) rfl, hq⟩

theorem spawn_leads (s : System κ) (name : String) : Leads code s (s.spawn name).2 := by
  intro hq
  refine ⟨.step (.spawn name) rfl, fun r l hl => ?_⟩
  have hbooks := spawn_books s name (fun _ => .ready) (fun _ => []) rfl
  have hledger : (s.spawn name).2.ledger r = _ := congrArg (fun b => b.ledger r) hbooks
  rw [hledger] at hl
  by_cases hr : r = s.actors.size
  · subst hr
    simp only [Function.update_self, Option.some.injEq] at hl
    rw [← hl]
    rfl
  · simp only [Function.update_of_ne hr] at hl
    exact hq r l hl

theorem foldl_leads {α : Type} (f : System κ → α → System κ)
    (hf : ∀ s x, Leads code s (f s x)) (xs : List α) (s : System κ) :
    Leads code s (xs.foldl f s) := by
  induction xs generalizing s with
  | nil => exact .refl s
  | cons x xs ih => exact (hf s x).trans (ih _)

theorem ensureAll_leads (s : System κ) (rs : List ActorRef) : Leads code s (s.ensureAll rs) :=
  foldl_leads _ start_leads rs s

theorem started_leads (s : System κ) (rs : List ActorRef) :
    Leads code s (if s.started then s.ensureAll rs else s) := by
  split
  · exact ensureAll_leads s rs
  · exact .refl s

theorem getOrCreate_leads (s : System κ) (name : String) : Leads code s (s.getOrCreate name).2 := by
  unfold getOrCreate
  cases s.names.get? name with
  | some r => exact started_leads s [r]
  | none =>
    exact ((spawn_leads s name).trans (arrange_leads _ _ _ _ _ _)).trans
      (started_leads _ [s.actors.size])

theorem spawnMembers_leads (pool : String) (n : Nat) (s : System κ) :
    Leads code s (spawnMembers pool n s).2 := by
  induction n with
  | zero => exact .refl s
  | succ n ih => exact ih.trans (spawn_leads _ _)

theorem createWorkers_leads (s : System κ) (name : String) (size : Nat) :
    Leads code s (s.createWorkers name size).2 := by
  unfold createWorkers
  cases s.pools.get? name with
  | some pool => exact started_leads s pool.members
  | none =>
    exact ((spawnMembers_leads name size s).trans (arrange_leads _ _ _ _ _ _)).trans
      (started_leads _ _)

theorem startAll_leads (s : System κ) : Leads code s s.startAll :=
  (arrange_leads s s.clock s.ids true s.names s.pools).trans (ensureAll_leads _ _)

theorem closeAll_leads (s : System κ) : Leads code s s.closeAll := foldl_leads _ close_leads _ s

theorem issue_leads (s : System κ) (line : String) : Leads code s (s.issue line).2 := by
  unfold issue
  split
  · exact .refl s
  · split
    · exact .refl s
    · split
      · exact post_leads s _ _
      · exact .refl s

theorem issueLines_leads (lines : List (List UInt8)) (n : Nat) (s : System κ) :
    Leads code s (issueLines lines n s).2 := by
  induction lines generalizing n s with
  | nil => exact .refl s
  | cons line lines ih =>
    unfold issueLines
    split
    · exact .refl s
    · rename_i text _
      have hissue : Leads code s (s.issue text).2 := issue_leads s text
      split <;> rename_i heq <;> rw [heq] at hissue
      · exact hissue.trans (ih _ _)
      · exact hissue.trans (ih _ _)

end System

namespace Pool

open ActorSystem.System (Leads)

variable {κ : Type} {code : κ → Invocation → Prog κ Unit}

theorem broadcast_leads {register : ActorRef → System κ → Except Error Unit × System κ}
    (hreg : ∀ r s, Leads code s (register r s).2) (rs : List ActorRef) (s : System κ) :
    Leads code s (broadcast register rs s).2 := by
  induction rs generalizing s with
  | nil => exact .refl s
  | cons r rs ih => exact (hreg r s).trans (ih _)

theorem rpc_leads (p : Pool) (name : String) (args : Args) (s : System κ) :
    Leads code s (p.rpc name args s).2 := by
  unfold rpc
  split
  · exact .refl s
  · exact System.post_leads s _ _

theorem request_leads (p : Pool) (name : String) (args : Args) (s : System κ) :
    Leads code s (p.request name args s).2 := by
  unfold request
  split
  · exact .refl s
  · exact System.request_leads s _ name args

theorem close_leads (p : Pool) (s : System κ) : Leads code s (p.close s) :=
  System.foldl_leads _ System.close_leads _ s

end Pool

namespace Scenario

open ActorSystem.System (Leads)
open Script (Code)

theorem settle_leads (s : System Code) : Leads Code.run s (settle s) := by
  unfold settle
  cases h : s.runWatched Code.run patience with
  | none => exact .refl s
  | some s' => exact System.runWatched_leads patience s h

/-- What is created while the system is started runs at once. -/
theorem settled_leads (s : State) :
    Leads Code.run s.system (if s.system.started then change s settle else s).system := by
  split
  · exact settle_leads s.system
  · exact .refl s.system

theorem abandon_leads (s : State) (id : String) : Leads Code.run s.system (abandon s id).2.system := by
  unfold abandon
  split
  · exact .refl s.system
  · exact System.abandon_leads s.system _

theorem request_leads (s : State) (target : Target) (name : String) (args : Args) :
    Leads Code.run s.system (request s target name args).2.system := by
  cases target with
  | actor a => exact System.request_leads s.system _ name args
  | pool p => exact Pool.request_leads _ name args s.system

theorem takeComponent_system (s : State) (c : ComponentSource) :
    (takeComponent s c).2.system = s.system := by
  cases c <;> rfl

theorem postAfter_leads (s : State) (c : ComponentSource) (actor : String) (p : Post Code) :
    Leads Code.run s.system (post (takeComponent s c).2 actor p).2.system := by
  have hpost : Leads Code.run (takeComponent s c).2.system
      (post (takeComponent s c).2 actor p).2.system := System.post_leads _ _ _
  rwa [takeComponent_system] at hpost

theorem step_leads (s : State) (st : Step) : Leads Code.run s.system (step s st).2.system := by
  cases st with
  | actor name =>
    exact (System.getOrCreate_leads s.system name).trans
      (settled_leads (withSystem s fun sys => sys.getOrCreate name).2)
  | pool name size =>
    exact (System.createWorkers_leads s.system name size).trans
      (settled_leads (withSystem s fun sys => sys.createWorkers name size).2)
  | start => exact (System.startAll_leads s.system).trans (settle_leads _)
  | startOne name =>
    have hstart : Leads Code.run s.system (s.system.start (actorOf s name)).2 :=
      System.start_leads s.system _
    unfold step withSystem
    dsimp only
    split
    · exact hstart.trans (settle_leads _)
    · exact hstart
  | run => exact settle_leads s.system
  | advance ms => exact System.arrange_leads _ _ _ _ _ _
  | setClock ms => exact System.arrange_leads _ _ _ _ _ _
  | onRpc target name script =>
    cases target with
    | actor a => exact System.registerRpc_leads s.system _ _ _
    | pool p => exact Pool.broadcast_leads (fun r s => System.registerRpc_leads s r _ _) _ s.system
  | onMessage target proto script =>
    cases target with
    | actor a => exact System.registerMessage_leads s.system _ _ _
    | pool p =>
      exact Pool.broadcast_leads (fun r s => System.registerMessage_leads s r _ _) _ s.system
  | rpc target name args =>
    cases target with
    | actor a => exact System.post_leads s.system _ _
    | pool p => exact Pool.rpc_leads _ name args s.system
  | call id target name args =>
    have hrequest := request_leads s target name args
    unfold step
    dsimp only
    split
    · exact hrequest
    · exact hrequest.trans (abandon_leads _ id)
  | expire id =>
    unfold step
    dsimp only
    split
    · exact .refl s.system
    · exact System.expire_leads s.system _
  | dropCall id => exact abandon_leads s id
  | await target name args =>
    have hrequest := request_leads s target name args
    unfold step awaitReply withSystem
    dsimp only
    split
    · exact hrequest.trans (settle_leads _)
    · exact hrequest.trans (settle_leads _)
  | awaitInside name => exact settle_leads s.system
  | post a kind agent via extra => exact System.post_leads _ _ _
  | data a kind proto agent payload => exact System.post_leads _ _ _
  | addComponent a c manager => exact postAfter_leads s c a _
  | componentError a c e => exact postAfter_leads s c a _
  | pushComponent a kind c manager e => exact postAfter_leads s c a _
  | exec a script => exact System.post_leads _ _ _
  | close target =>
    cases target with
    | actor a => exact System.close_leads s.system _
    | pool p => exact Pool.close_leads _ s.system
  | closeAll => exact (System.closeAll_leads s.system).trans (settle_leads _)
  | nextId => exact System.arrange_leads _ _ _ _ _ _
  | console line =>
    have hissue : Leads Code.run s.system (s.system.issue line).2 := System.issue_leads s.system line
    unfold step withSystem
    dsimp only
    split <;> exact hissue
  | consoleRead bytes =>
    have hissue : Leads Code.run s.system (s.system.issueStream bytes).2 :=
      System.issueLines_leads _ 0 s.system
    unfold step withSystem
    dsimp only
    split <;> exact hissue
  | find name =>
    unfold step
    dsimp only
    split <;> exact .refl s.system
  | require name =>
    unfold step
    dsimp only
    split <;> exact .refl s.system
  | findPool name =>
    unfold step
    dsimp only
    split <;> exact .refl s.system
  | route pool name =>
    unfold step
    dsimp only
    split <;> exact .refl s.system
  | hasRpc | manager | inspect | inspectAll | debug | actors | started => exact .refl s.system

def after (s : State) (steps : List Step) : State := steps.foldl (fun s st => (observe s st).2) s

theorem after_leads (s : State) (steps : List Step) :
    Leads Code.run s.system (after s steps).system := by
  induction steps generalizing s with
  | nil => exact .refl s.system
  | cons st steps ih => exact (step_leads s st).trans (ih (observe s st).2)

theorem reached (config : Config) (clock : UInt64) (steps : List Step) :
    (Machine.resting (System.new config ⟨clock⟩)).Reaches Code.run
      (Machine.resting (after (.new config clock) steps).system) :=
  (after_leads (.new config clock) steps (System.quiet_new config ⟨clock⟩)).1

end Scenario

end ActorSystem
