import ActorSystem.Proofs.Errands
import ActorSystem.Proofs.Pools
import ActorSystem.Proofs.Typing

/-!
Refusals. What is refused at once is refused before anything is done, and an event that comes too
late is gone: the system is the same as before, and whatever follows is as if nothing had been
attempted.
-/

set_option autoImplicit false

namespace ActorSystem

variable {κ : Type}

/-- A refusal comes before everything else. `refusal?` is the answer of one, told from the system as
it is found, and `denies` tells it from other answers. -/
structure AtOnce {α : Type} (s : System κ) (refusal? : Option α) (denies : α → Bool)
    (out : α × System κ) : Prop where
  refused : ∀ x, refusal? = some x → out = (x, s)
  denied : denies out.1 = true → refusal? = some out.1

namespace AtOnce

variable {α : Type} {s : System κ} {denies : α → Bool} {out : α × System κ}

theorem silent {refusal? : Option α} (h : AtOnce s refusal? (fun _ => false) out)
    (hsilent : denies out.1 = false) : AtOnce s refusal? denies out where
  refused := h.refused
  denied hd := by rw [hsilent] at hd; cases hd

end AtOnce

def Op.denies : (o : Op κ) → o.Answer → Bool
  | .start _, x => !x.isOk
  | .registerMessage .., x => !x.isOk
  | .registerRpc .., x => !x.isOk
  | .await .., x => !x.isOk
  | _, _ => false

namespace System

variable {s : System κ} {r : ActorRef}

/-- The answer to an operation that is refused, or that comes too late for its target. -/
def refusal? (s : System κ) : (o : Op κ) → Option o.Answer
  | .start r =>
    match s.actor? r with
    | some a => if a.dormant then none else some (.error (.alreadyStarted a.name))
    | none => none
  | .registerMessage r proto _ =>
    if (s.handler? r (.message proto)).isSome then
      some (.error (.duplicateHandler (messageKey proto)))
    else none
  | .registerRpc r name _ =>
    if (s.handler? r (.rpc name)).isSome then some (.error (.duplicateHandler (rpcKey name)))
    else none
  | .await _ name _ => some (.error (.blockingInside name))
  | .post r _ => if s.accepts r then none else some ()
  | .execute r _ [] => if s.accepts r then none else some ()
  | .call r _ _ => if s.accepts r then none else some ()
  | _ => none

def closed? (s : System κ) (r : ActorRef) (name : String) : Option (Except Error CallRef) :=
  if s.accepts r then none
  else some (.error (s.ask r (.actorNotFound name) fun a => .actorClosed a.name))

end System

inductive Attempt (κ : Type) where
  | op (o : Op κ)
  | request (r : ActorRef) (name : String) (args : Args)
  | poolRpc (p : Pool) (name : String) (args : Args)
  | poolRequest (p : Pool) (name : String) (args : Args)
  | poolAwait (p : Pool) (name : String) (args : Args)
  | require (name : String)
  | issue (line : String)

namespace Attempt

abbrev Answer : Attempt κ → Type
  | op o => o.Answer
  | request .. => Except Error CallRef
  | poolRpc .. => Except Error Unit
  | poolRequest .. => Except Error CallRef
  | poolAwait .. => Except Error (List Value)
  | require _ => Except Error ActorRef
  | issue _ => Except Error Bool

def perform : (t : Attempt κ) → System κ → t.Answer × System κ
  | op o, s => System.perform s.actors.size o s
  | request r name args, s => s.request r name args
  | poolRpc p name args, s => p.rpc name args s
  | poolRequest p name args, s => p.request name args s
  | poolAwait p name args, s =>
    match p.route name with
    | .error e => (.error e, s)
    | .ok r => System.perform s.actors.size (.await r name args) s
  | require name, s => (s.require name, s)
  | issue line, s => s.issue line

/-- Whether the answer says that the attempt was refused. An incomplete line is, without an
error. -/
def denies : (t : Attempt κ) → t.Answer → Bool
  | op o, x => o.denies x
  | request .., x => !x.isOk
  | poolRpc .., x => !x.isOk
  | poolRequest .., x => !x.isOk
  | poolAwait .., x => !x.isOk
  | require _, x => !x.isOk
  | issue _, x => decide (x ≠ .ok true)

/-- The answer to an attempt that is refused, or whose event comes too late. -/
def refusal? (s : System κ) : (t : Attempt κ) → Option t.Answer
  | op o => s.refusal? o
  | request r name _ => s.closed? r name
  | poolRpc p name _ =>
    if p.size = 0 then some (.error (.emptyPool p.name))
    else (p.route name).toOption.bind fun r => if s.accepts r then none else some (.ok ())
  | poolRequest p name _ =>
    if p.size = 0 then some (.error (.emptyPool p.name))
    else (p.route name).toOption.bind fun r => s.closed? r name
  | poolAwait p name _ =>
    if p.size = 0 then some (.error (.emptyPool p.name)) else some (.error (.blockingInside name))
  | require name =>
    match s.names.get? name with
    | none => some (.error (.actorNotFound name))
    | some _ => none
  | issue line =>
    match Text.words line with
    | target :: rpc :: _ =>
      match s.names.get? target with
      | none => some (.error (.actorNotFound target))
      | some r =>
        if (s.handler? r (.rpc rpc)).isSome then if s.accepts r then none else some (.ok true)
        else some (.error (.handlerNotFound (rpcKey rpc)))
    | _ => some (.ok false)

end Attempt

namespace Machine

variable {code : κ → Invocation → Prog κ Unit} {m : Machine κ} {r : ActorRef} {o : Op κ}

end Machine

inductive Demand (κ : Type) where
  | errand (e : Errand κ)
  | attempt (t : Attempt κ)

namespace Demand

variable (code : κ → Invocation → Prog κ Unit)

def step (m : Machine κ) : Demand κ → Machine κ
  | errand e => e.step code m
  | attempt t => { m with system := (t.perform m.system).2 }

def after (ds : List (Demand κ)) (m : Machine κ) : Machine κ := ds.foldl (step code) m

def refused (m : Machine κ) : Demand κ → Bool
  | errand _ => false
  | attempt t => (t.refusal? m.system).isSome

variable {code} {m : Machine κ}

end Demand

namespace Machine

end Machine

end ActorSystem
