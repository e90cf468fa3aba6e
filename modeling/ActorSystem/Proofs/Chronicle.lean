import ActorSystem.Proofs.Machine
import ActorSystem.Proofs.Bookkeeping

/-!
What the code of the actors does in the course of the loops, written down: a chronicle goes through
a loop as the loop does and keeps a record of every run of a handler or a timer callback.
-/

set_option autoImplicit false

namespace ActorSystem

structure Done (κ : Type) where
  op : Op κ
  answer : op.Answer

/-- What code is run for. -/
inductive Cause (κ : Type) where
  | event (e : Event κ)
  | timer (e : Timer.Expired (Task κ))

/-- One run of an actor's code: when and for what it was, what the actor looked like, all that the
code did and was told, and whether it returned; and the events that waited for the actor before it
and that were left to wait after it. -/
structure Deed (κ : Type) where
  actor : ActorRef
  now : UInt64
  cause : Cause κ
  scene : Option Glimpse
  waiting : List (Event κ)
  done : List (Done κ)
  returned : Bool
  left : List (Event κ)

def Actor.queue {κ : Type} (a : Actor κ) : List (Event κ) := a.batch ++ a.mailbox.toList

namespace System

variable {κ : Type}

def doings {α : Type} (self : ActorRef) : Prog κ α → System κ → List (Done κ)
  | .pure _, _ => []
  | .panic, _ => []
  | .op o next, s =>
    ⟨o, (perform self o s).1⟩ :: doings self (next (perform self o s).1) (perform self o s).2

/-- The code is run in the first system, and what came of it in the end is the second. -/
def deed (r : ActorRef) (cause : Cause κ) (p : Prog κ Unit) (s after : System κ) : Deed κ where
  actor := r
  now := s.clock.now
  cause := cause
  scene := (s.actor? r).map Actor.glimpse
  waiting := s.ask r [] Actor.queue
  done := doings r p s
  returned := (exec r p s).1.isSome
  left := after.ask r [] Actor.queue

def afterEvent (r : ActorRef) (returned : Bool) (s : System κ) : System κ :=
  if returned then (s.reset r).update r fun a => { a with processed := a.processed + 1 }
  else s.recover r

def afterTimer (r : ActorRef) (returned : Bool) (s : System κ) : System κ :=
  if returned then (s.update r fun a => { a with timers := a.timers.finish }).reset r
  else s.recover r

theorem dispatchNext_cons {s : System κ} {r : ActorRef} {a : Actor κ} {e : Event κ}
    {rest : List (Event κ)} (code : κ → Invocation → Prog κ Unit) (ha : s.actor? r = some a)
    (hb : a.batch = e :: rest) :
    dispatchNext code r s =
      let (w, s) := (s.put r { a with batch := rest }).receive r e
      (exec r (w.prog code) s).2.afterEvent r (exec r (w.prog code) s).1.isSome := by
  simp only [dispatchNext, ha, hb, dispatch_eq]
  generalize exec r _ _ = p
  obtain ⟨_ | u, s₁⟩ := p
  · rfl
  · rfl

def nextDeeds (code : κ → Invocation → Prog κ Unit) (r : ActorRef) (s : System κ) : List (Deed κ) :=
  match s.actor? r with
  | none => []
  | some a =>
    match a.batch with
    | [] => []
    | e :: rest =>
      let (w, received) := (s.put r { a with batch := rest }).receive r e
      [deed r (.event e) (w.prog code) received (dispatchNext code r s)]

def manyDeeds (code : κ → Invocation → Prog κ Unit) (r : ActorRef) : Nat → System κ → List (Deed κ)
  | 0, _ => []
  | n + 1, s => nextDeeds code r s ++ manyDeeds code r n (dispatchNext code r s)

def batchDeeds (code : κ → Invocation → Prog κ Unit) (r : ActorRef) (s : System κ) :
    List (Deed κ) :=
  manyDeeds code r ((s.takeBatch r).2.ask r 0 fun a => a.batch.length) (s.takeBatch r).2

def expire (s : System κ) (r : ActorRef) : Option (Timer.Expired (Task κ)) × System κ :=
  s.atActor r none fun a => a.expire s.clock.now

def fireDeeds (code : κ → Invocation → Prog κ Unit) (r : ActorRef) (s : System κ) : List (Deed κ) :=
  match s.expire r with
  | (none, _) => []
  | (some e, expired) =>
    [deed r (.timer e) (code e.payload.callback (.timer e.payload.args)) expired
      (fireNext code r s).2]

def timerDeeds (code : κ → Invocation → Prog κ Unit) (r : ActorRef) :
    Nat → System κ → List (Deed κ)
  | 0, _ => []
  | max + 1, s =>
    fireDeeds code r s ++
      match fireNext code r s with
      | (some true, s) => timerDeeds code r max s
      | _ => []

def drainDeeds (code : κ → Invocation → Prog κ Unit) (r : ActorRef) :
    Nat → System κ → List (Deed κ)
  | 0, _ => []
  | n + 1, s =>
    batchDeeds code r s ++
      match processBatch code r s with
      | (0, _) => []
      | (_ + 1, s) => drainDeeds code r n s

def shutdownDeeds (code : κ → Invocation → Prog κ Unit) (r : ActorRef) (s : System κ) :
    List (Deed κ) :=
  drainDeeds code r (s.ask r 0 fun a => a.mailbox.toList.length + 1) s

def roundDeeds (code : κ → Invocation → Prog κ Unit) (r : ActorRef) (s : System κ) :
    List (Deed κ) :=
  let batched := (processBatch code r s).2
  let fired := (fireTimers code r batched.config.maxTimers batched).2
  batchDeeds code r s ++ timerDeeds code r batched.config.maxTimers batched ++
    if fired.ask r true Actor.closing then shutdownDeeds code r fired else []

def roundsDeeds (code : κ → Invocation → Prog κ Unit) (r : ActorRef) :
    Nat → System κ → List (Deed κ)
  | 0, _ => []
  | limit + 1, s =>
    roundDeeds code r s ++
      match round code r s with
      | (true, s) => roundsDeeds code r limit s
      | (false, _) => []

def turnDeeds (code : κ → Invocation → Prog κ Unit) (limit : Nat) (r : ActorRef) (s : System κ) :
    List (Deed κ) :=
  roundsDeeds code r limit (s.wake r)

def hasTurn (s : System κ) (all : Bool) (r : ActorRef) : Bool :=
  s.ask r false fun a => a.alive && (all || a.stirred)

def passDeeds (code : κ → Invocation → Prog κ Unit) (limit : Nat) (all : Bool) :
    List ActorRef → System κ → List (Deed κ)
  | [], _ => []
  | r :: rs, s =>
    if s.hasTurn all r then
      turnDeeds code limit r s ++ ((turn code limit r s).map (passDeeds code limit all rs)).getD []
    else passDeeds code limit all rs s

def settleDeeds (code : κ → Invocation → Prog κ Unit) (limit : Nat) : Nat → System κ → List (Deed κ)
  | 0, _ => []
  | n + 1, s =>
    if s.restless then
      passDeeds code limit false s.refs s ++
        ((pass (turn code limit) false s.refs s).map (settleDeeds code limit n)).getD []
    else []

def runDeeds (code : κ → Invocation → Prog κ Unit) (limit : Nat) (s : System κ) : List (Deed κ) :=
  passDeeds code limit true s.refs s ++
    ((pass (turn code limit) true s.refs s).map (settleDeeds code limit limit)).getD []

end System

/-- What may be done with a system between the turns of its actors, a turn, and a run pass. -/
inductive Stir (κ : Type) where
  | outside (o : Op κ)
  | request (r : ActorRef) (name : String) (args : Args)
  | expire (c : CallRef)
  | abandon (c : CallRef)
  | spawn (name : String)
  | arrange (clock : Clock) (ids : IdSource) (started : Bool) (names : Table String ActorRef)
      (pools : Table String Pool)
  | turn (r : ActorRef)
  | run

namespace System

variable {κ : Type}

/-- One stir, with what the actors did; no result if there is more to do than `limit` allows. -/
def stir (code : κ → Invocation → Prog κ Unit) (limit : Nat) :
    Stir κ → System κ → Option (List (Deed κ) × System κ)
  | .outside o, s => some ([], (perform s.actors.size o s).2)
  | .request r name args, s => some ([], (s.request r name args).2)
  | .expire c, s => some ([], (s.settle c .timedOut).2)
  | .abandon c, s => some ([], (s.settle c .abandoned).2)
  | .spawn name, s => some ([], (s.spawn name).2)
  | .arrange clock ids started names pools, s =>
    some ([], { s with clock, ids, started, names, pools })
  | .turn r, s =>
    if s.ask r false Actor.alive then
      (turn code limit r s).map fun s' => (turnDeeds code limit r s, s')
    else some ([], s)
  | .run, s => (run code limit s).map fun s' => (runDeeds code limit s, s')

def course (code : κ → Invocation → Prog κ Unit) (limit : Nat) :
    List (Stir κ) → System κ → Option (List (Deed κ) × System κ)
  | [], s => some ([], s)
  | x :: xs, s =>
    (stir code limit x s).bind fun (here, s) =>
      (course code limit xs s).map fun (there, s) => (here ++ there, s)

end System

end ActorSystem
