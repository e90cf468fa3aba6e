import ActorSystem.Actor.Reaction
import ActorSystem.System.Perform

/-!
The loop of an actor. A round takes a batch from the mailbox, dispatches it, and fires the timers
that are due; an actor that has been told to close then drains its mailbox and ends. A turn is
rounds until one finds nothing to do.

A panic ends a dispatch and nothing else: the event is not tried again, the reply it owed is given
up, and the policy says what becomes of the rest of the batch.
-/

set_option autoImplicit false

namespace ActorSystem.System

variable {κ : Type}

/-- Clears what describes the current dispatch; the replies that it still has are given up. -/
def reset (s : System κ) (r : ActorRef) : System κ :=
  let (replies, s) := s.atActor r [] fun a => (a.dispatch.replies, { a with dispatch := .idle })
  s.giveUpAll replies

def dropBatch (s : System κ) (r : ActorRef) : System κ :=
  let (events, s) := s.atActor r [] fun a => (a.batch, { a with batch := [] })
  s.giveUpAll (events.flatMap Event.calls)

def recover (s : System κ) (r : ActorRef) : System κ :=
  let s := s.update r fun a =>
    { a with phase := .restarting, restarts := a.restarts + 1, timers := a.timers.finish }
  let s := s.reset r
  let s :=
    match s.config.restartPolicy with
    | .dropBatch => s.dropBatch r
    | .requeueRemaining => s
  s.update r fun a => { a with phase := .running }

def work (code : κ → Invocation → Prog κ Unit) (r : ActorRef) (w : Work κ) (s : System κ) :
    Bool × System κ :=
  match w with
  | .nothing => (true, s)
  | .crash => (false, s)
  | .run c i =>
    let (done, s) := exec r (code c i) s
    (done.isSome, s)

def dispatch (code : κ → Invocation → Prog κ Unit) (r : ActorRef) (e : Event κ) (s : System κ) :
    Bool × System κ :=
  match s.actor? r with
  | none => (true, s)
  | some a =>
    let reaction := a.react e
    let s := s.put r reaction.actor
    let s :=
      match reaction.started with
      | some c => s.note (.componentStarted c.id c.label)
      | none => s
    let s :=
      match reaction.unanswered with
      | some c => s.giveUp c
      | none => s
    work code r reaction.work s

def dispatchNext (code : κ → Invocation → Prog κ Unit) (r : ActorRef) (s : System κ) : System κ :=
  match s.actor? r with
  | none => s
  | some a =>
    match a.batch with
    | [] => s
    | e :: rest =>
      match dispatch code r e (s.put r { a with batch := rest }) with
      | (true, s) => (s.reset r).update r fun a => { a with processed := a.processed + 1 }
      | (false, s) => s.recover r

def dispatchMany (code : κ → Invocation → Prog κ Unit) (r : ActorRef) : Nat → System κ → System κ
  | 0, s => s
  | n + 1, s => dispatchMany code r n (dispatchNext code r s)

def takeBatch (s : System κ) (r : ActorRef) : Nat × System κ :=
  s.atActor r 0 fun a =>
    let (taken, mailbox) := a.mailbox.take s.config.batchSize
    (taken.items.length, { a with mailbox, batch := a.batch ++ taken.items })

def processBatch (code : κ → Invocation → Prog κ Unit) (r : ActorRef) (s : System κ) :
    Nat × System κ :=
  let (n, s) := s.takeBatch r
  (n, dispatchMany code r (s.ask r 0 fun a => a.batch.length) s)

/-- Fires the next due timer: nothing if none is due, else whether its callback returned. -/
def fireNext (code : κ → Invocation → Prog κ Unit) (r : ActorRef) (s : System κ) :
    Option Bool × System κ :=
  let (expired, s) := s.atActor r none fun a => a.expire s.clock.now
  match expired with
  | none => (none, s)
  | some e =>
    match exec r (code e.payload.callback (.timer e.payload.args)) s with
    | (some _, s) =>
      (some true, (s.update r fun a => { a with timers := a.timers.finish }).reset r)
    | (none, s) => (some false, s.recover r)

/-- Fires up to `max` timers, and none after a panic; tells how many callbacks were run. -/
def fireTimers (code : κ → Invocation → Prog κ Unit) (r : ActorRef) : Nat → System κ → Nat × System κ
  | 0, s => (0, s)
  | max + 1, s =>
    match fireNext code r s with
    | (none, s) => (0, s)
    | (some false, s) => (1, s)
    | (some true, s) =>
      let (n, s) := fireTimers code r max s
      (n + 1, s)

def drain (code : κ → Invocation → Prog κ Unit) (r : ActorRef) : Nat → System κ → System κ
  | 0, s => s
  | n + 1, s =>
    match processBatch code r s with
    | (0, s) => s
    | (_ + 1, s) => drain code r n s

/-- Closes what the actor owns, first the components and then the agents. -/
def closeOwned (s : System κ) (r : ActorRef) : System κ :=
  match s.actor? r with
  | none => s
  | some a =>
    let s := a.components.values.foldl (fun s c => s.note (.componentClosed c.id c.label)) s
    let s := a.agents.values.foldl (fun s agent => s.note (.agentClosed agent)) s
    s.put r { a with agents := .empty, components := .empty, managers := .empty }

/-- Kept replies end with their actor, and so do those that the callbacks of timers own. -/
def leave (s : System κ) (r : ActorRef) : System κ :=
  let (replies, s) := s.atActor r [] fun a =>
    (a.kept.values ++ a.purses.flatMap fun p => p.2.values, { a with kept := .empty, purses := [] })
  s.giveUpAll replies

/-- The end of an actor: what slips into its mailbox before it counts as closed is thrown away. -/
def dismantle (s : System κ) (r : ActorRef) : System κ :=
  (((s.closeOwned r).markClosed r).discard r).leave r

/-- Every batch of the drain takes at least one of the events queued, and none is added. -/
def shutdown (code : κ → Invocation → Prog κ Unit) (r : ActorRef) (s : System κ) : System κ :=
  (drain code r (s.ask r 0 fun a => a.mailbox.toList.length + 1) s).dismantle r

/-- Announces the wait of an actor whose batch was empty, unless its wheel has work; tells whether
there is more to do, for the wheel or with an event that has come in. -/
def pause (s : System κ) (r : ActorRef) : Bool × System κ :=
  s.atActor r false fun a =>
    if a.timers.nextWake s.clock.now = some 0 then (true, a)
    else
      let (idle, mailbox) := a.mailbox.announce
      (!idle, { a with mailbox })

/-- One round; tells whether there may be more to do. -/
def round (code : κ → Invocation → Prog κ Unit) (r : ActorRef) (s : System κ) : Bool × System κ :=
  let (taken, s) := processBatch code r s
  let (_, s) := fireTimers code r s.config.maxTimers s
  if s.ask r true Actor.closing then (false, shutdown code r s)
  else if 0 < taken then (true, s)
  else s.pause r

/-- At most `limit` rounds; no result if there is more to do after them. -/
def rounds (code : κ → Invocation → Prog κ Unit) (r : ActorRef) : Nat → System κ → Option (System κ)
  | 0, _ => none
  | limit + 1, s =>
    match round code r s with
    | (true, s) => rounds code r limit s
    | (false, s) => some s

/-- The end of the wait: a signal is received if there is one, and the announcement is settled. -/
def wake (s : System κ) (r : ActorRef) : System κ :=
  s.update r fun a => { a with phase := .running, mailbox := a.mailbox.recv.2.rearm }

def sleep (s : System κ) (r : ActorRef) : System κ := s.update r fun a => { a with stirred := false }

def turn (code : κ → Invocation → Prog κ Unit) (limit : Nat) (r : ActorRef) (s : System κ) :
    Option (System κ) :=
  (rounds code r limit (s.wake r)).map fun s => s.sleep r

/-- A turn for each of the given actors that is alive and, with `all` false, has been stirred. -/
def pass (turn : ActorRef → System κ → Option (System κ)) (all : Bool) :
    List ActorRef → System κ → Option (System κ)
  | [], s => some s
  | r :: rs, s =>
    if s.ask r false (fun a => a.alive && (all || a.stirred)) then
      (turn r s).bind (pass turn all rs)
    else pass turn all rs s

def restless (s : System κ) : Bool := s.refs.any fun r => s.ask r false fun a => a.alive && a.stirred

def settleDown (turn : ActorRef → System κ → Option (System κ)) :
    Nat → System κ → Option (System κ)
  | 0, _ => none
  | n + 1, s =>
    if s.restless then (pass turn false s.refs s).bind (settleDown turn n) else some s

/-- A turn for every actor, and more for those that are stirred by another. -/
def takeTurns (turn : ActorRef → System κ → Option (System κ)) (limit : Nat) (s : System κ) :
    Option (System κ) :=
  (pass turn true s.refs s).bind (settleDown turn limit)

def run (code : κ → Invocation → Prog κ Unit) (limit : Nat) (s : System κ) : Option (System κ) :=
  s.takeTurns (turn code limit) limit

end ActorSystem.System
