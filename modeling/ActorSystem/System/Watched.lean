import ActorSystem.System.Turn

set_option autoImplicit false

namespace ActorSystem.System

variable {κ : Type}

def readClock (s : System κ) (r : ActorRef) : Bool × System κ :=
  s.atActor r false fun a =>
    let (held, watch) := a.watch.read a.processed
    (held, { a with watch })

def watchedBatch (code : κ → Invocation → Prog κ Unit) (r : ActorRef) (s : System κ) :
    Nat × System κ :=
  let before := s.ask r 0 Actor.restarts
  let (taken, s) := processBatch code r s
  (taken, s.update r fun a => { a with watch := a.watch.sawBatch (a.restarts != before) })

def watchedTimers (code : κ → Invocation → Prog κ Unit) (r : ActorRef) (s : System κ) : System κ :=
  let (fired, s) := fireTimers code r s.config.maxTimers s
  s.update r fun a => { a with watch := a.watch.sawTimers fired }

def hold (s : System κ) (r : ActorRef) (stage : Stage) : System κ :=
  s.update r fun a => { a with stage, stirred := false }

/-- The loop from a stage on, up to where the actor is held or ends; at most `limit` stages. -/
def loop (code : κ → Invocation → Prog κ Unit) (r : ActorRef) :
    Nat → Stage → System κ → Option (System κ)
  | 0, _, _ => none
  | limit + 1, .batch, s =>
    let (taken, s) := watchedBatch code r s
    match s.readClock r with
    | (true, s) => some (s.hold r (.timers taken))
    | (false, s) => loop code r limit (.timers taken) s
  | limit + 1, .timers taken, s =>
    let s := watchedTimers code r s
    if s.ask r true Actor.closing then some (shutdown code r s)
    else if 0 < taken then loop code r limit .batch s
    else
      match s.readClock r with
      | (true, s) => some ((s.pause r).2.hold r .batch)
      | (false, s) => loop code r limit .batch s

def watchedTurn (code : κ → Invocation → Prog κ Unit) (limit : Nat) (r : ActorRef) (s : System κ) :
    Option (System κ) :=
  match s.ask r .batch Actor.stage with
  | .batch => loop code r limit .batch (s.wake r)
  | .timers taken => loop code r limit (.timers taken) s

def runWatched (code : κ → Invocation → Prog κ Unit) (limit : Nat) (s : System κ) :
    Option (System κ) :=
  s.takeTurns (watchedTurn code limit) limit

end ActorSystem.System
