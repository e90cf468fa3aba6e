import ActorSystem.System.Basic

set_option autoImplicit false

namespace ActorSystem.System

variable {κ : Type}

def accepts (s : System κ) (r : ActorRef) : Bool := s.ask r false fun a => !a.refuses

def discard (s : System κ) (r : ActorRef) : System κ :=
  match s.actor? r with
  | none => s
  | some a =>
    let (events, mailbox) := a.mailbox.discard
    (s.put r { a with mailbox }).giveUpAll (events.flatMap Event.calls)

/-- Whoever has pushed to an actor that has ended since then empties its mailbox. -/
def recheck (s : System κ) (r : ActorRef) : System κ :=
  if s.ask r false fun a => a.phase == .closed then s.discard r else s

def enqueue (s : System κ) (r : ActorRef) (e : Event κ) : System κ :=
  (s.update r fun a => a.enqueue e).recheck r

def push (s : System κ) (r : ActorRef) (e : Event κ) : System κ :=
  if s.accepts r then s.enqueue r e else s.giveUpAll e.calls

def post (s : System κ) (r : ActorRef) (p : Post κ) : System κ := s.push r (.post p)

def request (s : System κ) (r : ActorRef) (name : String) (args : Args) :
    Except Error CallRef × System κ :=
  match s.actor? r with
  | none => (.error (.actorNotFound name), s)
  | some a =>
    if a.refuses then (.error (.actorClosed a.name), s)
    else
      let c := s.calls.size
      (.ok c,
        { s with calls := s.calls.push ⟨name, .waiting⟩ }.enqueue r
          (.awaitRpc ⟨none, name, args⟩ c))

def start (s : System κ) (r : ActorRef) : Except Error Unit × System κ :=
  s.atActor r (.ok ()) fun a => a.start s.clock.now s.config.maxDelayMs

/-- Whoever gets here first may start the actor, or close it unstarted. -/
def claim (s : System κ) (r : ActorRef) : Bool × System κ :=
  s.atActor r false fun a => (a.dormant, { a with dormant := false })

def signal (s : System κ) (r : ActorRef) : System κ :=
  s.update r fun a => { a with closing := true, stirred := true }

def markClosed (s : System κ) (r : ActorRef) : System κ :=
  s.update r fun a => { a with phase := .closed }

/-- An actor that never ran is closed at once; any other closes at the end of its round. -/
def close (s : System κ) (r : ActorRef) : System κ :=
  let (unstarted, s) := s.claim r
  let s := s.signal r
  if unstarted then (s.markClosed r).discard r else s

def registerMessage (s : System κ) (r : ActorRef) (proto : UInt32) (handler : κ) :
    Except Error Unit × System κ :=
  s.atActor r (.ok ()) fun a => a.registerMessage proto handler

def registerRpc (s : System κ) (r : ActorRef) (name : String) (handler : κ) :
    Except Error Unit × System κ :=
  s.atActor r (.ok ()) fun a => a.registerRpc name handler

/-- The reference under which an actor is known by name: as itself, or as a member of a pool. -/
def locate (s : System κ) (name : String) : Option ActorRef :=
  match s.names.get? name with
  | some r => some r
  | none => s.refs.find? fun r => s.ask r false fun a => a.name == name

end ActorSystem.System
