import ActorSystem.Actor.Basic
import ActorSystem.Clock
import ActorSystem.Ids

/-!
The system: all actors in the order of creation, the calls that wait or have waited for a reply,
and the journal of what has been reported or done to the outside.
-/

set_option autoImplicit false

namespace ActorSystem

/-- How a call stands. Only a waiting one changes, and only once. -/
inductive CallState where
  | waiting
  | answered (vs : List Value)
  | dropped
  | timedOut
  | abandoned

structure Call where
  rpc : String
  state : CallState

inductive Entry where
  | report (actor : String) (what : String) (finding : Finding)
  | componentStarted (id : ComponentId) (label : Value)
  | componentClosed (id : ComponentId) (label : Value)
  | agentClosed (agent : Agent)

/-- A fixed group of actors that share their registrations. -/
structure Pool where
  name : String
  members : List ActorRef
  hash : RouteHash
  deriving DecidableEq, Repr

structure System (κ : Type) where
  config : Config
  clock : Clock
  ids : IdSource
  started : Bool
  actors : Array (Actor κ)
  names : Table String ActorRef
  pools : Table String Pool
  calls : Array Call
  /-- Replies in the hands of threads that are no actor's, with the actors that handed them out. -/
  abroad : List (ActorRef × CallRef)
  journal : Array Entry

namespace System

variable {κ : Type}

def new (config : Config) (clock : Clock) : System κ :=
  ⟨config, clock, .new, false, #[], .empty, .empty, #[], [], #[]⟩

def actor? (s : System κ) (r : ActorRef) : Option (Actor κ) := s.actors[r]?

def put (s : System κ) (r : ActorRef) (a : Actor κ) : System κ :=
  { s with actors := s.actors.setIfInBounds r a }

def update (s : System κ) (r : ActorRef) (f : Actor κ → Actor κ) : System κ :=
  { s with actors := s.actors.modify r f }

/-- Looks at an actor and changes it; the answer for an actor that does not exist is given. -/
def atActor {α : Type} (s : System κ) (r : ActorRef) (absent : α) (f : Actor κ → α × Actor κ) :
    α × System κ :=
  match s.actor? r with
  | none => (absent, s)
  | some a =>
    let (x, a) := f a
    (x, s.put r a)

/-- Reads an actor; the answer for an actor that does not exist is given. -/
def ask {α : Type} (s : System κ) (r : ActorRef) (absent : α) (f : Actor κ → α) : α :=
  ((s.actor? r).map f).getD absent

def refs (s : System κ) : List ActorRef := List.range s.actors.size

def note (s : System κ) (e : Entry) : System κ := { s with journal := s.journal.push e }

def settle (s : System κ) (c : CallRef) (state : CallState) : Bool × System κ :=
  match s.calls[c]? with
  | some ⟨rpc, .waiting⟩ => (true, { s with calls := s.calls.setIfInBounds c ⟨rpc, state⟩ })
  | _ => (false, s)

def answer (s : System κ) (c : CallRef) (vs : List Value) : Bool × System κ :=
  s.settle c (.answered vs)

def giveUp (s : System κ) (c : CallRef) : System κ := (s.settle c .dropped).2

def giveUpAll (s : System κ) (cs : List CallRef) : System κ := cs.foldl giveUp s

def result? (s : System κ) (c : CallRef) : Option (Except Error (List Value)) :=
  match s.calls[c]? with
  | some ⟨_, .answered vs⟩ => some (.ok vs)
  | some ⟨rpc, .dropped⟩ => some (.error (.rpcDropped rpc))
  | some ⟨rpc, .timedOut⟩ => some (.error (.rpcTimeout rpc))
  | _ => none

def isWaiting (s : System κ) (c : CallRef) : Bool :=
  match s.calls[c]? with
  | some ⟨_, .waiting⟩ => true
  | _ => false

end System

end ActorSystem
