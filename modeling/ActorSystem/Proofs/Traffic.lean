import ActorSystem.Proofs.Machine

/-!
The machine in steps as small as those of its threads. A push looks whether the actor takes events,
puts its event into the queue, counts it, and looks whether the actor has ended since; a thread that
finds this empties the queue, and so do the last thread of an actor and the one that closes an actor
before its start. Between two steps of a thread all the others may go on. An actor may even go on
while a push of its own is not yet through: there are more runs here than threads can make.
-/

set_option autoImplicit false

namespace ActorSystem

/-- What a thread still has to do at an actor. -/
inductive Leg (κ : Type) where
  | put (e : Event κ)
  | count
  | recheck
  | signal (unstarted : Bool)
  /-- Nobody dispatches for the actor any more; its own thread has closed what the actor owned. -/
  | mark (own : Bool)
  | look (own : Bool)
  | lift (own : Bool)
  | uncount (own : Bool) (es : List (Event κ))
  | shed (own : Bool) (es : List (Event κ))
  | leave

namespace Leg

variable {κ : Type}

def isFinal : Leg κ → Bool
  | signal unstarted => unstarted
  | mark _ => true
  | _ => false

def rest (own : Bool) : Option (Leg κ) := if own then some leave else none

/-- One step: what is left to be done, what is written down, and the system after it. -/
def fly (r : ActorRef) (s : System κ) :
    Leg κ → Option (Leg κ) × List (Happening κ) × System κ
  | put e => (some count, [.accepted e], s.update r fun a => { a with mailbox := a.mailbox.put e })
  | count =>
    (some recheck, [],
      s.update r fun a => { a with mailbox := a.mailbox.count.notify, stirred := true })
  | recheck => (if s.ask r false fun a => a.phase == .closed then some (look false) else none, [], s)
  | signal unstarted => (if unstarted then some (mark false) else none, [], s.signal r)
  | mark own => (some (look own), [], s.markClosed r)
  | look own =>
    (if s.ask r false fun a => decide (a.mailbox.pending < 0) then rest own else some (lift own),
      [], s)
  | lift own =>
    let (es, s) := s.atActor r [] fun a =>
      let (taken, mailbox) := a.mailbox.lift EventQueue.unlimited
      (taken.items, { a with mailbox })
    if es.isEmpty then (rest own, [], s) else (some (uncount own es), [.discarded es], s)
  | uncount own es =>
    (some (shed own es), [],
      s.update r fun a => { a with mailbox := a.mailbox.uncount es.length })
  | shed own es => (some (look own), [], s.giveUpAll (es.flatMap Event.calls))
  | leave => (none, [], s.leave r)

end Leg

def Move.mover? {κ : Type} : Move κ → Option ActorRef
  | .wake r | .take r | .dispatch r | .proceed r | .fire r | .dismantle r => some r
  | _ => none

structure Traffic (κ : Type) where
  machine : Machine κ
  legs : ActorRef → List (Leg κ)

namespace Traffic

variable {κ : Type}

inductive Move (κ : Type) where
  | whole (mv : ActorSystem.Move κ)
  | request (r : ActorRef) (name : String) (args : Args)
  | outside (o : Op κ)
  | launch (r : ActorRef)
  | retire (r : ActorRef)
  | fly (r : ActorRef) (i : Nat)

def system (t : Traffic κ) : System κ := t.machine.system

def calm (m : Machine κ) : Traffic κ := ⟨m, fun _ => []⟩

def new (config : Config) (clock : Clock) : Traffic κ := calm (.resting (.new config clock))

def withSystem (t : Traffic κ) (s : System κ) : Traffic κ := { t with machine.system := s }

def add (t : Traffic κ) (r : ActorRef) (leg : Leg κ) : Traffic κ :=
  { t with legs := Function.update t.legs r (t.legs r ++ [leg]) }

def embark (t : Traffic κ) (r : ActorRef) (e : Event κ) : Traffic κ :=
  if t.system.accepts r then t.add r (.put e) else t.withSystem (t.system.giveUpAll e.calls)

/-- The first step of a push or of a close; no result for any other operation. -/
def begin (self : ActorRef) (t : Traffic κ) : (o : Op κ) → Option (o.Answer × Traffic κ)
  | .post target p => some ((), t.embark target (.post p))
  | .call target name args =>
    some ((), t.embark target (.post (.rpc ⟨(t.system.actor? self).map Actor.id, name, args⟩)))
  | .execute target action owned =>
    let (replies, s) := t.system.takeOwned self owned
    some ((), (t.withSystem s).embark target (.errand action replies))
  | .close target =>
    let (unstarted, s) := t.system.claim target
    if s.ask target false fun _ => true then
      some ((), (t.withSystem s).add target (.signal unstarted))
    else some ((), t)
  | _ => none

/-- Whether the actor is kept from moving, as it has no thread or one that is at its end. -/
def halted (t : Traffic κ) (r : ActorRef) : Bool := (t.legs r).any Leg.isFinal

def launch (t : Traffic κ) (r : ActorRef) : Traffic κ :=
  match t.machine.mode r, t.machine.todo r with
  | .ready, _ => t
  | mode, .op o next =>
    match t.begin r o with
    | none => t
    | some (x, t) => { t with machine := t.machine.runs r mode (next x) t.system }
  | _, _ => t

def retire (t : Traffic κ) (r : ActorRef) : History κ × Traffic κ :=
  if !t.halted r && t.machine.idle r && t.system.ask r false Actor.closing &&
      (t.system.takeBatch r).1 == 0 then
    ([(r, .ended [])], (t.withSystem (t.system.closeOwned r)).add r (.mark true))
  else ([], t)

def fly (t : Traffic κ) (r : ActorRef) (i : Nat) : History κ × Traffic κ :=
  match (t.legs r)[i]? with
  | none => ([], t)
  | some leg =>
    let (next, h, s) := leg.fly r t.system
    (h.map fun x => (r, x),
      { t.withSystem s with
        legs := Function.update t.legs r
          ((t.legs r).take i ++ next.toList ++ (t.legs r).drop (i + 1)) })

def step (code : κ → Invocation → Prog κ Unit) (t : Traffic κ) : Move κ → History κ × Traffic κ
  | .whole mv =>
    if mv.mover?.any t.halted then ([], t)
    else
      let (h, m) := t.machine.step code mv
      (h, { t with machine := m })
  | .request r name args =>
    if t.system.accepts r then
      ([], (t.withSystem { t.system with calls := t.system.calls.push ⟨name, .waiting⟩ }).add r
        (.put (.awaitRpc ⟨none, name, args⟩ t.system.calls.size)))
    else ([], t)
  | .outside o => ([], ((t.begin t.system.actors.size o).map Prod.snd).getD t)
  | .launch r => ([], t.launch r)
  | .retire r => t.retire r
  | .fly r i => t.fly r i

def play (code : κ → Invocation → Prog κ Unit) : List (Move κ) → Traffic κ → History κ × Traffic κ
  | [], t => ([], t)
  | mv :: mvs, t =>
    let (here, t) := t.step code mv
    let (there, t) := play code mvs t
    (here ++ there, t)

end Traffic

end ActorSystem
