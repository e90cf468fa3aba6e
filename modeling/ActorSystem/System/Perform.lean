import ActorSystem.System.Messaging

set_option autoImplicit false

namespace ActorSystem.System

variable {κ : Type}

def takeReply (s : System κ) (self : ActorRef) : Option CallRef × System κ :=
  s.atActor self none fun a => (a.dispatch.reply, { a with dispatch.reply := none })

def answerCurrent (s : System κ) (self : ActorRef) (vs : List Value) : Bool × System κ :=
  match s.takeReply self with
  | (none, s) => (false, s)
  | (some c, s) => s.answer c vs

def takeKept (s : System κ) (self : ActorRef) (slot : String) : Option CallRef × System κ :=
  s.atActor self none fun a => (a.kept.get? slot, { a with kept := a.kept.erase slot })

def dropKept (s : System κ) (self : ActorRef) (slot : String) : Bool × System κ :=
  match s.takeKept self slot with
  | (none, s) => (false, s)
  | (some c, s) => (true, s.giveUp c)

def keepReply (s : System κ) (self : ActorRef) (slot : String) : Bool × System κ :=
  match s.takeReply self with
  | (none, s) => (false, s)
  | (some c, s) =>
    let s := (s.dropKept self slot).2
    (true, s.update self fun a => { a with kept := a.kept.insert slot c })

def answerKept (s : System κ) (self : ActorRef) (slot : String) (vs : List Value) :
    Option Bool × System κ :=
  match s.takeKept self slot with
  | (none, s) => (none, s)
  | (some c, s) =>
    let (b, s) := s.answer c vs
    (some b, s)

def takeHeld (s : System κ) (self : ActorRef) (slot : String) : Option CallRef × System κ :=
  s.atActor self none fun a =>
    (a.dispatch.hand.get? slot, { a with dispatch.hand := a.dispatch.hand.erase slot })

def dropHeld (s : System κ) (self : ActorRef) (slot : String) : Bool × System κ :=
  match s.takeHeld self slot with
  | (none, s) => (false, s)
  | (some c, s) => (true, s.giveUp c)

def unshelve (s : System κ) (self : ActorRef) (slot : String) : Bool × System κ :=
  match s.takeKept self slot with
  | (none, s) => (false, s)
  | (some c, s) =>
    let s := (s.dropHeld self slot).2
    (true, s.update self fun a => { a with dispatch.hand := a.dispatch.hand.insert slot c })

def shelve (s : System κ) (self : ActorRef) (slot : String) : Bool × System κ :=
  match s.takeHeld self slot with
  | (none, s) => (false, s)
  | (some c, s) =>
    let s := (s.dropKept self slot).2
    (true, s.update self fun a => { a with kept := a.kept.insert slot c })

def release (s : System κ) (self : ActorRef) (slot : String) : Bool × System κ :=
  match s.takeHeld self slot with
  | (none, s) => (false, s)
  | (some c, s) => (true, { s with abroad := (self, c) :: s.abroad })

def takeOwned (s : System κ) (self : ActorRef) (owned : List String) : Replies × System κ :=
  s.atActor self .empty fun a =>
    (a.dispatch.hand.only owned, { a with dispatch.hand := a.dispatch.hand.without owned })

def execute (s : System κ) (self target : ActorRef) (action : κ) (owned : List String) : System κ :=
  let (replies, s) := s.takeOwned self owned
  s.push target (.errand action replies)

def cancelTimer (s : System κ) (self : ActorRef) (id : Timer.TimerId) : Bool × System κ :=
  let ((b, replies), s) := s.atActor self (false, []) fun a => a.cancel id
  (b, s.giveUpAll replies)

/-- One operation of the actor `self`. -/
def perform (self : ActorRef) : (o : Op κ) → System κ → o.Answer × System κ
  | .report what finding, s => ((), s.note (.report (s.ask self "" Actor.name) what finding))
  | .look, s => ((s.actor? self).map Actor.glimpse, s)
  | .now, s => (s.clock.now, s)
  | .put key v, s => ((), s.update self fun a => { a with store := a.store.insert key v })
  | .lookup key, s => (s.ask self none fun a => a.store.get? key, s)
  | .erase key, s =>
    s.atActor self none fun a => (a.store.get? key, { a with store := a.store.erase key })
  | .answer vs, s => s.answerCurrent self vs
  | .keepReply slot, s => s.keepReply self slot
  | .answerKept slot vs, s => s.answerKept self slot vs
  | .dropKept slot, s => s.dropKept self slot
  | .unshelve slot, s => s.unshelve self slot
  | .shelve slot, s => s.shelve self slot
  | .release slot, s => s.release self slot
  | .setTimer delay callback args owned, s =>
    s.atActor self 0 fun a => a.schedule s.clock.now delay ⟨callback, args⟩ owned
  | .cancelTimer id, s => s.cancelTimer self id
  | .timerStats, s => ((s.actor? self).map fun a => a.timers.stats, s)
  | .agent id, s => (s.ask self none fun a => a.agents.get? id, s)
  | .component id, s => (s.ask self none fun a => a.components.get? id, s)
  | .find name, s => (s.locate name, s)
  | .post target p, s => ((), s.post target p)
  | .execute target action owned, s => ((), s.execute self target action owned)
  | .call target name args, s =>
    ((), s.post target (.rpc ⟨(s.actor? self).map Actor.id, name, args⟩))
  | .await _ name _, s => (.error (.blockingInside name), s)
  | .registerMessage target proto handler, s => s.registerMessage target proto handler
  | .registerRpc target name handler, s => s.registerRpc target name handler
  | .start target, s => s.start target
  | .close target, s => ((), s.close target)
  | .inspect target, s => ((s.actor? target).map Actor.status, s)
  | .backlog target, s => (s.ask target 0 fun a => a.mailbox.pending, s)

/-- Runs a program to its end; no result means that it panicked. -/
def exec {α : Type} (self : ActorRef) : Prog κ α → System κ → Option α × System κ
  | .pure x, s => (some x, s)
  | .panic, s => (none, s)
  | .op o next, s =>
    let (x, s) := perform self o s
    exec self (next x) s

end ActorSystem.System
