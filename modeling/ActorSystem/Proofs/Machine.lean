import ActorSystem.System.Registry
import ActorSystem.System.Turn
import Mathlib.Logic.Function.Basic

/-!
The system as a machine whose actors run side by side. A move is one operation of running code, one
stage of a loop, or something done from outside; between two moves of an actor all others may move.
A move that cannot be made changes nothing, so that every list of moves can be played.
-/

set_option autoImplicit false

namespace ActorSystem

/-- What an actor is at. -/
inductive Mode (κ : Type) where
  | ready
  | handling (e : Event κ)
  | firing

/-- What is written down of a run. -/
inductive Happening (κ : Type) where
  | accepted (e : Event κ)
  /-- Values were sent over the reply of a call, whoever still waits for them. -/
  | replied (c : CallRef) (vs : List Value)
  | completed (e : Event κ)
  | panicked (e : Event κ) (dropped : List (Event κ))
  | timerPanicked (dropped : List (Event κ))
  | cancelled (es : List (Event κ))
  | ended (es : List (Event κ))
  | discarded (es : List (Event κ))

abbrev History (κ : Type) := List (ActorRef × Happening κ)

inductive Fate (κ : Type) where
  | answer (vs : List Value)
  | drop
  | pass (slot : String) (target : ActorRef) (action : κ)

inductive Move (κ : Type) where
  | outside (o : Op κ)
  | request (r : ActorRef) (name : String) (args : Args)
  | expire (c : CallRef)
  | abandon (c : CallRef)
  | elsewhere (c : CallRef) (use : Fate κ)
  | spawn (name : String)
  | arrange (clock : Clock) (ids : IdSource) (started : Bool) (names : Table String ActorRef)
      (pools : Table String Pool)
  | tend (r : ActorRef) (stirred : Bool) (announced notified : UInt32) (channel : WakeChannel)
      (stage : Stage) (watch : Watch)
  | wake (r : ActorRef)
  | take (r : ActorRef)
  | dispatch (r : ActorRef)
  | proceed (r : ActorRef)
  | fire (r : ActorRef)
  | dismantle (r : ActorRef)

def Work.prog {κ : Type} (code : κ → Invocation → Prog κ Unit) : Work κ → Prog κ Unit
  | .nothing => .pure ()
  | .crash => .panic
  | .run c i => code c i

namespace System

variable {κ : Type}

def heard (s : System κ) (self : ActorRef) : Op κ → History κ
  | .answer vs =>
    (s.ask self none fun a => a.dispatch.reply).toList.map fun c => (self, .replied c vs)
  | .answerKept slot vs =>
    (s.ask self none fun a => a.kept.get? slot).toList.map fun c => (self, .replied c vs)
  | .post target p => if s.accepts target then [(target, .accepted (.post p))] else []
  | .execute target action owned =>
    if s.accepts target then
      [(target, .accepted
        (.errand action (s.ask self .empty fun a => a.dispatch.hand.only owned)))]
    else []
  | .call target name args =>
    if s.accepts target then
      [(target, .accepted (.post (.rpc ⟨(s.actor? self).map Actor.id, name, args⟩)))]
    else []
  | .close target =>
    match s.actor? target with
    | some a => if a.dormant then [(target, .cancelled a.mailbox.discard.1)] else []
    | none => []
  | _ => []

def elsewhere (s : System κ) (c : CallRef) (use : Fate κ) : History κ × System κ :=
  match s.abroad.find? fun x => x.2 == c with
  | none => ([], s)
  | some x =>
    let s := { s with abroad := s.abroad.erase x }
    match use with
    | .answer vs => ([(x.1, .replied c vs)], (s.answer c vs).2)
    | .drop => ([], s.giveUp c)
    | .pass slot target action =>
      let e : Event κ := .errand action (.insert .empty slot c)
      (if s.accepts target then [(target, .accepted e)] else [], s.push target e)

def dropped (s : System κ) (r : ActorRef) : List (Event κ) :=
  match s.config.restartPolicy with
  | .dropBatch => s.ask r [] Actor.batch
  | .requeueRemaining => []

def receive (r : ActorRef) (e : Event κ) (s : System κ) : Work κ × System κ :=
  match s.actor? r with
  | none => (.nothing, s)
  | some a =>
    let reaction := a.react e
    let s := s.put r reaction.actor
    let s :=
      match reaction.started with
      | some c => s.note (.componentStarted c.id c.label)
      | none => s
    let s :=
      match reaction.unanswered with
      | some c => s.giveUp c
      | none => s
    (reaction.work, s)

theorem dispatch_eq (code : κ → Invocation → Prog κ Unit) (r : ActorRef) (e : Event κ)
    (s : System κ) :
    dispatch code r e s =
      ((exec r ((s.receive r e).1.prog code) (s.receive r e).2).1.isSome,
        (exec r ((s.receive r e).1.prog code) (s.receive r e).2).2) := by
  unfold dispatch receive
  cases s.actor? r with
  | none => rfl
  | some a =>
    dsimp only
    cases (a.react e).work <;> rfl

end System

structure Machine (κ : Type) where
  system : System κ
  mode : ActorRef → Mode κ
  todo : ActorRef → Prog κ Unit

namespace Machine

variable {κ : Type}

def resting (s : System κ) : Machine κ := ⟨s, fun _ => .ready, fun _ => .pure ()⟩

def runs (m : Machine κ) (r : ActorRef) (mode : Mode κ) (p : Prog κ Unit) (s : System κ) :
    Machine κ :=
  ⟨s, Function.update m.mode r mode, Function.update m.todo r p⟩

def halts (m : Machine κ) (r : ActorRef) (s : System κ) : Machine κ := m.runs r .ready (.pure ()) s

/-- Ready to look at the mailbox or at the timers, with no batch left to dispatch. -/
def idle (m : Machine κ) (r : ActorRef) : Bool :=
  match m.mode r with
  | .ready => m.system.ask r false fun a => a.alive && a.batch.isEmpty
  | _ => false

def begin (code : κ → Invocation → Prog κ Unit) (m : Machine κ) (r : ActorRef) : Machine κ :=
  match m.mode r, m.system.actor? r with
  | .ready, some a =>
    match a.batch with
    | [] => m
    | e :: rest =>
      let (w, s) := (m.system.put r { a with batch := rest }).receive r e
      m.runs r (.handling e) (w.prog code) s
  | _, _ => m

def fire (code : κ → Invocation → Prog κ Unit) (m : Machine κ) (r : ActorRef) : Machine κ :=
  if m.idle r then
    let (expired, s) := m.system.atActor r none fun a => a.expire m.system.clock.now
    match expired with
    | none => { m with system := s }
    | some e => m.runs r .firing (code e.payload.callback (.timer e.payload.args)) s
  else m

def proceed (m : Machine κ) (r : ActorRef) : History κ × Machine κ :=
  match m.mode r, m.todo r with
  | .ready, _ => ([], m)
  | mode, .op o next =>
    let (x, s) := System.perform r o m.system
    (m.system.heard r o, m.runs r mode (next x) s)
  | .handling e, .pure _ =>
    ([(r, .completed e)],
      m.halts r ((m.system.reset r).update r fun a => { a with processed := a.processed + 1 }))
  | .handling e, .panic =>
    ([(r, .panicked e (m.system.dropped r))], m.halts r (m.system.recover r))
  | .firing, .pure _ =>
    ([], m.halts r ((m.system.update r fun a => { a with timers := a.timers.finish }).reset r))
  | .firing, .panic =>
    ([(r, .timerPanicked (m.system.dropped r))], m.halts r (m.system.recover r))

/-- An actor that is told to close ends after a look at the mailbox that took nothing. -/
def dismantle (m : Machine κ) (r : ActorRef) : History κ × Machine κ :=
  if m.idle r && m.system.ask r false Actor.closing && (m.system.takeBatch r).1 == 0 then
    ([(r, .ended (m.system.ask r [] fun a => a.mailbox.discard.1))],
      { m with system := m.system.dismantle r })
  else ([], m)

def step (code : κ → Invocation → Prog κ Unit) (m : Machine κ) : Move κ → History κ × Machine κ
  | .outside o =>
    let self := m.system.actors.size
    (m.system.heard self o, { m with system := (System.perform self o m.system).2 })
  | .request r name args =>
    (if m.system.accepts r then
        [(r, .accepted (.awaitRpc ⟨none, name, args⟩ m.system.calls.size))]
      else [],
      { m with system := (m.system.request r name args).2 })
  | .expire c => ([], { m with system := (m.system.settle c .timedOut).2 })
  | .abandon c => ([], { m with system := (m.system.settle c .abandoned).2 })
  | .elsewhere c use =>
    ((m.system.elsewhere c use).1, { m with system := (m.system.elsewhere c use).2 })
  | .spawn name => ([], { m with system := (m.system.spawn name).2 })
  | .arrange clock ids started names pools =>
    ([], { m with system := { m.system with clock, ids, started, names, pools } })
  | .tend r stirred announced notified channel stage watch =>
    ([], { m with system := m.system.update r fun a =>
      { a with mailbox := { a.mailbox with announced, notified, channel }, stirred, stage, watch } })
  | .wake r => ([], if m.idle r then { m with system := m.system.wake r } else m)
  | .take r => ([], if m.idle r then { m with system := (m.system.takeBatch r).2 } else m)
  | .dispatch r => ([], m.begin code r)
  | .proceed r => m.proceed r
  | .fire r => ([], m.fire code r)
  | .dismantle r => m.dismantle r

def play (code : κ → Invocation → Prog κ Unit) : List (Move κ) → Machine κ → History κ × Machine κ
  | [], m => ([], m)
  | mv :: mvs, m =>
    let (here, m) := m.step code mv
    let (there, m) := play code mvs m
    (here ++ there, m)

theorem play_append (code : κ → Invocation → Prog κ Unit) (xs ys : List (Move κ)) (m : Machine κ) :
    play code (xs ++ ys) m =
      ((play code xs m).1 ++ (play code ys (play code xs m).2).1,
        (play code ys (play code xs m).2).2) := by
  induction xs generalizing m with
  | nil => rfl
  | cons mv xs ih => simp [play, ih]

end Machine

end ActorSystem
