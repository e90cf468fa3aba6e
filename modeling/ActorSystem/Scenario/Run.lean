import ActorSystem.Scenario.Basic
import ActorSystem.Script.Meaning
import ActorSystem.System.Registry
import ActorSystem.System.Watched

/-!
The meaning of the steps of a scenario.
-/

set_option autoImplicit false

namespace ActorSystem.Scenario

open Script (Code)

/-- Rounds of one turn and passes of one run before a scenario is given up as endless. -/
def patience : Nat := 1000000

def settle (s : System Code) : System Code := (s.runWatched Code.run patience).getD s

/-- Closings of components and of agents happen in no particular order; they are told apart by kind
and ordered by number. -/
def closing? : Entry → Option (Bool × UInt64)
  | .componentClosed id _ => some (false, id)
  | .agentClosed agent => some (true, agent.id)
  | _ => none

def sameKind (a b : Entry) : Bool :=
  match closing? a, closing? b with
  | some x, some y => x.1 == y.1
  | _, _ => false

def byNumber (a b : Entry) : Bool :=
  match closing? a, closing? b with
  | some x, some y => decide (x.2 ≤ y.2)
  | _, _ => true

def ordered (entries : List Entry) : List Entry :=
  (entries.splitBy sameKind).flatMap fun run => run.mergeSort byNumber

def agentOf (id : AgentId) : Agent := ⟨id, 0⟩

def actorOf (s : State) (name : String) : ActorRef := (s.system.locate name).getD s.system.actors.size

def managerCode (s : State) (name : String) : Code :=
  match s.managers.get? name with
  | some m => .manager m
  | none => .passive

def takeComponent (s : State) : ComponentSource → Component × State
  | .fresh c => (c, { s with components := s.components.insert c.id c })
  | .known id => ((s.components.get? id).getD ⟨id, .nil, .tcpServer, .started⟩, s)

def statusOf (s : System Code) (r : ActorRef) : Status × Int :=
  s.ask r (⟨0, "", .created, 0, 0⟩, 0) fun a => (a.status, a.mailbox.pending)

def idOf (s : System Code) (r : ActorRef) : ActorId := s.ask r 0 Actor.id

def nameOf (s : System Code) (r : ActorRef) : String := s.ask r "" Actor.name

def withSystem {α : Type} (s : State) (f : System Code → α × System Code) : α × State :=
  let (x, system) := f s.system
  (x, { s with system })

def change (s : State) (f : System Code → System Code) : State := { s with system := f s.system }

def outcome (s : State) (f : System Code → Except Error Unit × System Code) : Answer × State :=
  let (r, s) := withSystem s f
  (.outcome r, s)

def post (s : State) (actor : String) (p : Post Code) : Answer × State :=
  (.nothing, change s fun sys => sys.post (actorOf s actor) p)

def poolOf (s : State) (name : String) : Pool :=
  (s.system.findPool name).getD ⟨name, [], s.system.config.routeHash⟩

def request (s : State) (target : Target) (name : String) (args : Args) :
    Except Error CallRef × State :=
  withSystem s fun sys =>
    match target with
    | .actor a => sys.request (actorOf s a) name args
    | .pool p => (poolOf s p).request name args sys

def abandon (s : State) (id : String) : Bool × State :=
  match s.calls.get? id with
  | none => (false, s)
  | some c =>
    (true, { s with system := (s.system.settle c .abandoned).2, calls := s.calls.erase id })

def awaitReply (s : System Code) (r : Except Error CallRef) :
    Except Error (List Value) × System Code :=
  let s := settle s
  match r with
  | .error e => (.error e, s)
  | .ok c => ((s.result? c).getD (.ok []), s)

def step (s : State) : Step → Answer × State
  | .actor name =>
    let (r, s) := withSystem s fun sys => sys.getOrCreate name
    let s := if s.system.started then change s settle else s
    (.number (idOf s.system r).toNat, s)
  | .pool name size =>
    let (pool, s) := withSystem s fun sys => sys.createWorkers name size
    let s := if s.system.started then change s settle else s
    (.members (pool.members.map fun r => (idOf s.system r, nameOf s.system r)), s)
  | .start => (.outcome (.ok ()), change s fun sys => settle sys.startAll)
  | .startOne name =>
    let (r, s) := withSystem s fun sys => sys.start (actorOf s name)
    match r with
    | .ok () => (.outcome r, change s settle)
    | .error _ => (.outcome r, s)
  | .run => (.nothing, change s settle)
  | .advance ms =>
    let s := change s fun sys => { sys with clock := sys.clock.advance ms }
    (.number s.system.clock.now.toNat, s)
  | .setClock ms =>
    let s := change s fun sys => { sys with clock := sys.clock.set ms }
    (.number s.system.clock.now.toNat, s)
  | .onRpc target name script =>
    outcome s fun sys =>
      match target with
      | .actor a => sys.registerRpc (actorOf s a) name (.script script)
      | .pool p => (poolOf s p).registerRpc name (.script script) sys
  | .onMessage target proto script =>
    outcome s fun sys =>
      match target with
      | .actor a => sys.registerMessage (actorOf s a) proto (.script script)
      | .pool p => (poolOf s p).registerMessage proto (.script script) sys
  | .hasRpc a name =>
    (.flag (s.system.ask (actorOf s a) false fun a => a.onRpc.contains name), s)
  | .rpc target name args =>
    match target with
    | .actor a => post s a (.rpc ⟨none, name, args⟩)
    | .pool p => outcome s fun sys => (poolOf s p).rpc name args sys
  | .call id target name args =>
    let (r, s) := request s target name args
    match r with
    | .error e => (.failed e, s)
    | .ok c =>
      let (_, s) := abandon s id
      (.pending, { s with calls := s.calls.insert id c })
  | .expire id =>
    match s.calls.get? id with
    | none => (.nothing, s)
    | some c =>
      let s := change s fun sys => (sys.settle c .timedOut).2
      let r := (s.system.result? c).map Answer.reply
      (r.getD .nothing, { s with calls := s.calls.erase id })
  | .dropCall id =>
    let (b, s) := abandon s id
    (.flag b, s)
  | .await target name args =>
    let (r, s) := request s target name args
    let (reply, s) := withSystem s fun sys => awaitReply sys r
    (.reply reply, s)
  | .awaitInside name => (.failed (.blockingInside name), change s settle)
  | .post a kind agent via extra => post s a (.session kind (agent.map agentOf) via extra)
  | .data a kind proto agent payload => post s a (.data kind (agent.map agentOf) proto payload)
  | .manager name m => (.nothing, { s with managers := s.managers.insert name m })
  | .addComponent a c manager =>
    let (c, s) := takeComponent s c
    post s a (.component .componentCreate c (some (managerCode s manager)) none)
  | .componentError a c e =>
    let (c, s) := takeComponent s c
    post s a (.component .componentError c none (some e))
  | .pushComponent a kind c manager e =>
    let (c, s) := takeComponent s c
    post s a (.component kind c (manager.map (managerCode s)) e)
  | .exec a script => post s a (.custom (.script script))
  | .close target =>
    (.nothing, change s fun sys =>
      match target with
      | .actor a => sys.close (actorOf s a)
      | .pool p => (poolOf s p).close sys)
  | .closeAll => (.nothing, change s fun sys => settle sys.closeAll)
  | .inspect a =>
    let (status, pending) := statusOf s.system (actorOf s a)
    (.status status pending, s)
  | .inspectAll => (.statuses (s.system.refs.map (statusOf s.system)), s)
  | .debug a => (.text (statusOf s.system (actorOf s a)).1.shown, s)
  | .find name =>
    match s.system.find name with
    | some r => (.number (idOf s.system r).toNat, s)
    | none => (.nothing, s)
  | .require name =>
    match s.system.require name with
    | .ok r => (.number (idOf s.system r).toNat, s)
    | .error e => (.failed e, s)
  | .findPool name =>
    match s.system.findPool name with
    | some p => (.number p.size, s)
    | none => (.nothing, s)
  | .actors =>
    let rs := s.system.names.values.mergeSort fun x y => decide (x ≤ y)
    (.members (rs.map fun r => (idOf s.system r, nameOf s.system r)), s)
  | .started => (.flag s.system.started, s)
  | .nextId =>
    let (id, ids) := s.system.ids.fresh
    (.number id.toNat, change s fun sys => { sys with ids })
  | .route pool name =>
    match (poolOf s pool).route name with
    | .ok r => (.text (nameOf s.system r), s)
    | .error e => (.failed e, s)
  | .console line =>
    let (r, s) := withSystem s fun sys => sys.issue line
    match r with
    | .ok b => (.flag b, s)
    | .error e => (.failed e, s)
  | .consoleRead bytes =>
    let (r, s) := withSystem s fun sys => sys.issueStream bytes
    match r with
    | .ok n => (.number n, s)
    | .error e => (.failed e, s)

/-- The pending calls that are over, by name, and the state without them. -/
def harvest (s : State) : List (String × Except Error (List Value)) × State :=
  let ended := s.calls.entries.filterMap fun (id, c) => (s.system.result? c).map fun r => (id, r)
  (ended.mergeSort fun x y => decide (x.1 ≤ y.1),
    { s with calls := ended.foldl (fun t e => t.erase e.1) s.calls })

def observe (s : State) (st : Step) : Result × State :=
  let seen := s.system.journal.size
  let (answer, s) := step s st
  let (ended, s) := harvest s
  (⟨answer, ordered (s.system.journal.toList.drop seen), ended⟩, s)

def play (s : State) : List Step → List Result
  | [] => []
  | st :: rest =>
    let (r, s) := observe s st
    r :: play s rest

end ActorSystem.Scenario
