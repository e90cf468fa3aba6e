import ActorSystem.Scenario.Run
import ActorSystem.System.Lifetime

set_option autoImplicit false

namespace ActorSystem.Scenario

open Script (Action Code)

abbrev NamedCall := String × String × Args

structure Life where
  config : Config
  clock : UInt64
  actors : List (String × List (String × List Action))
  queue : List NamedCall
  signal : Except String Unit
  hook : List NamedCall
  late : List NamedCall

structure Lived where
  outcome : Except Error Unit
  leftRunning : Bool
  hook : List (Except Error (List Value))
  reports : List (String × List (String × Finding))
  statuses : List (Status × Int)
  late : List (Except Error (List Value))

def setUp (l : Life) : System Code :=
  let s : System Code := .new l.config ⟨l.clock⟩
  let s := l.actors.foldl
    (fun s (name, rpcs) =>
      let (r, s) := s.getOrCreate name
      rpcs.foldl (fun s (rpc, script) => (s.registerRpc r rpc (.script script)).2) s)
    s
  l.queue.foldl
    (fun s (target, name, args) =>
      match s.find target with
      | some r => s.post r (.rpc ⟨none, name, args⟩)
      | none => s)
    s

def reportsOf (s : System Code) (r : ActorRef) : List (String × Finding) :=
  s.journal.toList.filterMap fun
    | .report actor what finding => if actor = nameOf s r then some (what, finding) else none
    | _ => none

def live (l : Life) : Option Lived := do
  let (outcome, hook, s) ←
    (setUp l).runUntil Code.run patience l.signal (System.callEach Code.run patience l.hook)
  let leftRunning := s.refs.any fun r => s.ask r false fun a => a.phase != .closed
  let s ← s.closeDown Code.run patience
  let (late, s) ← s.callEach Code.run patience l.late
  return {
    outcome
    leftRunning
    hook := hook.getD []
    reports := (s.refs.map fun r => (nameOf s r, reportsOf s r)).filter fun e => !e.2.isEmpty
    statuses := s.refs.map (statusOf s)
    late }

structure Routes where
  name : String
  size : Nat
  routes : List (Except Error (ActorId × String))

def routes (pool : String) (size : Nat) (hash : RouteHash) (names : List String) : Routes :=
  let start : System Code := .new { routeHash := hash } ⟨0⟩
  let (p, s) := start.createWorkers pool size
  ⟨p.name, p.size, names.map fun name => (p.route name).map fun r => (idOf s r, nameOf s r)⟩

/-- What can be seen of names that are looked up in a system that is never started. -/
structure Lookup where
  first : List Nat
  growing : Bool
  found : Bool
  started : Bool
  batchSize : Nat

def lookUp (names : List String) : Lookup :=
  let s : System Code := names.foldl (fun s name => (s.getOrCreate name).2) (.new {} ⟨0⟩)
  let ids := names.map fun name => (s.find name).map (idOf s)
  let (a, ids') := s.ids.fresh
  let (b, _) := ids'.fresh
  { first := ids.map fun id => ids.findIdx (· == id)
    growing := decide (a < b) && ids.all fun id => decide (id.getD 0 < a)
    found := ids.all Option.isSome
    started := s.started
    batchSize := s.config.batchSize }

end ActorSystem.Scenario
