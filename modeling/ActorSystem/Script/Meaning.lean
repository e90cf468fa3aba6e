import ActorSystem.Script.Basic

/-!
The program of a script, action by action, and of the code that is run for an invocation.
-/

set_option autoImplicit false

namespace ActorSystem.Script

abbrev Run := Prog Code

def perform (o : Op Code) : Run o.Answer := Prog.perform o

def report (what : String) (finding : Finding) : Run Unit := perform (.report what finding)

structure Frame where
  args : Args
  script : List Action

def Expr.eval (f : Frame) : Expr → Run Value
  | .value v => pure v
  | .arg n => pure (f.args.values[n]?.getD .nil)
  | .stored key => do return (← perform (.lookup key)).getD .nil

def evalAll (f : Frame) : List Expr → Run (List Value)
  | [] => pure []
  | e :: es => do
    let v ← e.eval f
    let vs ← evalAll f es
    return v :: vs

def toward {α : Type} (name : String) (absent : α) (f : ActorRef → Run α) : Run α := do
  match ← perform (.find name) with
  | none => return absent
  | some r => f r

def storedNumber (key : Int32) : Run UInt64 := do
  return ((← perform (.lookup key)).bind Value.asUInt64).getD 0

def Action.run (f : Frame) : Action → Run Unit
  | .note text => report "note" (.text text)
  | .args => report "args" (.values f.args.values)
  | .done es => do
    let vs ← evalAll f es
    report "done" (.flag (← perform (.answer vs)))
  | .echo => do report "echo" (.flag (← perform (.answer f.args.values)))
  | .takeReply slot => do report "take_reply" (.flag (← perform (.keepReply slot)))
  | .reply slot es => do
    let vs ← evalAll f es
    match ← perform (.answerKept slot vs) with
    | none => report "reply" .nothing
    | some b => report "reply" (.flag b)
  | .dropReply slot => do report "drop_reply" (.flag (← perform (.dropKept slot)))
  | .store key e => do
    let v ← e.eval f
    perform (.put key v)
    report "store" .nothing
  | .get key => do report "get" (.stored (← perform (.lookup key)))
  | .remove key => do report "remove" (.stored (← perform (.erase key)))
  | .incr key => do
    let n := (← storedNumber key) + 1
    perform (.put key (.uint n))
    report "incr" (.count n.toNat)
  | .timer delay es script save => do
    let vs ← evalAll f es
    let id ← perform (.setTimer delay (.script script) ⟨vs⟩ [])
    match save with
    | none => pure ()
    | some key => perform (.put key (.uint id))
    report "timer" (.handle id)
  | .rearm delay => do
    report "rearm" (.handle (← perform (.setTimer delay (.script f.script) f.args [])))
  | .cancel key => do
    let id ← storedNumber key
    report "cancel" (.flag (← perform (.cancelTimer id)))
  | .cancelId id => do report "cancel_id" (.flag (← perform (.cancelTimer id)))
  | .stats => do
    match ← perform .timerStats with
    | none => report "stats" .nothing
    | some s => report "stats" (.timers s)
  | .now => do report "now" (.count (← perform .now).toNat)
  | .context => do
    match ← perform .look with
    | none => report "ctx" .nothing
    | some g => report "ctx" (.glimpse g)
  | .debug => do
    match ← perform .look with
    | none => report "debug" .nothing
    | some g => report "debug" (.text g.shown)
  | .agent id => do
    let agent ← perform (.agent id)
    report "agent" (.agent (agent.map Agent.id))
  | .component id => do
    let c ← perform (.component id)
    report "component" (.component (c.map fun c => (c.id, c.kind)))
  | .read kind index => report "read" (.reading (f.args.readAs index kind))
  | .call target name es => do
    let vs ← evalAll f es
    toward target () fun r => perform (.call r name ⟨vs⟩)
    report "call" .nothing
  | .rpc target name es => do
    let vs ← evalAll f es
    toward target () fun r => perform (.post r (.rpc ⟨none, name, ⟨vs⟩⟩))
    report "rpc" .nothing
  | .exec target script => do
    toward target () fun r => perform (.post r (.custom (.script script)))
    report "exec" .nothing
  | .close target => do
    toward target () fun r => perform (.close r)
    report "close" .nothing
  | .await target name => do
    let finding ← toward target .nothing fun r => do
      return .reply (← perform (.await r name .empty))
    report "await" finding
  | .onRpc target name script => do
    let finding ← toward target .nothing fun r => do
      return .outcome (← perform (.registerRpc r name (.script script)))
    report "on_rpc" finding
  | .join => report "join" .nothing
  | .inspect target => do
    let finding ← toward target .nothing fun r => do
      let pending ← perform (.backlog r)
      match ← perform (.inspect r) with
      | none => return .nothing
      | some s => return .status s pending
    report "inspect" finding
  | .panic => Prog.panic

def runAll (f : Frame) : List Action → Run Unit
  | [] => pure ()
  | a :: rest => do
    a.run f
    runAll f rest

def runScript (args : Args) (script : List Action) : Run Unit := runAll ⟨args, script⟩ script

def argsOf : Invocation → Args
  | .message payload => ⟨[payload]⟩
  | .rpc args | .timer args => args
  | _ => .empty

def Manager.run (m : Manager) : Invocation → Run Unit
  | .componentCreated id => do
    report "on_create" (.count id.toNat)
    runScript .empty m.onCreate
  | .componentFailed e => do
    report "on_error" (.failure e)
    runScript .empty m.onError
  | .linkerConnected agent => do
    report "on_connected" (.count agent.id.toNat)
    runScript .empty m.onConnected
  | .linkerClosed agent e => do
    report "on_closed" (.linkClosed agent.id e)
    runScript .empty m.onClosed
  | _ => pure ()

def Code.run : Code → Invocation → Run Unit
  | .script actions, i => runScript (argsOf i) actions
  | .manager m, i => m.run i
  | .passive, _ => pure ()

end ActorSystem.Script
