import ActorSystem.Actor.Basic

/-!
How an actor takes an event in: what changes in its maps, what the handler will see, and which code
is to run. Nothing runs here. An event sets only what it brings along; all else that the handler sees
stays as the last dispatch has left it.
-/

set_option autoImplicit false

namespace ActorSystem

inductive Work (κ : Type) where
  | nothing
  | run (code : κ) (i : Invocation)
  | crash

structure Reaction (κ : Type) where
  actor : Actor κ
  work : Work κ
  started : Option Component
  /-- The call whose reply is given up: that of an event without a handler, or one left over from
  another dispatch, when a new reply takes its place. -/
  unanswered : Option CallRef

namespace Actor

variable {κ : Type}

def reaction (a : Actor κ) (fill : Dispatch → Dispatch) (work : Work κ) : Reaction κ :=
  ⟨{ a with dispatch := fill a.dispatch }, work, none, none⟩

def ignore (a : Actor κ) : Reaction κ := ⟨a, .nothing, none, none⟩

def attachment (extra : Args) : Option Value :=
  if extra.isEmpty then none else some (.list extra.values)

def managed (a : Actor κ) (id : ComponentId) (i : Invocation) : Work κ :=
  match a.managers.get? id with
  | some m => .run m i
  | none => .nothing

def onData (a : Actor κ) (agent : Option Agent) (proto : UInt32) (payload : Value) :
    Reaction κ :=
  match a.onMessage.get? proto with
  | some h => a.reaction (fun d => { d with sender := agent }) (.run h (.message payload))
  | none => a.ignore

def onCall (a : Actor κ) (r : Request) (reply : Option CallRef) : Reaction κ :=
  match a.onRpc.get? r.name with
  | some h =>
    { a.reaction (fun d => { d with senderActor := r.sender, reply }) (.run h (.rpc r.args)) with
      unanswered := a.dispatch.reply }
  | none => { a.ignore with unanswered := reply }

def onEntered (a : Actor κ) (agent : Option Agent) (via : ComponentId) : Reaction κ :=
  match agent with
  | none => a.ignore
  | some agent =>
    (a.connect agent).reaction
      (fun d => { d with sender := some agent, component := a.components.get? via })
      (a.managed via (.linkerConnected agent))

def onClosed (a : Actor κ) (agent : Option Agent) (via : ComponentId) (extra : Args) :
    Reaction κ :=
  match agent with
  | none => a.ignore
  | some agent =>
    let e := (extra.readStr 0).toOption.map fun reason => ComponentError.closed via reason
    (a.disconnect agent.id).reaction
      (fun d => { d with
        sender := some agent, component := a.components.get? via,
        attachment := Actor.attachment extra })
      (a.managed via (.linkerClosed agent e))

def onConnectFailed (a : Actor κ) (via : ComponentId) (extra : Args) : Reaction κ :=
  let reason := (extra.readStr 0).toOption.getD "connect failed"
  a.reaction
    (fun d => { d with
      component := a.components.get? via, attachment := Actor.attachment extra })
    (a.managed via (.componentFailed (.connectFailed via reason)))

/-- A component comes in once; what comes under its number later is ignored. -/
def onCreated (a : Actor κ) (c : Component) (manager : Option κ) : Reaction κ :=
  if a.components.contains c.id then a.ignore
  else
    let work : Work κ :=
      match c.start, manager with
      | .panicked, _ => .crash
      | .started, some m => .run m (.componentCreated c.id)
      | .failed e, some m => .run m (.componentFailed e)
      | _, none => .nothing
    let managers :=
      match manager with
      | some m => a.managers.insert c.id m
      | none => a.managers
    { { a with components := a.components.insert c.id c, managers }.reaction
        (fun d => { d with component := some c }) work with
      started := some c }

def onFailed (a : Actor κ) (c : Component) (e : Option ComponentError) : Reaction κ :=
  a.reaction (fun d => { d with component := some c })
    (a.managed c.id (.componentFailed (e.getD (.closed c.id "unspecified"))))

def onPost (a : Actor κ) : Post κ → Reaction κ
  | .data _ agent proto payload => a.onData agent proto payload
  | .rpc r => a.onCall r none
  | .session kind agent via extra =>
    match kind with
    | .tcpConnected | .tcpAccepted => a.onEntered agent via
    | .tcpClosed => a.onClosed agent via extra
    | .tcpConnectFailed => a.onConnectFailed via extra
    | _ => a.ignore
  | .component kind c manager e =>
    match kind with
    | .componentCreate => a.onCreated c manager
    | .componentError => a.onFailed c e
    | _ => a.ignore
  | .custom action => { a.ignore with work := .run action .action }

def react (a : Actor κ) : Event κ → Reaction κ
  | .post p => a.onPost p
  | .awaitRpc r call => a.onCall r (some call)
  | .errand action replies =>
    a.reaction (fun d => { d with hand := replies }) (.run action .action)

end Actor

end ActorSystem
