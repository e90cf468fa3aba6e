import ActorSystem.Console
import ActorSystem.System.Messaging
import ActorSystem.Text.Blank

set_option autoImplicit false

namespace ActorSystem.System

variable {κ : Type}

def spawn (s : System κ) (name : String) : ActorRef × System κ :=
  let (id, ids) := s.ids.fresh
  (s.actors.size, { s with ids, actors := s.actors.push (.new id name s.config) })

/-- Starts an actor; one that has been started or closed is left as it is. -/
def ensureStarted (s : System κ) (r : ActorRef) : System κ := (s.start r).2

def ensureAll (s : System κ) (rs : List ActorRef) : System κ := rs.foldl ensureStarted s

def getOrCreate (s : System κ) (name : String) : ActorRef × System κ :=
  let (r, s) :=
    match s.names.get? name with
    | some r => (r, s)
    | none =>
      let (r, s) := s.spawn name
      (r, { s with names := s.names.insert name r })
  (r, if s.started then s.ensureStarted r else s)

def find (s : System κ) (name : String) : Option ActorRef := s.names.get? name

def require (s : System κ) (name : String) : Except Error ActorRef :=
  match s.find name with
  | some r => .ok r
  | none => .error (.actorNotFound name)

def spawnMembers (pool : String) : Nat → System κ → List ActorRef × System κ
  | 0, s => ([], s)
  | n + 1, s =>
    let (rs, s) := spawnMembers pool n s
    let (r, s) := s.spawn (pool ++ "_worker_" ++ toString (n + 1))
    (rs ++ [r], s)

def createWorkers (s : System κ) (name : String) (size : Nat) : Pool × System κ :=
  let (pool, s) :=
    match s.pools.get? name with
    | some pool => (pool, s)
    | none =>
      let (members, s) := spawnMembers name size s
      let pool : Pool := ⟨name, members, s.config.routeHash⟩
      (pool, { s with pools := s.pools.insert name pool })
  (pool, if s.started then s.ensureAll pool.members else s)

def findPool (s : System κ) (name : String) : Option Pool := s.pools.get? name

def startAll (s : System κ) : System κ := { s with started := true }.ensureAll s.refs

def closeAll (s : System κ) : System κ := s.refs.foldl close s

end ActorSystem.System

namespace ActorSystem.Pool

variable {κ : Type}

def size (p : Pool) : Nat := p.members.length

def route (p : Pool) (name : String) : Except Error ActorRef :=
  match p.members[p.hash.index name p.size]? with
  | some r => .ok r
  | none => .error (.emptyPool p.name)

/-- Registers on every member, also behind one that refuses, and reports the first refusal. -/
def broadcast (register : ActorRef → System κ → Except Error Unit × System κ) :
    List ActorRef → System κ → Except Error Unit × System κ
  | [], s => (.ok (), s)
  | r :: rs, s =>
    let (here, s) := register r s
    let (there, s) := broadcast register rs s
    (match here with
      | .ok () => there
      | .error e => .error e, s)

def registerMessage (p : Pool) (proto : UInt32) (handler : κ) (s : System κ) :
    Except Error Unit × System κ :=
  broadcast (fun r s => s.registerMessage r proto handler) p.members s

def registerRpc (p : Pool) (name : String) (handler : κ) (s : System κ) :
    Except Error Unit × System κ :=
  broadcast (fun r s => s.registerRpc r name handler) p.members s

def rpc (p : Pool) (name : String) (args : Args) (s : System κ) : Except Error Unit × System κ :=
  match p.route name with
  | .error e => (.error e, s)
  | .ok r => (.ok (), s.post r (.rpc ⟨none, name, args⟩))

def request (p : Pool) (name : String) (args : Args) (s : System κ) :
    Except Error CallRef × System κ :=
  match p.route name with
  | .error e => (.error e, s)
  | .ok r => s.request r name args

def close (p : Pool) (s : System κ) : System κ := p.members.foldl System.close s

end ActorSystem.Pool

namespace ActorSystem.System

variable {κ : Type}

/-- Issues a typed command as a call; nothing is queued for an unknown name. -/
def issue (s : System κ) (line : String) : Except Error Bool × System κ :=
  match Command.parse line with
  | none => (.ok false, s)
  | some c =>
    match s.require c.target with
    | .error e => (.error e, s)
    | .ok r =>
      if s.ask r false fun a => a.onRpc.contains c.rpc then
        (.ok true, s.post r (.rpc ⟨none, c.rpc, c.args⟩))
      else (.error (.handlerNotFound (rpcKey c.rpc)), s)

/-- Issues every line and counts those that became calls; a line that is no text stops it. -/
def issueLines : List (List UInt8) → Nat → System κ → Except Error Nat × System κ
  | [], n, s => (.ok n, s)
  | line :: lines, n, s =>
    match String.fromUTF8? ⟨line.toArray⟩ with
    | none => (.error (.io "stream did not contain valid UTF-8"), s)
    | some line =>
      match s.issue line with
      | (.ok true, s) => issueLines lines (n + 1) s
      | (_, s) => issueLines lines n s

def issueStream (s : System κ) (bytes : List UInt8) : Except Error Nat × System κ :=
  issueLines (Text.byteLines bytes) 0 s

end ActorSystem.System
