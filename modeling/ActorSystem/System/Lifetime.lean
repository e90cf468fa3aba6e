import ActorSystem.System.Registry
import ActorSystem.System.Turn

set_option autoImplicit false

namespace ActorSystem.System

variable {κ : Type}

def closeDown (code : κ → Invocation → Prog κ Unit) (limit : Nat) (s : System κ) :
    Option (System κ) :=
  s.closeAll.run code limit

/-- Runs until the signal, which is an error text if it fails. The hook may call actors, which still
run; there is no result of a hook that has not run. -/
def runUntil {ρ : Type} (code : κ → Invocation → Prog κ Unit) (limit : Nat)
    (signal : Except String Unit) (hook : System κ → Option (ρ × System κ)) (s : System κ) :
    Option (Except Error Unit × Option ρ × System κ) := do
  let s ← s.startAll.run code limit
  match signal with
  | .error text => return (.error (.io text), none, s)
  | .ok () =>
    let (r, s) ← hook s
    let s ← s.closeDown code limit
    return (.ok (), some r, s)

/-- Calls an actor by name and lets the system run; no result if the reply does not come. -/
def callByName (code : κ → Invocation → Prog κ Unit) (limit : Nat) (target name : String)
    (args : Args) (s : System κ) : Option (Except Error (List Value) × System κ) :=
  match s.require target with
  | .error e => some (.error e, s)
  | .ok r =>
    match s.request r name args with
    | (.error e, s) => some (.error e, s)
    | (.ok c, s) => do
      let s ← s.run code limit
      return (← s.result? c, s)

def callEach (code : κ → Invocation → Prog κ Unit) (limit : Nat) :
    List (String × String × Args) → System κ → Option (List (Except Error (List Value)) × System κ)
  | [], s => some ([], s)
  | (target, name, args) :: rest, s => do
    let (r, s) ← s.callByName code limit target name args
    let (rs, s) ← callEach code limit rest s
    return (r :: rs, s)

end ActorSystem.System
