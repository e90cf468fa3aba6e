import ActorSystem.Text.Blank
import ActorSystem.Value.Args

set_option autoImplicit false

namespace ActorSystem

structure Command where
  target : String
  rpc : String
  args : Args
  deriving Repr

def Command.parse (line : String) : Option Command :=
  match Text.words line with
  | target :: rpc :: rest => some ⟨target, rpc, ⟨rest.map .str⟩⟩
  | _ => none

end ActorSystem
