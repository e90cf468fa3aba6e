import ActorSystem.Decimal
import ActorSystem.Text.Quoted
import ActorSystem.Value.Args

set_option autoImplicit false

namespace ActorSystem

def shownOption (v : Option String) : String :=
  match v with
  | none => "None"
  | some s => "Some(" ++ s ++ ")"

mutual

/-- The constructor's name with what it carries; a shared object hides its content. -/
def Value.shown : Value → String
  | .nil => "Nil"
  | .bool b => "Bool(" ++ toString b ++ ")"
  | .int n => "Int(" ++ toString n.toInt ++ ")"
  | .uint n => "UInt(" ++ toString n.toNat ++ ")"
  | .float x => "Float(" ++ Decimal.ofBinary64 x ++ ")"
  | .str s => "Str(" ++ Text.quoted s ++ ")"
  | .bytes data => "Bytes(" ++ Text.quotedBytes data ++ ")"
  | .list items => "List([" ++ Value.shownItems items ++ "])"
  | .shared _ => "Any(..)"

def Value.shownItems : List Value → String
  | [] => ""
  | [v] => v.shown
  | v :: vs => v.shown ++ ", " ++ Value.shownItems vs

end

def Args.shown (a : Args) : String := "Args([" ++ Value.shownItems a.values ++ "])"

end ActorSystem
