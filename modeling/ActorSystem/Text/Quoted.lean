import ActorSystem.Text.Unprintable

set_option autoImplicit false

namespace ActorSystem.Text

def hexDigit (n : Nat) : Char := (Nat.toDigits 16 (n % 16)).headD '0'

def hexByte (b : UInt8) : String := String.ofList [hexDigit (b.toNat / 16), hexDigit b.toNat]

def hex (bytes : List UInt8) : String := String.join (bytes.map hexByte)

/-- Unprintable characters are written by code point, in hexadecimal without padding. -/
def quotedChar (c : Char) : String :=
  match c with
  | '"' => "\\\""
  | '\\' => "\\\\"
  | '\n' => "\\n"
  | '\r' => "\\r"
  | '\t' => "\\t"
  | '\x00' => "\\0"
  | c =>
    if isUnprintable c then "\\u\x7b" ++ String.ofList (Nat.toDigits 16 c.toNat) ++ "\x7d"
    else c.toString

def quoted (s : String) : String := "\"" ++ String.join (s.toList.map quotedChar) ++ "\""

def quotedByte (b : UInt8) : String :=
  let n := b.toNat
  if n = 10 then "\\n"
  else if n = 13 then "\\r"
  else if n = 9 then "\\t"
  else if n = 92 then "\\\\"
  else if n = 34 then "\\\""
  else if n = 0 then "\\0"
  else if 32 ≤ n ∧ n < 127 then (Char.ofNat n).toString
  else "\\x" ++ hexByte b

def quotedBytes (bytes : List UInt8) : String :=
  "b\"" ++ String.join (bytes.map quotedByte) ++ "\""

end ActorSystem.Text
