import GatewayFleet.Number.Layout
import GatewayFleet.Text.Invisible
import GatewayFleet.Value

/-! How a message speaks of a value that does not fit: by its kind, and by the value itself when it
is a scalar. Texts are quoted, with everything that cannot be seen written by its code point. -/

namespace GatewayFleet.Value

def showChar (c : Char) : List Char :=
  match c with
  | '"' => ['\\', '"']
  | '\\' => ['\\', '\\']
  | '\n' => ['\\', 'n']
  | '\r' => ['\\', 'r']
  | '\t' => ['\\', 't']
  | '\x00' => ['\\', '0']
  | _ =>
    if Text.isInvisible c then '\\' :: 'u' :: '\x7b' :: Nat.toDigits 16 c.toNat ++ ['\x7d'] else [c]

def showString (s : String) : String := String.ofList ('"' :: s.toList.flatMap showChar ++ ['"'])

def describe : Value → String
  | .null => "null"
  | .bool true => "boolean `true`"
  | .bool false => "boolean `false`"
  | .number (.int n) => "integer `" ++ toString n ++ "`"
  | .number (.float x) => "floating point `" ++ Number.Layout.json.write x ++ "`"
  | .string s => "string " ++ showString s
  | .list _ => "sequence"
  | .mapping _ => "map"

end GatewayFleet.Value
