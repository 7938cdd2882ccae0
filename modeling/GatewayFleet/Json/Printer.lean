import GatewayFleet.Value
import GatewayFleet.Number.Layout

/-! Values written as JSON, either without any space or with one member or item a line, indented
by two spaces a level. Strings escape quotes, backslashes and control characters only. -/

namespace GatewayFleet.Json

def hexDigit (n : Nat) : Char := (Nat.digitChar n)

def escape (c : Char) : List Char :=
  match c with
  | '"' => ['\\', '"']
  | '\\' => ['\\', '\\']
  | '\x08' => ['\\', 'b']
  | '\x0C' => ['\\', 'f']
  | '\n' => ['\\', 'n']
  | '\r' => ['\\', 'r']
  | '\t' => ['\\', 't']
  | _ =>
    if c.toNat < 0x20 then
      ['\\', 'u', '0', '0', hexDigit (c.toNat / 16), hexDigit (c.toNat % 16)]
    else [c]

def quote (s : String) : String := String.ofList ('"' :: s.toList.flatMap escape ++ ['"'])

def number : Number → String
  | .int n => toString n
  | .float x => if x.isFinite then Number.Layout.json.write x else "null"

mutual

def compact : Value → String
  | .null => "null"
  | .bool true => "true"
  | .bool false => "false"
  | .number n => number n
  | .string s => quote s
  | .list items => "[" ++ compactItems items ++ "]"
  | .mapping fields => "\x7b" ++ compactFields fields ++ "\x7d"

def compactItems : List Value → String
  | [] => ""
  | [v] => compact v
  | v :: w :: rest => compact v ++ "," ++ compactItems (w :: rest)

def compactFields : List (String × Value) → String
  | [] => ""
  | [(k, v)] => quote k ++ ":" ++ compact v
  | (k, v) :: m :: rest => quote k ++ ":" ++ compact v ++ "," ++ compactFields (m :: rest)

end

def indent (level : Nat) : String := String.ofList (List.replicate (2 * level) ' ')

mutual

/-- The value with its first line where the writer stands and the others at their levels. -/
def prettyAt (level : Nat) : Value → String
  | .list (v :: rest) =>
    "[\n" ++ prettyItems (level + 1) (v :: rest) ++ "\n" ++ indent level ++ "]"
  | .mapping (m :: rest) =>
    "\x7b\n" ++ prettyFields (level + 1) (m :: rest) ++ "\n" ++ indent level ++ "\x7d"
  | .list [] => "[]"
  | .mapping [] => "\x7b\x7d"
  | .null => "null"
  | .bool true => "true"
  | .bool false => "false"
  | .number n => number n
  | .string s => quote s

def prettyItems (level : Nat) : List Value → String
  | [] => ""
  | [v] => indent level ++ prettyAt level v
  | v :: w :: rest => indent level ++ prettyAt level v ++ ",\n" ++ prettyItems level (w :: rest)

def prettyFields (level : Nat) : List (String × Value) → String
  | [] => ""
  | [(k, v)] => indent level ++ quote k ++ ": " ++ prettyAt level v
  | (k, v) :: m :: rest =>
    indent level ++ quote k ++ ": " ++ prettyAt level v ++ ",\n" ++ prettyFields level (m :: rest)

end

def pretty (v : Value) : String := prettyAt 0 v ++ "\n"

end GatewayFleet.Json
