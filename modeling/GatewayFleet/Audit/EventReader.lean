import GatewayFleet.Audit.Event
import GatewayFleet.Json.Skip
import GatewayFleet.Value.Describe

/-! Reading records. A record is an object, or a list of its members in their usual order. Members
are checked one after the other as the text goes on, so the first fault in the text is the one that
is reported; names that are not known are passed over. -/

namespace GatewayFleet.Audit

inductive Member
  | time | deed | actor | instanceId | details
deriving DecidableEq

def Member.name : Member → String
  | .time => "ts"
  | .deed => "action"
  | .actor => "actor"
  | .instanceId => "instance"
  | .details => "details"

def Member.ofName? : String → Option Member
  | "ts" => some .time
  | "action" => some .deed
  | "actor" => some .actor
  | "instance" => some .instanceId
  | "details" => some .details
  | _ => none

inductive EventProblem
  | json (reason : Json.Reason)
  | missing (m : Member)
  | repeated (m : Member)
  | unknownDeed (name : String)
  | mismatch (found : Value) (expected : String)
  | time (problem : TimeProblem)
  | tooFew (count : Nat)

def EventProblem.text : EventProblem → String
  | .json reason => reason.text
  | .missing m => "missing field `" ++ m.name ++ "`"
  | .repeated m => "duplicate field `" ++ m.name ++ "`"
  | .unknownDeed name =>
    "unknown variant `" ++ name ++ "`, expected one of `agent_add`, `agent_remove`, `render`"
  | .mismatch found expected => "invalid type: " ++ found.describe ++ ", expected " ++ expected
  | .time problem => problem.text
  | .tooFew count =>
    "invalid length " ++ toString count ++ ", expected struct Event with 5 elements"

structure EventFault where
  problem : EventProblem
  stop : Json.Stop

def EventFault.message (whole : String) (f : EventFault) : String :=
  f.problem.text ++ (f.stop.position whole.toList).suffix

namespace EventReader

abbrev Step (α : Type) := Except EventFault (α × List Char)

def fault (p : EventProblem) (left : List Char) : Except EventFault α := .error ⟨p, ⟨left, 0⟩⟩

def fromJson (r : Except Json.Fault α) : Except EventFault α :=
  r.mapError fun f => ⟨.json f.reason, f.stop⟩

def peeked (r : Json.Reason) (s : List Char) : Except EventFault α := fromJson (Json.peeked r s)

/-- Reports a value that stands where something else is expected. Of a container only the bracket
is looked at. -/
def wrongType (expected : String) (s : List Char) : Except EventFault α :=
  match Json.skipSpace s with
  | [] => peeked .endInValue []
  | '[' :: r => fault (.mismatch (.list []) expected) ('[' :: r)
  | '{' :: r => fault (.mismatch (.mapping []) expected) ('{' :: r)
  | rest =>
    match fromJson (Json.readValue Json.maxDepth rest) with
    | .error f => .error f
    | .ok (v, left) => fault (.mismatch v expected) left

def readText (expected : String) (s : List Char) : Except EventFault (String × List Char) :=
  match Json.skipSpace s with
  | '"' :: r => fromJson ((Json.readString r).map fun (cs, left) => (String.ofList cs, left))
  | rest => wrongType expected rest

def readTime (s : List Char) : Except EventFault (Timestamp × List Char) := do
  let (text, left) ← readText "an RFC 3339 formatted date and time string" s
  match Timestamp.read text with
  | .ok t => pure (t, left)
  | .error problem => fault (.time problem) left

def deedOf (name : String) (left : List Char) : Except EventFault (Deed × List Char) :=
  match Deed.ofName? name with
  | some deed => .ok (deed, left)
  | none => fault (.unknownDeed name) left

def readColon (s : List Char) : Except EventFault (List Char) :=
  match Json.skipSpace s with
  | ':' :: r => .ok r
  | [] => peeked .endInObject []
  | rest => peeked .expectedColon rest

/-- A deed written as an object: its name with null. -/
def readLongDeed (s : List Char) : Except EventFault (Deed × List Char) := do
  let (name, left) ← readText "variant identifier" s
  let (deed, left) ← deedOf name left
  let left ← readColon left
  let left ← match Json.skipSpace left with
    | 'n' :: r => fromJson (Json.readWord ['u', 'l', 'l'] r)
    | rest => wrongType "unit" rest
  match Json.skipSpace left with
  | '}' :: r => pure (deed, r)
  | [] => fault (.json .endInObject) []
  | rest => fault (.json .expectedValue) rest

def readDeed (s : List Char) : Except EventFault (Deed × List Char) :=
  match Json.skipSpace s with
  | [] => peeked .endInValue []
  | '"' :: r => do
    let (name, left) ← readText "variant identifier" ('"' :: r)
    deedOf name left
  | '{' :: r => readLongDeed r
  | rest => peeked .expectedValue rest

def readOptional (s : List Char) : Except EventFault (Option String × List Char) :=
  match Json.skipSpace s with
  | 'n' :: r => fromJson ((Json.readWord ['u', 'l', 'l'] r).map (none, ·))
  | rest => (readText "a string" rest).map fun (text, left) => (some text, left)

def readDetails (s : List Char) : Except EventFault (Value × List Char) :=
  fromJson (Json.readValue (Json.maxDepth - 1) s)

structure Draft where
  time : Option Timestamp := none
  deed : Option Deed := none
  actor : Option String := none
  instanceId : Option (Option String) := none
  details : Option Value := none

def Draft.has (d : Draft) : Member → Bool
  | .time => d.time.isSome
  | .deed => d.deed.isSome
  | .actor => d.actor.isSome
  | .instanceId => d.instanceId.isSome
  | .details => d.details.isSome

def Draft.readMember (d : Draft) (m : Member) (s : List Char) :
    Except EventFault (Draft × List Char) :=
  match m with
  | .time => (readTime s).map fun (v, left) => ({ d with time := some v }, left)
  | .deed => (readDeed s).map fun (v, left) => ({ d with deed := some v }, left)
  | .actor => (readText "a string" s).map fun (v, left) => ({ d with actor := some v }, left)
  | .instanceId => (readOptional s).map fun (v, left) => ({ d with instanceId := some v }, left)
  | .details => (readDetails s).map fun (v, left) => ({ d with details := some v }, left)

/-- The record that is complete when its text ends here. The instance may be missing. -/
def Draft.finish (d : Draft) (left : List Char) : Except EventFault Event :=
  match d.time, d.deed, d.actor, d.details with
  | none, _, _, _ => fault (.missing .time) left
  | _, none, _, _ => fault (.missing .deed) left
  | _, _, none, _ => fault (.missing .actor) left
  | _, _, _, none => fault (.missing .details) left
  | some time, some deed, some actor, some details =>
    .ok ⟨time, deed, actor, d.instanceId.getD none, details⟩

def readName (first : Bool) (s : List Char) :
    Except EventFault (Option String × List Char) :=
  let named (s : List Char) : Except EventFault (Option String × List Char) :=
    match s with
    | '"' :: r => fromJson ((Json.readString r).map fun (cs, left) =>
        (some (String.ofList cs), left))
    | '}' :: _ => peeked .trailingComma s
    | [] => peeked .endInValue []
    | _ => peeked .keyNotString s
  match Json.skipSpace s with
  | [] => peeked .endInObject []
  | '}' :: r => .ok (none, r)
  | c :: r =>
    if first then named (c :: r)
    else if c = ',' then named (Json.skipSpace r)
    else peeked .expectedObjectEnd (c :: r)

def Draft.take (d : Draft) (name : String) (s : List Char) :
    Except EventFault (Draft × List Char) := do
  match Member.ofName? name with
  | some m =>
    if d.has m then fault (.repeated m) (Json.skipSpace s)
    d.readMember m (← readColon s)
  | none => pure (d, ← fromJson (Json.skipValue (← readColon s)))

def readMembers (first : Bool) (d : Draft) (s : List Char) :
    Except EventFault (Event × List Char) := do
  match ← readName first s with
  | (none, left) => pure (← d.finish left, left)
  | (some name, left) =>
    let (d, left) ← d.take name left
    if _h : left.length < s.length then readMembers false d left
    else peeked .endInObject left
termination_by s.length
decreasing_by exact _h

def readItem (first : Bool) (m : Member) (count : Nat) (d : Draft) (s : List Char) :
    Except EventFault (Draft × List Char) :=
  match Json.skipSpace s with
  | [] => peeked .endInList []
  | ']' :: r => fault (.tooFew count) r
  | c :: r =>
    if first then d.readMember m (c :: r)
    else if c = ',' then
      match Json.skipSpace r with
      | [] => peeked .endInValue []
      | ']' :: r => peeked .trailingComma (']' :: r)
      | rest => d.readMember m rest
    else peeked .expectedListEnd (c :: r)

def readListEnd (s : List Char) : Except EventFault (List Char) :=
  match Json.skipSpace s with
  | [] => peeked .endInList []
  | ']' :: r => .ok r
  | ',' :: r =>
    match Json.skipSpace r with
    | ']' :: r => peeked .trailingComma (']' :: r)
    | rest => peeked .trailingCharacters rest
  | rest => peeked .trailingCharacters rest

def readList (s : List Char) : Except EventFault (Event × List Char) := do
  let (d, s) ← readItem true .time 0 {} s
  let (d, s) ← readItem false .deed 1 d s
  let (d, s) ← readItem false .actor 2 d s
  let (d, s) ← readItem false .instanceId 3 d s
  let (d, s) ← readItem false .details 4 d s
  let s ← readListEnd s
  pure (← d.finish s, s)

end EventReader

open EventReader in
def Event.read (text : String) : Except EventFault Event := do
  let (e, left) ← match Json.skipSpace text.toList with
    | [] => peeked .endInValue []
    | '{' :: r => readMembers true {} r
    | '[' :: r => readList r
    | rest => wrongType "struct Event" rest
  match Json.skipSpace left with
  | [] => pure e
  | rest => peeked .trailingCharacters rest

end GatewayFleet.Audit
