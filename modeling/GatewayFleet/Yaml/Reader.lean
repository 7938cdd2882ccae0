import GatewayFleet.Yaml.Node
import GatewayFleet.Yaml.Scalar

/-! The value of a YAML document. Aliases stand for the nodes they name, as long as the document
does not grow out of hand; names of members are taken as they are written. A repeated name takes
its last value at its first place. -/

namespace GatewayFleet.Yaml

def coreTag (name : String) : String := "tag:yaml.org,2002:" ++ name

def isForeignTag (tag : Option String) : Bool := tag.any fun t => t.startsWith "!"

/-- The value of a scalar. A core tag has to fit; any other one makes the scalar a text. -/
def scalarValue? (tag : Option String) (text : String) (plain : Bool) : Option Value :=
  match tag with
  | none => if plain then Scalar.resolve? text else some (.string text)
  | some tag =>
    if tag = coreTag "bool" then (Scalar.bool? text).map .bool
    else if tag = coreTag "int" then (Scalar.keptInteger? text).bind id
    else if tag = coreTag "float" then (Scalar.float? text).map Scalar.ofFloat
    else if tag = coreTag "null" then if Scalar.isNull text then some .null else none
    else some (.string text)

def maxDepth : Nat := 128

def aliasLimit : Nat := 100

namespace Document

def follow (d : Document) : Node → StateT Nat Option Node
  | .reference number => do
    match ← get with
    | 0 => failure
    | left + 1 =>
      set left
      d.find? number
  | n => pure n

def nameOf (d : Document) (n : Node) : StateT Nat Option String := do
  match ← d.follow n with
  | .scalar _ text _ => pure text
  | _ => failure

def valueOf (d : Document) : Nat → Node → StateT Nat Option Value
  | depth, n => do
    match ← d.follow n with
    | .scalar tag text plain =>
      if isForeignTag tag then failure
      scalarValue? tag text plain
    | .sequence tag items =>
      match depth with
      | 0 => failure
      | depth + 1 =>
        if isForeignTag tag then failure
        pure (.list (← items.mapM (d.valueOf depth)))
    | .mapping tag entries =>
      match depth with
      | 0 => failure
      | depth + 1 =>
        if isForeignTag tag then failure
        let ms ← entries.mapM fun (k, v) => do
          let name ← d.nameOf k
          pure (name, ← d.valueOf depth v)
        pure (.mapping (Fields.ofList ms))
    | .reference _ => failure

end Document

def read (text : String) : Option Value := do
  let d ← Document.ofTokens? (← tokens? text)
  let (v, _) ← (d.valueOf maxDepth d.root).run (aliasLimit * d.events)
  pure v

end GatewayFleet.Yaml
