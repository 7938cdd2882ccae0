import GatewayFleet.Fields
import GatewayFleet.Yaml.Lexer

/-! The tree of a YAML document. Anchored nodes are kept beside the tree, since an alias may be
used before the node it names is complete. An anchor's number is the count of distinct names in
front of it, so a name that returns shares its number with the next new one; the node that begins
last is the one that a number stands for. -/

namespace GatewayFleet.Yaml

inductive Node
  | scalar (tag : Option String) (text : String) (plain : Bool)
  | sequence (tag : Option String) (items : List Node)
  | mapping (tag : Option String) (entries : List (Node × Node))
  | reference (anchor : Nat)
deriving Inhabited

def Node.blank (tag : Option String) : Node := .scalar tag "" true

structure Anchor where
  number : Nat
  position : Nat

structure Builder where
  tokens : List Token
  handles : Fields String
  names : Fields Nat
  anchored : List (Anchor × Node)
  /-- Beginnings and ends of collections, scalars and aliases so far. -/
  events : Nat

structure Document where
  root : Node
  anchored : List (Anchor × Node)
  events : Nat

abbrev Build := StateT Builder Option

namespace Build

def peek : Build (Option Token) := do pure (← get).tokens.head?

def advance : Build Unit := modify fun b => { b with tokens := b.tokens.tail }

def count : Build Unit := modify fun b => { b with events := b.events + 1 }

def accept (t : Token) : Build Bool := do
  if (← peek) = some t then
    advance
    pure true
  else pure false

def expect (t : Token) : Build Unit := do
  if !(← accept t) then failure

def defaultHandles : Fields String := [("!", "!"), ("!!", "tag:yaml.org,2002:")]

def resolveTag (name : TagName) : Build String := do
  if name.handle = "" then pure name.suffix
  else match Fields.get? ((← get).handles ++ defaultHandles) name.handle with
    | some start => pure (start ++ name.suffix)
    | none => failure

def enter (name : Option String) : Build (Option Anchor) := do
  match name with
  | none => pure none
  | some name =>
    let b ← get
    let number := b.names.length
    set { b with names := Fields.put b.names name number }
    pure (some ⟨number, b.events⟩)

def settle (anchor : Option Anchor) (n : Node) : Build Node := do
  match anchor with
  | none => pure n
  | some a =>
    modify fun b => { b with anchored := (a, n) :: b.anchored }
    pure n

def blank : Build Node := do
  count
  pure (.blank none)

def reference (name : String) : Build Node := do
  match Fields.get? (← get).names name with
  | some number =>
    count
    pure (.reference number)
  | none => failure

def anchorName? : Option Token → Option String
  | some (.anchor name) => some name
  | _ => none

def tagName? : Option Token → Option TagName
  | some (.tag name) => some name
  | _ => none

def takeAnchor : Build (Option String) := do
  match anchorName? (← peek) with
  | some name =>
    advance
    pure (some name)
  | none => pure none

def takeTag : Build (Option TagName) := do
  match tagName? (← peek) with
  | some name =>
    advance
    pure (some name)
  | none => pure none

def properties : Build (Option String × Option TagName) := do
  match ← takeAnchor with
  | some name => pure (some name, ← takeTag)
  | none =>
    match ← takeTag with
    | some tag => pure (← takeAnchor, some tag)
    | none => pure (none, none)

/-- A scalar; the tag `!` says nothing about it. -/
def scalar (name tag : Option String) (text : String) (plain : Bool) : Build Node := do
  let anchor ← enter name
  count
  settle anchor (.scalar (if tag = some "!" then none else tag) text plain)

def collection (name : Option String) (contents : Build Node) : Build Node := do
  let anchor ← enter name
  count
  let n ← contents
  count
  settle anchor n

def nextIn (ts : List Token) : Build Bool := do
  pure ((← peek).any (· ∈ ts))

mutual

/-- A node. In front of a value in a block mapping a sequence need not be indented. The number
bounds how deep and how long the document can be. -/
def node : Nat → Bool → Bool → Build Node
  | 0, _, _ => failure
  | fuel + 1, inBlock, flush => do
    match ← peek with
    | some (.reference name) =>
      advance
      reference name
    | _ =>
      let (name, tagName) ← properties
      let tag ← tagName.mapM resolveTag
      match ← peek with
      | some (.scalar text plain) =>
        advance
        scalar name tag text plain
      | some .flowSequence =>
        advance
        collection name do pure (.sequence tag (← flowItems fuel true))
      | some .flowMapping =>
        advance
        collection name do pure (.mapping tag (← flowEntries fuel true))
      | t =>
        if flush && t = some .blockEntry then
          collection name do pure (.sequence tag (← flushItems fuel))
        else if inBlock && t = some .blockSequence then
          advance
          collection name do pure (.sequence tag (← blockItems fuel))
        else if inBlock && t = some .blockMapping then
          advance
          collection name do pure (.mapping tag (← blockEntries fuel))
        else if name.isSome || tag.isSome then
          let anchor ← enter name
          count
          settle anchor (.blank tag)
        else failure

def blockItems : Nat → Build (List Node)
  | 0 => failure
  | fuel + 1 => do
    if ← accept .blockEntry then
      let item ← if ← nextIn [.blockEntry, .blockEnd] then blank else node fuel true false
      pure (item :: (← blockItems fuel))
    else
      expect .blockEnd
      pure []

/-- The items of a sequence that stands at the column of its key. -/
def flushItems : Nat → Build (List Node)
  | 0 => failure
  | fuel + 1 => do
    if ← accept .blockEntry then
      let item ← if ← nextIn [.blockEntry, .key, .value, .blockEnd] then blank
        else node fuel true false
      pure (item :: (← flushItems fuel))
    else pure []

def blockPart : Nat → Build Node
  | 0 => failure
  | fuel + 1 => do
    if ← nextIn [.key, .value, .blockEnd] then blank else node fuel true true

def blockEntries : Nat → Build (List (Node × Node))
  | 0 => failure
  | fuel + 1 => do
    if ← accept .key then
      let k ← blockPart fuel
      let v ← if ← accept .value then blockPart fuel else blank
      pure ((k, v) :: (← blockEntries fuel))
    else
      expect .blockEnd
      pure []

/-- A pair that stands for a mapping of its own inside a sequence. A key that is left out takes
the token in its place with it. -/
def flowPair : Nat → Build Node
  | 0 => failure
  | fuel + 1 => do
    let k ← if ← nextIn [.value, .flowEntry, .flowSequenceEnd] then
        advance
        blank
      else node fuel false false
    let v ← if ← accept .value then
        if ← nextIn [.flowEntry, .flowSequenceEnd] then blank else node fuel false false
      else blank
    pure (.mapping none [(k, v)])

def flowItems : Nat → Bool → Build (List Node)
  | 0, _ => failure
  | fuel + 1, first => do
    if ← accept .flowSequenceEnd then return []
    if !first then expect .flowEntry
    if ← accept .key then
      let item ← collection none (flowPair fuel)
      pure (item :: (← flowItems fuel false))
    else if ← accept .flowSequenceEnd then pure []
    else
      let item ← node fuel false false
      pure (item :: (← flowItems fuel false))

def flowValue : Nat → Build Node
  | 0 => failure
  | fuel + 1 => do
    if ← accept .value then
      if ← nextIn [.flowEntry, .flowMappingEnd] then blank else node fuel false false
    else blank

def flowEntries : Nat → Bool → Build (List (Node × Node))
  | 0, _ => failure
  | fuel + 1, first => do
    if ← accept .flowMappingEnd then return []
    if !first then expect .flowEntry
    if ← accept .key then
      let k ← if ← nextIn [.value, .flowEntry, .flowMappingEnd] then blank
        else node fuel false false
      let v ← flowValue fuel
      pure ((k, v) :: (← flowEntries fuel false))
    else if ← accept .flowMappingEnd then pure []
    else
      let k ← node fuel false false
      let v ← blank
      pure ((k, v) :: (← flowEntries fuel false))

end

def handlesOf (versioned : Bool) (handles : Fields String) :
    List Token → Option (Fields String × List Token)
  | .version major minor :: rest =>
    if versioned || major ≠ 1 || !(minor = 1 || minor = 2) then none
    else handlesOf true handles rest
  | .tagHandle handle start :: rest =>
    if Fields.has handles handle then none
    else handlesOf versioned (Fields.put handles handle start) rest
  | rest => some (handles, rest)

def isDirective : Token → Bool
  | .version .. | .tagHandle .. => true
  | _ => false

def endsDocument (t : Token) : Bool := isDirective t || t = .documentStart || t = .documentEnd

def root (fuel : Nat) : Build Node := do
  let b ← get
  let (handles, rest) ← handlesOf false [] b.tokens
  set { b with handles := handles, tokens := rest }
  let explicit ← accept .documentStart
  if !explicit && rest.length < b.tokens.length then failure
  if explicit && (← peek).all endsDocument then blank else node fuel true false

end Build

def Document.ofTokens? (ts : List Token) : Option Document := do
  if ts.isEmpty then return ⟨.blank none, [], 1⟩
  let (root, b) ← (Build.root (4 * ts.length + 4)).run ⟨ts, [], [], [], 0⟩
  if (b.tokens.dropWhile (· = .documentEnd)).isEmpty then pure ⟨root, b.anchored, b.events⟩
  else none

def Document.find? (d : Document) (number : Nat) : Option Node :=
  (d.anchored.foldl (fun best (a, n) =>
    if a.number ≠ number then best
    else match best with
      | some (b, _) => if b.position < a.position then some (a, n) else best
      | none => some (a, n)) (none : Option (Anchor × Node))).map (·.2)

end GatewayFleet.Yaml
