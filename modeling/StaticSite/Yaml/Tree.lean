import StaticSite.Yaml.Token

/-! The tree of a YAML document as it is written: tags and anchors are kept,
and aliases stand for themselves. Nodes that are left out are empty scalars. -/

namespace StaticSite.Yaml

/-- A tag after its handle was replaced. Names begin with an exclamation mark in the text. -/
inductive Tag where
  | name (t : Text)
  | null
  | bool
  | int
  | float
  | foreign
  deriving DecidableEq

namespace Tag

def core (t : Text) : Octets := Token.ofAscii ("tag:yaml.org,2002:" ++ t)

/-- Names that are no text are no tags. A lone exclamation mark is a name. -/
def ofOctets? (octets : Octets) : Option Tag :=
  match octets with
  | [0x21] => some (name "!")
  | 0x21 :: rest => (Text.ofUtf8? rest).map name
  | _ =>
    some (if octets = core "null" then null
      else if octets = core "bool" then bool
      else if octets = core "int" then int
      else if octets = core "float" then float
      else foreign)

end Tag

/-- What is written before a node. Anchors are numbered. -/
structure Props where
  anchor : Option Nat
  tag : Option Tag
  deriving DecidableEq

inductive Tree where
  | reference (anchor : Nat)
  | scalar (props : Props) (style : Style) (text : Text)
  | sequence (props : Props) (items : List Tree)
  | mapping (props : Props) (entries : List (Tree × Tree))

namespace Tree

/-- What is left to read, the tag handles of the document and the anchors seen so far. -/
structure Reader where
  tokens : List Token
  handles : List (Text × Octets)
  anchors : List (Text × Nat)

abbrev Read := StateT Reader Option

namespace Read

def peek : Read (Option Token) := do return (← get).tokens.head?

def skip : Read Unit := modify fun r => { r with tokens := r.tokens.tail }

def take (t : Token) : Read Bool := do
  let here := (← peek) == some t
  if here then skip
  return here

def expect (t : Token) : Read Unit := do
  if !(← take t) then failure

def sees (ts : List Token) : Read Bool := do return (← peek).any ts.contains

def anchor? : Read (Option Text) := do
  match ← peek with
  | some (.anchor n) => skip; return some n
  | _ => return none

def tag? : Read (Option (Text × Octets)) := do
  match ← peek with
  | some (.tag handle suffix) => skip; return some (handle, suffix)
  | _ => return none

/-- A new anchor is numbered by how many names there are; a name may be given anew. -/
def number (name : Text) : Read Nat := do
  let r ← get
  let id := r.anchors.length
  set { r with anchors := (name, id) :: r.anchors.filter (·.1 ≠ name) }
  return id

def octetsOf (handle : Text) (suffix : Octets) : Read Octets := do
  if handle = [] then return suffix
  match (← get).handles.lookup handle with
  | some start => return start ++ suffix
  | none => failure

/-- The anchor and the tag before a node, in either order. -/
def props : Read (Option Nat × Option Octets) := do
  let first ← anchor?
  let tag ← tag?
  let anchor ← if first = none ∧ tag ≠ none then anchor? else pure first
  let octets ← tag.mapM fun (handle, suffix) => octetsOf handle suffix
  return (← anchor.mapM number, octets)

end Read

open Read

def empty : Tree := scalar ⟨none, none⟩ .plain []

def keyEnds : List Token := [.key, .value, .blockEnd]

mutual

/-- A node; `block` and `unindented` say which collections may begin here. -/
def node (block unindented : Bool) : Nat → Read Tree
  | 0 => failure
  | n + 1 => do
    let next ← peek
    if let some (.reference name) := next then
      skip
      match (← get).anchors.lookup name with
      | some id => return reference id
      | none => failure
    let (anchor, octets) ← props
    let p : Props := ⟨anchor, octets.bind Tag.ofOctets?⟩
    match ← peek with
    | some (.scalar style t) =>
      skip
      return scalar (if octets = some [0x21] then ⟨anchor, none⟩ else p) style t
    | some .flowSequence => skip; return sequence p (← flowItems true n)
    | some .flowMapping => skip; return mapping p (← flowEntries true n)
    | next =>
      if unindented ∧ next = some .entry then return sequence p (← unindentedItems n)
      else if block ∧ next = some .blockSequence then
        skip
        return sequence p (← blockItems n)
      else if block ∧ next = some .blockMapping then
        skip
        return mapping p (← blockEntries n)
      else if anchor.isSome ∨ octets.isSome then return scalar p .plain []
      else failure

/-- A node, or nothing before one of some tokens. -/
def nodeBefore (ends : List Token) (block unindented : Bool) : Nat → Read Tree
  | 0 => failure
  | n + 1 => do if ← sees ends then return empty else node block unindented n

def blockItems : Nat → Read (List Tree)
  | 0 => failure
  | n + 1 => do
    if ← take .blockEnd then return []
    expect .entry
    let t ← nodeBefore [.entry, .blockEnd] true false n
    return t :: (← blockItems n)

def unindentedItems : Nat → Read (List Tree)
  | 0 => failure
  | n + 1 => do
    if !(← take .entry) then return []
    let t ← nodeBefore (.entry :: keyEnds) true false n
    return t :: (← unindentedItems n)

def blockEntries : Nat → Read (List (Tree × Tree))
  | 0 => failure
  | n + 1 => do
    if ← take .blockEnd then return []
    expect .key
    let k ← nodeBefore keyEnds true true n
    let v ← if ← take .value then nodeBefore keyEnds true true n else pure empty
    return (k, v) :: (← blockEntries n)

def flowItems (first : Bool) : Nat → Read (List Tree)
  | 0 => failure
  | n + 1 => do
    if ← take .flowSequenceEnd then return []
    if !first then expect .comma
    if ← take .flowSequenceEnd then return []
    let t ← if ← take .key then flowPair n else node false false n
    return t :: (← flowItems false n)

/-- A mapping of one entry. A mark in place of its key is passed over. -/
def flowPair : Nat → Read Tree
  | 0 => failure
  | n + 1 => do
    let k ← if ← sees [.value, .comma, .flowSequenceEnd] then do skip; pure empty
      else node false false n
    let v ← if ← take .value then nodeBefore [.comma, .flowSequenceEnd] false false n
      else pure empty
    return mapping ⟨none, none⟩ [(k, v)]

def flowEntries (first : Bool) : Nat → Read (List (Tree × Tree))
  | 0 => failure
  | n + 1 => do
    if ← take .flowMappingEnd then return []
    if !first then expect .comma
    if ← take .flowMappingEnd then return []
    let entry ← if ← take .key then do
        let k ← nodeBefore [.value, .comma, .flowMappingEnd] false false n
        let v ← if ← take .value then nodeBefore [.comma, .flowMappingEnd] false false n
          else pure empty
        pure (k, v)
      else do pure (← node false false n, empty)
    return entry :: (← flowEntries false n)

end

def defaultHandles : List (Text × Octets) :=
  [(['!'], Token.ofAscii "!"), (['!', '!'], Tag.core [])]

/-- The directives before a document, each given once, of a known version. -/
def directives (version : Bool) (handles : List (Text × Octets)) :
    List Token → Option (List (Text × Octets) × List Token)
  | .version major minor :: ts =>
    if version ∨ major ≠ 1 ∨ (minor ≠ 1 ∧ minor ≠ 2) then none else directives true handles ts
  | .tagHandle handle start :: ts =>
    if handles.any (·.1 = handle) then none
    else directives version ((handle, start) :: handles) ts
  | ts => some (handles ++ defaultHandles, ts)

def isDirective : Token → Bool
  | .version .. | .tagHandle .. => true
  | _ => false

/-- Whether a document may have no content before a token. -/
def endsDocument (t : Token) : Bool :=
  isDirective t || t == .documentStart || t == .documentEnd

def content (fuel : Nat) (handles : List (Text × Octets)) (ts : List Token) :
    Option (Tree × List Token) := do
  let (t, r) ← (node true false fuel).run ⟨ts, handles, []⟩
  some (t, r.tokens)

/-- The one document of a text; nothing inside if there are no tokens at all. -/
def ofTokens? (ts : List Token) : Option (Option Tree) := do
  if ts = [] then return none
  let fuel := 4 * ts.length + 8
  let explicit := ts.head?.any fun t => isDirective t || t == .documentStart
  let (handles, ts) ← directives false [] ts
  let (t, rest) ←
    if explicit then match ts with
      | .documentStart :: ts =>
        if ts.head?.all endsDocument then some (empty, ts) else content fuel handles ts
      | _ => none
    else content fuel handles ts
  if rest.all (· == .documentEnd) then some (some t) else none

end Tree

end StaticSite.Yaml
