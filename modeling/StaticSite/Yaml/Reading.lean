import StaticSite.Yaml.Node
import StaticSite.Yaml.PlainScalar
import StaticSite.Yaml.Tree

/-! From the tree of a document to its node: scalars get their meaning, and
aliases are replaced by what they stand for. -/

namespace StaticSite.Yaml

namespace Tree

mutual

def anchored : Tree → List (Nat × Tree)
  | reference _ => []
  | t@(scalar p _ _) => p.anchor.toList.map (·, t)
  | t@(sequence p items) => p.anchor.toList.map (·, t) ++ anchoredItems items
  | t@(mapping p entries) => p.anchor.toList.map (·, t) ++ anchoredEntries entries

def anchoredItems : List Tree → List (Nat × Tree)
  | [] => []
  | t :: ts => anchored t ++ anchoredItems ts

def anchoredEntries : List (Tree × Tree) → List (Nat × Tree)
  | [] => []
  | (k, v) :: es => anchored k ++ anchored v ++ anchoredEntries es

end

mutual

/-- Scalars and aliases count once, collections twice. -/
def weight : Tree → Nat
  | reference _ => 1
  | scalar .. => 1
  | sequence _ items => 2 + weightOfItems items
  | mapping _ entries => 2 + weightOfEntries entries

def weightOfItems : List Tree → Nat
  | [] => 0
  | t :: ts => weight t + weightOfItems ts

def weightOfEntries : List (Tree × Tree) → Nat
  | [] => 0
  | (k, v) :: es => weight k + weight v + weightOfEntries es

end

end Tree

namespace Node

/-- The meaning of a plain scalar. Integers of more than 64 bits have none. -/
def ofPlain? (t : Text) : Option Node :=
  if PlainScalar.isNull t then some null
  else if let some b := PlainScalar.bool? t then some (bool b)
  else if let some i := PlainScalar.wideInt? t then
    if Number.isUnsigned64 i ∨ Number.isSigned64 i then some (number (.int i)) else none
  else if PlainScalar.isPadded t then some (string t)
  else match PlainScalar.float? t with
    | some x => some (number (.float x))
    | none => some (string t)

def ofScalar? (style : Style) (t : Text) : Option Node :=
  if style = .plain then ofPlain? t else some (string t)

/-- The meaning of a scalar that has a tag. -/
def ofTagged? (style : Style) (t : Text) : Tag → Option Node
  | .null => if PlainScalar.isNullWord t then some null else none
  | .bool => (PlainScalar.bool? t).map bool
  | .int => do
    let i ← PlainScalar.wideInt? t
    if Number.isUnsigned64 i ∨ Number.isSigned64 i then some (number (.int i)) else none
  | .float => (PlainScalar.float? t).map fun x => number (.float x)
  | .foreign => some (string t)
  | .name n => (ofScalar? style t).map (tagged n)

/-- Gives a collection the tag before it, if that is a name. -/
def withTag (n : Node) : Option Tag → Node
  | some (.name t) => tagged t n
  | _ => n

def isName : Option Tag → Bool
  | some (.name _) => true
  | _ => false

/-- How aliases are followed: the anchored nodes, and how many aliases may be followed in all. -/
structure Anchors where
  nodes : List (Nat × Tree)
  limit : Nat

/-- Reading counts the aliases it follows. -/
abbrev Following := StateT Nat Option

def follow (anchors : Anchors) (bare : Bool) : Tree → Following (Tree × Bool)
  | .reference id => do
    modify (· + 1)
    if (← get) > anchors.limit then failure
    match anchors.nodes.lookup id with
    | some t => return (t, false)
    | none => failure
  | t => return (t, bare)

def hasRepeatedKey : List (Node × Node) → Bool
  | [] => false
  | (k, _) :: es => es.any (fun e => k.same e.1) || hasRepeatedKey es

/-- The node of a tree with at most `depth` collections inside each other. A bare node is read
without its tag; keys of a tagged mapping are bare. -/
def ofTree? (anchors : Anchors) (depth : Nat) (bare : Bool) (t : Tree) : Following Node := do
  let (t, bare) ← follow anchors bare t
  match depth, t with
  | _, .reference _ => failure
  | _, .scalar p style t => match if bare then none else p.tag with
    | some tag => ofTagged? style t tag
    | none => ofScalar? style t
  | 0, _ => failure
  | depth + 1, .sequence p items => do
    let items ← items.mapM (ofTree? anchors depth false)
    return withTag (sequence items) (if bare then none else p.tag)
  | depth + 1, .mapping p entries => do
    let entries ← entries.mapM fun (k, v) => do
      let k ← ofTree? anchors depth (bare || isName p.tag) k
      return (k, ← ofTree? anchors depth false v)
    if hasRepeatedKey entries then failure
    return withTag (mapping entries) (if bare then none else p.tag)
termination_by structural depth

def greatestDepth : Nat := 128

def ofDocument? (t : Tree) : Option Node :=
  (ofTree? ⟨t.anchored.reverse, 100 * t.weight⟩ greatestDepth false t).run' 0

def ofText? (t : Text) : Option Node := do
  match ← Tree.ofTokens? (← Token.ofText? t) with
  | none => some null
  | some tree => ofDocument? tree

end Node

end StaticSite.Yaml
