import StaticSite.Number.Basic

/-! Nodes of YAML documents after aliases are followed. Tags of unknown
meaning are kept, and mappings may have keys of any kind. -/

namespace StaticSite.Yaml

inductive Node where
  | null
  | bool (b : Bool)
  | number (n : Number)
  | string (t : Text)
  | sequence (items : List Node)
  | mapping (entries : List (Node × Node))
  | tagged (tag : Text) (node : Node)

/-- One exclamation mark before a tag name does not count. -/
def tagName : Text → Text
  | '!' :: c :: t => c :: t
  | t => t

namespace Node

mutual

/-- Equality of nodes, which does not see the order of entries. -/
def same : Node → Node → Bool
  | null, null => true
  | bool b, bool b' => b == b'
  | number n, number n' => n.same n'
  | string t, string t' => t == t'
  | sequence xs, sequence ys => sameItems xs ys
  | mapping es, mapping fs => es.length == fs.length && containsAll es fs
  | tagged t n, tagged t' n' => tagName t == tagName t' && same n n'
  | _, _ => false

def sameItems : List Node → List Node → Bool
  | [], [] => true
  | x :: xs, y :: ys => same x y && sameItems xs ys
  | _, _ => false

def containsAll : List (Node × Node) → List (Node × Node) → Bool
  | [], _ => true
  | (k, v) :: es, fs => (fs.any fun (k', v') => same k k' && same v v') && containsAll es fs

end

/-- A node is a part of itself, and parts of what it holds are parts of it. -/
inductive Part (part : Node) : Node → Prop where
  | self : Part part part
  | item {n : Node} {items : List Node} : n ∈ items → Part part n → Part part (sequence items)
  | key {k v : Node} {entries : List (Node × Node)} :
    (k, v) ∈ entries → Part part k → Part part (mapping entries)
  | value {k v : Node} {entries : List (Node × Node)} :
    (k, v) ∈ entries → Part part v → Part part (mapping entries)
  | content {n : Node} {tag : Text} : Part part n → Part part (tagged tag n)

theorem Part.sizeOf_le {part n : Node} (h : Part part n) : sizeOf part ≤ sizeOf n := by
  induction h with
  | self => exact Nat.le_refl _
  | item hm _ ih =>
    have := List.sizeOf_lt_of_mem hm
    simp only [sequence.sizeOf_spec]
    omega
  | key hm _ ih =>
    have := List.sizeOf_lt_of_mem hm
    simp only [mapping.sizeOf_spec, Prod.mk.sizeOf_spec] at this ⊢
    omega
  | value hm _ ih =>
    have := List.sizeOf_lt_of_mem hm
    simp only [mapping.sizeOf_spec, Prod.mk.sizeOf_spec] at this ⊢
    omega
  | content _ ih =>
    simp only [tagged.sizeOf_spec]
    omega

end Node

end StaticSite.Yaml
