import StaticSite.Yaml.Node

/-! Parts of nodes. What is a part of a part is a part, and the parts of a node
can be listed. -/

namespace StaticSite.Yaml.Node

theorem Part.trans {part n whole : Node} (h : Part part n) (hn : Part n whole) :
    Part part whole := by
  induction hn with
  | self => exact h
  | item hm _ ih => exact .item hm ih
  | key hm _ ih => exact .key hm ih
  | value hm _ ih => exact .value hm ih
  | content _ ih => exact .content ih

/-- Induction that takes a tagged node apart at once, as a hook may: all parts of what is tagged
are smaller. -/
@[elab_as_elim]
theorem induction_parts {P : Node → Prop} (null : P null) (bool : ∀ b, P (bool b))
    (number : ∀ n, P (number n)) (string : ∀ t, P (string t))
    (sequence : ∀ items, (∀ item ∈ items, P item) → P (sequence items))
    (mapping : ∀ entries, (∀ e ∈ entries, P e.1 ∧ P e.2) → P (mapping entries))
    (tagged : ∀ tag node, (∀ part : Node, part.Part node → P part) → P (tagged tag node))
    (node : Node) : P node := by
  induction hn : sizeOf node using Nat.strongRecOn generalizing node with
  | ind n ih =>
    subst hn
    cases node with
    | null => exact null
    | bool b => exact bool b
    | number n => exact number n
    | string t => exact string t
    | sequence items =>
      apply sequence
      intro item hitem
      have hless := List.sizeOf_lt_of_mem hitem
      refine ih _ ?_ item rfl
      simp only [Node.sequence.sizeOf_spec]
      omega
    | mapping entries =>
      apply mapping
      intro e he
      have hless := List.sizeOf_lt_of_mem he
      obtain ⟨k, v⟩ := e
      simp only [Prod.mk.sizeOf_spec] at hless
      refine ⟨ih _ ?_ k rfl, ih _ ?_ v rfl⟩
      · simp only [Node.mapping.sizeOf_spec]
        omega
      · simp only [Node.mapping.sizeOf_spec]
        omega
    | tagged tag node =>
      apply tagged
      intro part hpart
      have hle := hpart.sizeOf_le
      refine ih _ ?_ part rfl
      simp only [Node.tagged.sizeOf_spec]
      omega

mutual

/-- The parts of a node, one after the other. -/
def parts : Node → List Node
  | sequence items => sequence items :: itemParts items
  | mapping entries => mapping entries :: entryParts entries
  | tagged tag node => tagged tag node :: node.parts
  | node => [node]

def itemParts : List Node → List Node
  | [] => []
  | node :: nodes => node.parts ++ itemParts nodes

def entryParts : List (Node × Node) → List Node
  | [] => []
  | (k, v) :: entries => k.parts ++ v.parts ++ entryParts entries

end

theorem self_mem_parts (node : Node) : node ∈ node.parts := by
  cases node <;> simp [parts]

theorem mem_itemParts {part : Node} {items : List Node} :
    part ∈ itemParts items ↔ ∃ item ∈ items, part ∈ item.parts := by
  induction items with
  | nil => simp [itemParts]
  | cons item items ih => simp [itemParts, ih]

theorem mem_entryParts {part : Node} {entries : List (Node × Node)} :
    part ∈ entryParts entries ↔ ∃ e ∈ entries, part ∈ e.1.parts ∨ part ∈ e.2.parts := by
  induction entries with
  | nil => simp [entryParts]
  | cons e entries ih => simp [entryParts, ih, or_assoc]

theorem mem_parts_of_part {part node : Node} (h : part.Part node) : part ∈ node.parts := by
  induction h with
  | self => exact self_mem_parts _
  | item hm _ ih => exact List.mem_cons_of_mem _ (mem_itemParts.mpr ⟨_, hm, ih⟩)
  | key hm _ ih => exact List.mem_cons_of_mem _ (mem_entryParts.mpr ⟨_, hm, .inl ih⟩)
  | value hm _ ih => exact List.mem_cons_of_mem _ (mem_entryParts.mpr ⟨_, hm, .inr ih⟩)
  | content _ ih => exact List.mem_cons_of_mem _ ih

theorem part_of_mem_parts {part node : Node} (h : part ∈ node.parts) : part.Part node := by
  induction node using induction_parts with
  | null => exact List.mem_singleton.mp h ▸ .self
  | bool b => exact List.mem_singleton.mp h ▸ .self
  | number n => exact List.mem_singleton.mp h ▸ .self
  | string t => exact List.mem_singleton.mp h ▸ .self
  | sequence items ih =>
    rcases List.mem_cons.mp h with rfl | h
    · exact .self
    · obtain ⟨item, hitem, h⟩ := mem_itemParts.mp h
      exact .item hitem (ih item hitem h)
  | mapping entries ih =>
    rcases List.mem_cons.mp h with rfl | h
    · exact .self
    · obtain ⟨e, he, h | h⟩ := mem_entryParts.mp h
      · exact .key he ((ih e he).1 h)
      · exact .value he ((ih e he).2 h)
  | tagged tag node ih =>
    rcases List.mem_cons.mp h with rfl | h
    · exact .self
    · exact .content (ih node .self h)

@[simp] theorem mem_parts_iff {part node : Node} : part ∈ node.parts ↔ part.Part node :=
  ⟨part_of_mem_parts, mem_parts_of_part⟩

end StaticSite.Yaml.Node
