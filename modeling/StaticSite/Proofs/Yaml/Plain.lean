import StaticSite.Config.Registry
import StaticSite.Proofs.Number.Spelling

/-! Documents without tags, with scalars for keys. Different keys of one mapping
have different texts, unless one of them is a string and spells the other. -/

namespace StaticSite.Yaml.Node

/-- Nodes without parts. Their numbers have the form that reading gives them. -/
def IsScalar : Node → Prop
  | null | bool _ | string _ => True
  | number n => n.IsRounded
  | _ => False

def isString : Node → Bool
  | string _ => true
  | _ => false

def keyText : Node → Text
  | string t => t
  | bool b => boolText b
  | number n => n.text
  | _ => "null"

/-- A document without tags. The keys of a mapping are different scalars. -/
inductive IsPlain : Node → Prop where
  | scalar {n : Node} : n.IsScalar → IsPlain n
  | sequence {items : List Node} : (∀ item ∈ items, IsPlain item) → IsPlain (sequence items)
  | mapping {entries : List (Node × Node)} : (∀ e ∈ entries, e.1.IsScalar) →
    hasRepeatedKey entries = false → (∀ e ∈ entries, IsPlain e.2) → IsPlain (mapping entries)

/-- A string among the keys spells another key. -/
def HasSpelledKey (entries : List (Node × Node)) : Prop :=
  ∃ e ∈ entries, ∃ e' ∈ entries, e.1.isString = true ∧ e'.1.isString = false ∧
    e.1.keyText = e'.1.keyText

theorem exists_string {k : Node} (h : k.isString = true) : ∃ t, k = string t := by
  cases k with
  | string t => exact ⟨t, rfl⟩
  | _ => cases h

/-- The texts of null and of the truth values are words, which no number has for its text. -/
theorem keyText_ne_number {k : Node} (h : k = null ∨ ∃ b, k = bool b) {n : Number}
    (hn : n.IsRounded) : k.keyText ≠ n.text := by
  intro htext
  have hword : ∃ c ∈ ['n', 't', 'f'], k.keyText.head? = some c := by
    rcases h with rfl | ⟨b, rfl⟩
    · exact ⟨'n', by decide, rfl⟩
    · cases b
      · exact ⟨'f', by decide, rfl⟩
      · exact ⟨'t', by decide, rfl⟩
  obtain ⟨c, hc, hhead⟩ := hword
  rw [htext] at hhead
  have hnumber := Number.text_head hn hhead
  simp only [List.mem_cons, List.not_mem_nil, or_false] at hc
  rcases hc with rfl | rfl | rfl <;> exact absurd hnumber (by decide)

theorem IsScalar.cases {k : Node} (h : k.IsScalar) (hstring : k.isString = false) :
    (k = null ∨ ∃ b, k = bool b) ∨ ∃ n, k = number n ∧ n.IsRounded := by
  cases k with
  | null => exact .inl (.inl rfl)
  | bool b => exact .inl (.inr ⟨b, rfl⟩)
  | number n => exact .inr ⟨n, rfl, h⟩
  | string t => cases hstring
  | sequence items => exact h.elim
  | mapping entries => exact h.elim
  | tagged tag n => exact h.elim

theorem keyText_inj {k k' : Node} (hk : k.IsScalar) (hk' : k'.IsScalar)
    (hstring : k.isString = k'.isString) (h : k.keyText = k'.keyText) : k = k' := by
  cases hs : k.isString with
  | true =>
    rw [hs] at hstring
    obtain ⟨t, rfl⟩ := exists_string hs
    obtain ⟨t', rfl⟩ := exists_string hstring.symm
    exact congrArg string h
  | false =>
    rw [hs] at hstring
    rcases hk.cases hs with hword | ⟨n, rfl, hn⟩
    · rcases hk'.cases hstring.symm with hword' | ⟨n', rfl, hn'⟩
      · rcases hword with rfl | ⟨b, rfl⟩
        · rcases hword' with rfl | ⟨b', rfl⟩
          · rfl
          · cases b' <;> cases h
        · rcases hword' with rfl | ⟨b', rfl⟩
          · cases b <;> cases h
          · cases b <;> cases b' <;> first | rfl | cases h
      · exact absurd h (keyText_ne_number hword hn')
    · rcases hk'.cases hstring.symm with hword' | ⟨n', rfl, hn'⟩
      · exact absurd h.symm (keyText_ne_number hword' hn)
      · exact congrArg number (Number.text_inj hn hn' h)

theorem same_self {k : Node} (h : k.IsScalar) : k.same k = true := by
  cases k with
  | number n =>
    cases n with
    | int i => simp [same, Number.same]
    | float x => cases x <;> simp [same, Number.same, Binary64.same]
  | null => rfl
  | bool b => simp [same]
  | string t => simp [same]
  | sequence items => cases h
  | mapping entries => cases h
  | tagged tag n => cases h

/-- Keys of which only one is a string may have one text, all others may not. -/
theorem nodup_keyText_iff {entries : List (Node × Node)} (hkeys : ∀ e ∈ entries, e.1.IsScalar)
    (hdistinct : hasRepeatedKey entries = false) :
    (entries.map (·.1.keyText)).Nodup ↔ ¬ HasSpelledKey entries := by
  constructor
  · rintro hnodup ⟨e, he, e', he', hstring, hother, htext⟩
    rw [List.inj_on_of_nodup_map hnodup he he' htext, hother] at hstring
    cases hstring
  · intro hnone
    induction entries with
    | nil => exact List.nodup_nil
    | cons e entries ih =>
      rw [List.forall_mem_cons] at hkeys
      rw [hasRepeatedKey, Bool.or_eq_false_iff, List.any_eq_false] at hdistinct
      rw [List.map_cons, List.nodup_cons]
      refine ⟨?_, ih hkeys.2 hdistinct.2 ?_⟩
      · intro hm
        obtain ⟨e', he', htext⟩ := List.mem_map.mp hm
        by_cases hstring : e.1.isString = e'.1.isString
        · have hsame : e.1 = e'.1 := keyText_inj hkeys.1 (hkeys.2 e' he') hstring htext.symm
          exact hdistinct.1 e' he' (hsame ▸ same_self hkeys.1)
        · apply hnone
          have hmem : e' ∈ e :: entries := List.mem_cons_of_mem e he'
          cases hs : e.1.isString with
          | true =>
            rw [hs] at hstring
            exact ⟨e, List.mem_cons_self, e', hmem, hs, by simpa using hstring, htext.symm⟩
          | false =>
            rw [hs] at hstring
            exact ⟨e', hmem, e, List.mem_cons_self, by simpa using hstring, hs, htext⟩
      · rintro ⟨a, ha, b, hb, hspelled⟩
        exact hnone ⟨a, List.mem_cons_of_mem e ha, b, List.mem_cons_of_mem e hb, hspelled⟩

theorem IsPlain.part {part node : Node} (hpart : part.Part node) (h : node.IsPlain) :
    part.IsPlain := by
  induction hpart with
  | self => exact h
  | item hm _ ih =>
    cases h with
    | scalar hscalar => exact hscalar.elim
    | sequence hitems => exact ih (hitems _ hm)
  | key hm _ ih =>
    cases h with
    | scalar hscalar => exact hscalar.elim
    | mapping hkeys _ _ => exact ih (.scalar (hkeys _ hm))
  | value hm _ ih =>
    cases h with
    | scalar hscalar => exact hscalar.elim
    | mapping _ _ hvalues => exact ih (hvalues _ hm)
  | content _ _ =>
    cases h with
    | scalar hscalar => exact hscalar.elim

theorem part_scalar_iff {part node : Node} (h : node.IsScalar) : part.Part node ↔ part = node := by
  constructor
  · intro hpart
    cases hpart with
    | self => rfl
    | item => exact h.elim
    | key => exact h.elim
    | value => exact h.elim
    | content => exact h.elim
  · rintro rfl
    exact .self

/-- The mappings inside a sequence. -/
theorem part_sequence_iff {entries : List (Node × Node)} {items : List Node} :
    (mapping entries).Part (sequence items) ↔ ∃ item ∈ items, (mapping entries).Part item := by
  constructor
  · rintro (_ | ⟨hm, hpart⟩)
    exact ⟨_, hm, hpart⟩
  · rintro ⟨item, hm, hpart⟩
    exact .item hm hpart

theorem part_mapping_iff {entries inner : List (Node × Node)} (h : ∀ e ∈ entries, e.1.IsScalar) :
    (mapping inner).Part (mapping entries) ↔
      inner = entries ∨ ∃ e ∈ entries, (mapping inner).Part e.2 := by
  constructor
  · rintro (_ | _ | ⟨hm, hpart⟩ | ⟨hm, hpart⟩)
    · exact .inl rfl
    · have hscalar := h _ hm
      rw [part_scalar_iff hscalar] at hpart
      exact (hpart ▸ hscalar).elim
    · exact .inr ⟨_, hm, hpart⟩
  · rintro (rfl | ⟨e, hm, hpart⟩)
    · exact .self
    · exact .value hm hpart

mutual

/-- The value of a node whose mappings are arranged in some way, entry by entry. -/
def valueBy (arrange : Config → Config) : Node → Value
  | null => .null
  | bool b => .bool b
  | number n => .number n
  | string t => .string t
  | sequence items => .sequence (itemsBy arrange items)
  | mapping entries => .mapping (arrange (entriesBy arrange entries))
  | tagged _ node => node.valueBy arrange

def itemsBy (arrange : Config → Config) : List Node → List Value
  | [] => []
  | node :: nodes => node.valueBy arrange :: itemsBy arrange nodes

def entriesBy (arrange : Config → Config) : List (Node × Node) → Config
  | [] => []
  | (k, v) :: entries => (k.keyText, v.valueBy arrange) :: entriesBy arrange entries

end

theorem itemsBy_eq_map (arrange : Config → Config) (items : List Node) :
    itemsBy arrange items = items.map (valueBy arrange) := by
  induction items with
  | nil => rfl
  | cons node nodes ih => rw [itemsBy, ih, List.map_cons]

theorem entriesBy_eq_map (arrange : Config → Config) (entries : List (Node × Node)) :
    entriesBy arrange entries = entries.map fun e => (e.1.keyText, e.2.valueBy arrange) := by
  induction entries with
  | nil => rfl
  | cons e entries ih => rw [entriesBy, ih, List.map_cons]

end StaticSite.Yaml.Node
