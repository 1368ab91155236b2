import StaticSite.Proofs.Config.Pairs
import StaticSite.Proofs.Yaml.Plain

/-! Values of documents without tags. Every part keeps its place, except that
the entries of a mapping whose keys have one text become one entry. Only strings
that spell other keys of their mapping do that. -/

namespace StaticSite.Registry

open Yaml (Node)

theorem key_eq {k : Node} (h : k.IsScalar) : key k = .ok k.keyText := by
  cases k with
  | null => rfl
  | bool b => rfl
  | number n => rfl
  | string t => rfl
  | sequence items => exact h.elim
  | mapping entries => exact h.elim
  | tagged tag n => exact h.elim

variable (r : Registry)

theorem values_eq_map {f : Node → Value} {items : List Node}
    (h : ∀ item ∈ items, r.value item = .ok (f item)) : r.values items = .ok (items.map f) := by
  induction items with
  | nil => rw [values, List.map_nil]
  | cons node nodes ih =>
    rw [List.forall_mem_cons] at h
    rw [values, h.1, ih h.2]
    rfl

theorem entries_eq_map {f : Node → Value} {es : List (Node × Node)}
    (hkeys : ∀ e ∈ es, e.1.IsScalar) (h : ∀ e ∈ es, r.value e.2 = .ok (f e.2)) :
    r.entries es = .ok (es.map fun e => (e.1.keyText, f e.2)) := by
  induction es with
  | nil => rw [entries, List.map_nil]
  | cons e es ih =>
    rw [List.forall_mem_cons] at hkeys h
    rw [entries, key_eq hkeys.1, h.1, ih hkeys.2 h.2]
    rfl

/-- Hooks have no part in the value of a document without tags. -/
theorem value_plain {node : Node} (h : node.IsPlain) :
    r.value node = .ok (node.valueBy Entries.ofPairs) := by
  induction h with
  | @scalar n hscalar =>
    cases n with
    | null => rw [value]; rfl
    | bool b => rw [value]; rfl
    | number n => rw [value]; rfl
    | string t => rw [value]; rfl
    | sequence items => exact hscalar.elim
    | mapping entries => exact hscalar.elim
    | tagged tag n => exact hscalar.elim
  | sequence _ ih =>
    rw [value, r.values_eq_map ih, Node.valueBy, Node.itemsBy_eq_map]
    rfl
  | mapping hkeys _ _ ih =>
    rw [value, r.entries_eq_map hkeys ih, Node.valueBy, Node.entriesBy_eq_map]
    rfl

theorem valueBy_sequence_eq_iff {items : List Node} :
    (Node.sequence items).valueBy Entries.ofPairs = (Node.sequence items).valueBy id ↔
      ∀ item ∈ items, item.valueBy Entries.ofPairs = item.valueBy id := by
  rw [Node.valueBy, Node.valueBy, Value.sequence.injEq, Node.itemsBy_eq_map, Node.itemsBy_eq_map,
    List.map_inj_left]

theorem valueBy_mapping_eq_iff {entries : List (Node × Node)} :
    (Node.mapping entries).valueBy Entries.ofPairs = (Node.mapping entries).valueBy id ↔
      (entries.map (·.1.keyText)).Nodup ∧
        ∀ e ∈ entries, e.2.valueBy Entries.ofPairs = e.2.valueBy id := by
  have hkeys : ∀ arrange, (entries.map fun e => (e.1.keyText, e.2.valueBy arrange)).map (·.1) =
      entries.map (·.1.keyText) := by
    intro arrange
    rw [List.map_map]
    rfl
  have hvalues : (entries.map fun e => (e.1.keyText, e.2.valueBy Entries.ofPairs)) =
      (entries.map fun e => (e.1.keyText, e.2.valueBy id)) ↔
        ∀ e ∈ entries, e.2.valueBy Entries.ofPairs = e.2.valueBy id := by
    rw [List.map_inj_left]
    simp
  rw [Node.valueBy, Node.valueBy, Value.mapping.injEq, Node.entriesBy_eq_map,
    Node.entriesBy_eq_map, id]
  constructor
  · intro h
    have hnodup : (entries.map (·.1.keyText)).Nodup := by
      have hmap := congrArg Entries.keys h
      rw [Entries.keys_ofPairs, hkeys, Entries.keys, hkeys] at hmap
      exact hmap ▸ Entries.nodup_eraseDups _
    rw [Entries.ofPairs_eq_self_iff.mpr (by rwa [hkeys])] at h
    exact ⟨hnodup, hvalues.mp h⟩
  · rintro ⟨hnodup, hall⟩
    rw [Entries.ofPairs_eq_self_iff.mpr (by rwa [hkeys])]
    exact hvalues.mpr hall

theorem valueBy_eq_iff {node : Node} (h : node.IsPlain) :
    node.valueBy Entries.ofPairs = node.valueBy id ↔
      ∀ entries, (Node.mapping entries).Part node → ¬ Node.HasSpelledKey entries := by
  induction h with
  | @scalar n hscalar =>
    refine iff_of_true ?_ ?_
    · cases n with
      | sequence items => exact hscalar.elim
      | mapping entries => exact hscalar.elim
      | tagged tag n => exact hscalar.elim
      | _ => rfl
    · intro entries hpart
      rw [Node.part_scalar_iff hscalar] at hpart
      exact (hpart ▸ hscalar).elim
  | @sequence items _ ih =>
    rw [valueBy_sequence_eq_iff]
    constructor
    · intro hall entries hpart
      obtain ⟨item, hm, hpart⟩ := Node.part_sequence_iff.mp hpart
      exact (ih item hm).mp (hall item hm) entries hpart
    · intro hnone item hm
      exact (ih item hm).mpr fun entries hpart =>
        hnone entries (Node.part_sequence_iff.mpr ⟨item, hm, hpart⟩)
  | @mapping entries hkeys hdistinct _ ih =>
    rw [valueBy_mapping_eq_iff, Node.nodup_keyText_iff hkeys hdistinct]
    constructor
    · rintro ⟨hnone, hall⟩ inner hpart
      rcases (Node.part_mapping_iff hkeys).mp hpart with rfl | ⟨e, hm, hpart⟩
      · exact hnone
      · exact (ih e hm).mp (hall e hm) inner hpart
    · intro hnone
      refine ⟨hnone entries .self, fun e hm => (ih e hm).mpr fun inner hpart => ?_⟩
      exact hnone inner ((Node.part_mapping_iff hkeys).mpr (.inr ⟨e, hm, hpart⟩))

/-- A mapping becomes a map of the texts of its keys, each with the value of its last entry. -/
theorem value_mapping {entries : List (Node × Node)} (h : (Node.mapping entries).IsPlain) :
    ∃ config, r.value (.mapping entries) = .ok (.mapping config) ∧
      Entries.keys config = (entries.map (·.1.keyText)).eraseDups ∧
      ∀ before k v after, entries = before ++ (k, v) :: after →
        (∀ e ∈ after, e.1.keyText ≠ k.keyText) →
        ∃ x, r.value v = .ok x ∧ Entries.get? k.keyText config = some x := by
  have hvalue := r.value_plain h
  rw [Node.valueBy, Node.entriesBy_eq_map] at hvalue
  refine ⟨_, hvalue, ?_, ?_⟩
  · rw [Entries.keys_ofPairs, List.map_map]
    rfl
  · rintro before k v after rfl hafter
    have hv : v.IsPlain := h.part (.value (List.mem_append_right _ List.mem_cons_self) .self)
    refine ⟨_, r.value_plain hv, ?_⟩
    rw [List.map_append, List.map_cons, Entries.get?_ofPairs_append]
    rw [List.map_map, List.mem_map]
    rintro ⟨e, he, htext⟩
    exact hafter e he htext

/-- The value of a document without tags keeps every entry of every mapping if and only if no
mapping has a string for a key that spells another key. Otherwise the last of the entries whose
keys have one text replaces the others, at the place of the first. -/
theorem value_plain_iff {node : Node} (h : node.IsPlain) :
    (∃ v, r.value node = .ok v) ∧
      (r.value node = .ok (node.valueBy id) ↔
        ∀ entries, (Node.mapping entries).Part node → ¬ Node.HasSpelledKey entries) ∧
      ∀ entries, (Node.mapping entries).Part node →
        ∃ config, r.value (.mapping entries) = .ok (.mapping config) ∧
          Entries.keys config = (entries.map (·.1.keyText)).eraseDups ∧
          ∀ before k v after, entries = before ++ (k, v) :: after →
            (∀ e ∈ after, e.1.keyText ≠ k.keyText) →
            ∃ x, r.value v = .ok x ∧ Entries.get? k.keyText config = some x := by
  have hvalue := r.value_plain h
  refine ⟨⟨_, hvalue⟩, ?_, fun entries hpart => r.value_mapping (h.part hpart)⟩
  rw [hvalue, Except.ok.injEq, valueBy_eq_iff h]

theorem value_plain_iff_numbers :
    let half : Number := .float (.finite false 6755399441055744 (-52))
    let node : Node := .mapping [(.number (.int 1), .number half), (.bool true, .string "yes")]
    node.IsPlain ∧
      empty.value node = .ok (.mapping [("1", .number half), ("true", .string "yes")]) := by
  intro half node
  have hhalf : (Node.number half).IsScalar := ⟨by decide, by decide, .inl (by decide)⟩
  have hkeys : ∀ e ∈ [(Node.number (.int 1), Node.number half), (.bool true, .string "yes")],
      e.1.IsScalar := by simp [Node.IsScalar, Number.IsRounded]
  have hvalues : ∀ e ∈ [(Node.number (.int 1), Node.number half), (.bool true, .string "yes")],
      e.2.IsScalar := by simpa [Node.IsScalar] using hhalf
  have hplain : node.IsPlain := .mapping hkeys rfl fun e he => .scalar (hvalues e he)
  refine ⟨hplain, (empty.value_plain_iff hplain).2.1.mpr ?_⟩
  rintro entries hpart ⟨e, he, _, _, hstring, _⟩
  rcases (Node.part_mapping_iff hkeys).mp hpart with rfl | ⟨e', he', hpart⟩
  · rcases List.mem_cons.mp he with rfl | he
    · cases hstring
    · rw [List.mem_singleton.mp he] at hstring
      cases hstring
  · have hscalar := hvalues e' he'
    rw [Node.part_scalar_iff hscalar] at hpart
    rw [← hpart] at hscalar
    exact hscalar

/-- Of the keys `1` and `'1'` only the first is kept, with the value of the second. -/
theorem value_spelled_key :
    let node : Node := .mapping [(.number (.int 1), .string "one"), (.string "1", .string "two")]
    node.IsPlain ∧ empty.value node = .ok (.mapping [("1", .string "two")]) ∧
      node.valueBy id = .mapping [("1", .string "one"), ("1", .string "two")] := by
  have hkeys : ∀ e ∈ [(Node.number (.int 1), Node.string "one"), (.string "1", .string "two")],
      e.1.IsScalar := by simp [Node.IsScalar, Number.IsRounded]
  have hvalues : ∀ e ∈ [(Node.number (.int 1), Node.string "one"), (.string "1", .string "two")],
      e.2.IsScalar := by simp [Node.IsScalar]
  have hplain := Node.IsPlain.mapping hkeys rfl fun e he => .scalar (hvalues e he)
  exact ⟨hplain, empty.value_plain hplain, rfl⟩

end StaticSite.Registry
