import Mathlib.Data.List.Nodup
import StaticSite.Proofs.Config.Merge

/-! Merging as an operation on maps. A map is known by the order of its keys
and by what lies under each, so laws of merging are laws of overlaid values,
from one level to the next. -/

namespace StaticSite

namespace Entries

variable {α : Type}

@[simp] theorem get?_eq_none_iff {es : Entries α} {key : Text} :
    get? key es = none ↔ key ∉ es.keys := by
  rw [← has_iff, has, Bool.not_eq_true, Option.isSome_eq_false_iff, Option.isNone_iff_eq_none]

/-- Without a key that comes twice, entries are known by their keys and what these lead to. -/
theorem ext_get? {es fs : Entries α} (hnodup : es.keys.Nodup) (hkeys : es.keys = fs.keys)
    (hget : ∀ key, get? key es = get? key fs) : es = fs := by
  induction es generalizing fs with
  | nil =>
    cases fs with
    | nil => rfl
    | cons f fs => cases hkeys
  | cons e es ih =>
    obtain ⟨k, v⟩ := e
    cases fs with
    | nil => cases hkeys
    | cons f fs =>
      obtain ⟨k', w⟩ := f
      obtain ⟨rfl, htail⟩ : k = k' ∧ Entries.keys es = Entries.keys fs := List.cons.inj hkeys
      obtain ⟨hk, hnodup⟩ := List.nodup_cons.mp hnodup
      have hfirst := hget k
      simp only [get?, if_true, Option.some.injEq] at hfirst
      have hrest : es = fs := by
        apply ih hnodup htail
        intro key
        by_cases h : k = key
        · subst h
          have hes : get? k es = none := get?_eq_none_iff.mpr hk
          have hfs : get? k fs = none := get?_eq_none_iff.mpr (htail ▸ hk)
          rw [hes, hfs]
        · have hkey := hget key
          simpa only [get?, if_neg h] using hkey
      rw [hfirst, hrest]

end Entries

namespace Value

theorem eq_mapping_or (v : Value) : (∃ es, v = mapping es) ∨ v.entries? = none := by
  cases v with
  | mapping es => exact .inl ⟨es, rfl⟩
  | _ => exact .inr rfl

/-- Keys lead to a mapping only from a mapping. -/
theorem eq_mapping_of_follow {keys : List Text} {v : Value} {config : Config}
    (h : follow keys v = some (mapping config)) : ∃ es, v = mapping es := by
  rcases v.eq_mapping_or with hv | hv
  · exact hv
  · cases keys with
    | nil =>
      cases h
      cases hv
    | cons key keys =>
      rw [follow_eq_none (by simp) hv] at h
      cases h

theorem overlay_eq_mapping {below above : Option Value} {config : Config}
    (h : overlay below above = some (mapping config)) :
    below = some (mapping config) ∨ above = some (mapping config) ∨
      ∃ parent child, below = some (mapping parent) ∧ above = some (mapping child) ∧
        config = Config.merge parent child := by
  cases above with
  | none => exact .inl (by simpa using h)
  | some v =>
    rcases v.eq_mapping_or with ⟨child, rfl⟩ | hv
    · by_cases hb : ∃ parent, below = some (mapping parent)
      · obtain ⟨parent, rfl⟩ := hb
        rw [overlay_mapping] at h
        exact .inr (.inr ⟨parent, child, rfl, rfl, (mapping.inj (Option.some.inj h)).symm⟩)
      · rw [overlay_mapping_of_ne fun parent he => hb ⟨parent, he⟩] at h
        exact .inr (.inl h)
    · rw [overlay_of_not_mapping _ hv] at h
      exact .inr (.inl h)

/-- What lies above may be laid there again, if this holds of mappings. -/
theorem overlay_overlay_self {below above : Option Value}
    (hself : ∀ child : Config, above = some (mapping child) → child.merge child = child)
    (hmerge : ∀ parent child : Config, below = some (mapping parent) →
      above = some (mapping child) → (parent.merge child).merge child = parent.merge child) :
    overlay (overlay below above) above = overlay below above := by
  cases above with
  | none => simp
  | some v =>
    rcases v.eq_mapping_or with ⟨child, rfl⟩ | hv
    · by_cases hb : ∃ parent, below = some (mapping parent)
      · obtain ⟨parent, rfl⟩ := hb
        simp [hmerge parent child rfl rfl]
      · rw [overlay_mapping_of_ne fun parent he => hb ⟨parent, he⟩, overlay_mapping,
          hself child rfl]
    · rw [overlay_of_not_mapping _ hv, overlay_of_not_mapping _ hv]

/-- Three values may be laid over each other in either order, if this holds of mappings and
no mapping lies on each side of something else. -/
theorem overlay_assoc {a b c : Option Value}
    (hbetween : ∀ as cs v, a = some (mapping as) → c = some (mapping cs) → b = some v →
      ∃ bs, v = mapping bs)
    (hmerge : ∀ as bs cs : Config, a = some (mapping as) → b = some (mapping bs) →
      c = some (mapping cs) → (as.merge bs).merge cs = as.merge (bs.merge cs)) :
    overlay (overlay a b) c = overlay a (overlay b c) := by
  cases c with
  | none => simp
  | some w =>
    rcases w.eq_mapping_or with ⟨cs, rfl⟩ | hw
    · cases b with
      | none => simp
      | some v =>
        by_cases ha : ∃ as, a = some (mapping as)
        · obtain ⟨as, rfl⟩ := ha
          obtain ⟨bs, rfl⟩ := hbetween as cs v rfl rfl rfl
          simp [hmerge as bs cs rfl rfl rfl]
        · have hne : ∀ as, a ≠ some (mapping as) := fun as he => ha ⟨as, he⟩
          rcases v.eq_mapping_or with ⟨bs, rfl⟩ | hv
          · rw [overlay_mapping_of_ne hne, overlay_mapping, overlay_mapping_of_ne hne]
          · have hb : ∀ bs, some v ≠ some (mapping bs) := by
              rintro bs he
              cases he
              cases hv
            rw [overlay_of_not_mapping _ hv, overlay_mapping_of_ne hb, overlay_mapping_of_ne hne]
    · rw [overlay_of_not_mapping _ hw, overlay_of_not_mapping _ hw, overlay_of_not_mapping _ hw]

end Value

namespace Config

open Value (overlay follow)

theorem sizeOf_below {config below : Config} {key : Text}
    (h : config.get? key = some (.mapping below)) : sizeOf below < sizeOf config := by
  have hmem := List.sizeOf_lt_of_mem (Entries.mem_of_get? h)
  simp only [Prod.mk.sizeOf_spec, Value.mapping.sizeOf_spec] at hmem
  omega

/-- What holds of a configuration if it holds of all that lie in it under one key, holds of all. -/
theorem induction_below {P : Config → Prop}
    (h : ∀ config : Config,
      (∀ key below, config.get? key = some (.mapping below) → P below) → P config)
    (config : Config) : P config := by
  induction hn : sizeOf config using Nat.strongRecOn generalizing config with
  | ind n ih =>
    apply h
    intro key below hbelow
    have hless := sizeOf_below hbelow
    exact ih (sizeOf below) (hn ▸ hless) below rfl

/-- No key comes twice, at the top or wherever keys lead to a mapping. -/
def IsMap (config : Config) : Prop :=
  ∀ keys below, follow keys (.mapping config) = some (.mapping below) →
    (Entries.keys below).Nodup

theorem IsMap.below {config below : Config} {key : Text} (h : config.IsMap)
    (hbelow : config.get? key = some (.mapping below)) : IsMap below := by
  intro keys deeper hdeeper
  apply h (key :: keys)
  rw [follow_cons, hbelow]
  exact hdeeper

theorem isMap_iff {config : Config} : config.IsMap ↔ config.keys.Nodup ∧
    ∀ key below, config.get? key = some (.mapping below) → IsMap below := by
  constructor
  · intro h
    exact ⟨h [] config rfl, fun key below => h.below⟩
  · rintro ⟨hnodup, hbelow⟩ keys deeper hdeeper
    cases keys with
    | nil =>
      cases hdeeper
      exact hnodup
    | cons key keys =>
      rw [follow_cons] at hdeeper
      obtain ⟨v, hv, hkeys⟩ := Option.bind_eq_some_iff.mp hdeeper
      obtain ⟨below, rfl⟩ := Value.eq_mapping_of_follow hkeys
      exact hbelow key below hv keys deeper hkeys

theorem isMap_of_mem {config : Config} (hnodup : config.keys.Nodup)
    (h : ∀ key below, (key, .mapping below) ∈ config → IsMap below) : config.IsMap :=
  isMap_iff.mpr ⟨hnodup, fun key below hbelow => h key below (Entries.mem_of_get? hbelow)⟩

theorem isMap_nil : IsMap [] := isMap_of_mem List.nodup_nil fun _ _ h => absurd h List.not_mem_nil

theorem nodup_keys_merge {parent child : Config} (hp : parent.keys.Nodup) (hc : child.keys.Nodup) :
    (parent.merge child).keys.Nodup := by
  rw [keys_merge]
  refine List.nodup_append'.mpr ⟨hp, hc.filter _, ?_⟩
  intro key hparent hnew
  exact of_decide_eq_true (List.mem_filter.mp hnew).2 hparent

theorem IsMap.merge {parent child : Config} (hp : parent.IsMap) (hc : child.IsMap) :
    (parent.merge child).IsMap := by
  intro keys below hbelow
  by_cases hblocked : child.BlockedAlong keys
  · rw [follow_merge_of_blocked hblocked] at hbelow
    cases hbelow
  · rw [follow_merge hblocked] at hbelow
    rcases Value.overlay_eq_mapping hbelow with h | h | ⟨parent', child', hparent, hchild, rfl⟩
    · exact hp keys below h
    · exact hc keys below h
    · exact nodup_keys_merge (hp keys parent' hparent) (hc keys child' hchild)

@[simp] theorem nil_merge (config : Config) : merge [] config = config := by
  have hnew : ∀ e : Text × Value, Entries.has ([] : Config) e.1 = false := fun _ => rfl
  simp [merge, Value.overrideAll, hnew]

@[simp] theorem merge_nil (config : Config) : config.merge [] = config := by
  have hkept : Value.overrideAll config [] = config := by
    induction config with
    | nil => rfl
    | cons e config ih =>
      obtain ⟨key, v⟩ := e
      have hv : v.override none = v := by cases v <;> rfl
      rw [Value.overrideAll, ih]
      exact congrArg (fun w => (key, w) :: config) hv
  rw [merge, hkept]
  simp

theorem keys_merge_self (parent child : Config) :
    ((parent.merge child).merge child).keys = (parent.merge child).keys := by
  have hnone : child.keys.filter (· ∉ (parent.merge child).keys) = [] := by
    rw [List.filter_eq_nil_iff]
    intro key hkey hnew
    apply of_decide_eq_true hnew
    by_cases hparent : key ∈ parent.keys
    · simp [hparent]
    · simp [hparent, hkey]
  rw [keys_merge (parent.merge child), hnone, List.append_nil]

theorem merge_merge_self {parent child : Config} (hp : parent.IsMap) (hc : child.IsMap) :
    (parent.merge child).merge child = parent.merge child := by
  induction child using induction_below generalizing parent with
  | h child ih =>
    have hnodup := (isMap_iff.mp ((hp.merge hc).merge hc)).1
    apply Entries.ext_get? hnodup (keys_merge_self parent child)
    intro key
    rw [get?_merge, get?_merge]
    apply Value.overlay_overlay_self
    · -- merged under nothing, and then again
      intro below hbelow
      simpa using ih key below hbelow isMap_nil (hc.below hbelow)
    · intro above below habove hbelow
      exact ih key below hbelow (hp.below habove) (hc.below hbelow)

/-- At some path of keys there are mappings on both sides of something else. -/
def Masked (a b c : Config) : Prop :=
  ∃ keys as v cs, follow keys (.mapping a) = some (.mapping as) ∧
    follow keys (.mapping b) = some v ∧ v.entries? = none ∧
    follow keys (.mapping c) = some (.mapping cs)

theorem not_masked_iff {a b c : Config} : ¬ Masked a b c ↔
    (∀ key as cs v, a.get? key = some (.mapping as) → c.get? key = some (.mapping cs) →
      b.get? key = some v → ∃ bs, v = .mapping bs ∧ ¬ Masked as bs cs) := by
  constructor
  · intro h key as cs v ha hc hb
    rcases v.eq_mapping_or with ⟨bs, rfl⟩ | hv
    · refine ⟨bs, rfl, ?_⟩
      rintro ⟨keys, as', w, cs', has, hbs, hw, hcs⟩
      exact h ⟨key :: keys, as', w, cs', by simpa [ha] using has, by simpa [hb] using hbs, hw,
        by simpa [hc] using hcs⟩
    · exact absurd ⟨[key], as, v, cs, by simp [ha], by simp [hb], hv, by simp [hc]⟩ h
  · rintro h ⟨keys, as, v, cs, has, hbs, hv, hcs⟩
    cases keys with
    | nil =>
      cases hbs
      cases hv
    | cons key keys =>
      rw [follow_cons] at has hbs hcs
      obtain ⟨x, hx, has⟩ := Option.bind_eq_some_iff.mp has
      obtain ⟨y, hy, hbs⟩ := Option.bind_eq_some_iff.mp hbs
      obtain ⟨z, hz, hcs⟩ := Option.bind_eq_some_iff.mp hcs
      obtain ⟨_, rfl⟩ := Value.eq_mapping_of_follow has
      obtain ⟨_, rfl⟩ := Value.eq_mapping_of_follow hcs
      obtain ⟨_, rfl, hdeep⟩ := h key _ _ y hx hz hy
      exact hdeep ⟨keys, as, v, cs, has, hbs, hv, hcs⟩

theorem keys_merge_assoc (a b c : Config) :
    ((a.merge b).merge c).keys = (a.merge (b.merge c)).keys := by
  have hnew : c.keys.filter (· ∉ (a.merge b).keys) =
      (c.keys.filter (· ∉ b.keys)).filter (· ∉ a.keys) := by
    rw [List.filter_filter]
    apply List.filter_congr
    intro key _
    by_cases ha : key ∈ a.keys
    · simp [ha]
    · simp [ha]
  rw [keys_merge (a.merge b), hnew, keys_merge a b, keys_merge a, keys_merge b c,
    List.filter_append, List.append_assoc]

theorem merge_assoc {a b c : Config} (ha : a.IsMap) (hb : b.IsMap) (hc : c.IsMap)
    (h : ¬ Masked a b c) : (a.merge b).merge c = a.merge (b.merge c) := by
  induction a using induction_below generalizing b c with
  | h a ih =>
    have hnodup := (isMap_iff.mp ((ha.merge hb).merge hc)).1
    have hbelow := not_masked_iff.mp h
    apply Entries.ext_get? hnodup (keys_merge_assoc a b c)
    intro key
    rw [get?_merge, get?_merge, get?_merge, get?_merge]
    apply Value.overlay_assoc
    · intro as cs v has hcs hv
      obtain ⟨bs, hbs, _⟩ := hbelow key as cs v has hcs hv
      exact ⟨bs, hbs⟩
    · intro as bs cs has hbs hcs
      obtain ⟨_, he, hdeep⟩ := hbelow key as cs _ has hcs hbs
      cases he
      exact ih key as has (ha.below has) (hb.below hbs) (hc.below hcs) hdeep

/-- What the middle map has masked comes back if the last two are merged first. -/
example :
    let a : Config := [("theme", .mapping [("name", .string "plain")])]
    let b : Config := [("theme", .null)]
    let c : Config := [("theme", .mapping [("tone", .bool true)])]
    ((a.merge b).merge c).getPath "theme.name" = none ∧
      (a.merge (b.merge c)).getPath "theme.name" = some (.string "plain") :=
  ⟨rfl, rfl⟩

/-- Maps are closed under merging, with the empty map on either side it changes nothing, a child
merged once more changes nothing, and three maps may be merged in either order unless the middle
one masks a mapping. -/
theorem merge_laws {a b c : Config} (ha : a.IsMap) (hb : b.IsMap) (hc : c.IsMap) :
    (a.merge b).IsMap ∧ merge [] a = a ∧ a.merge [] = a ∧
      (a.merge b).merge b = a.merge b ∧ a.merge a = a ∧
      (¬ Masked a b c → (a.merge b).merge c = a.merge (b.merge c)) := by
  have hself := merge_merge_self isMap_nil ha
  rw [nil_merge] at hself
  exact ⟨ha.merge hb, nil_merge a, merge_nil a, merge_merge_self ha hb, hself,
    merge_assoc ha hb hc⟩

theorem merge_laws_theme :
    let a : Config := [("theme", .mapping [("name", .string "plain"), ("tone", .null)]),
      ("nav", .string "index.md")]
    let b : Config := [("nav", .mapping [("home", .string "index.md")]),
      ("theme", .mapping [("tone", .bool true)])]
    let c : Config := [("nav", .mapping [("blog", .string "blog/")]),
      ("theme", .mapping [("dark", .null), ("name", .string "night")])]
    a.IsMap ∧ b.IsMap ∧ c.IsMap ∧ ¬ Masked a b c ∧
      (a.merge b).merge c = a.merge (b.merge c) := by
  intro a b c
  have hleaf : ∀ t es, Value.string t = .mapping es → Config.IsMap es := by
    intro t es he
    cases he
  have hflat : ∀ config : Config, config.keys.Nodup → (∀ e ∈ config, e.2.entries? = none) →
      ∀ es, Value.mapping config = .mapping es → Config.IsMap es := by
    rintro config hnodup hscalar _ ⟨⟩
    refine isMap_of_mem hnodup fun key below hmem => ?_
    cases hscalar _ hmem
  have htwo : ∀ (key key' : Text) (v v' : Value), key ≠ key' →
      (∀ es, v = .mapping es → Config.IsMap es) → (∀ es, v' = .mapping es → Config.IsMap es) →
      Config.IsMap [(key, v), (key', v')] := by
    intro key key' v v' hne hv hv'
    refine isMap_of_mem (by simpa [Entries.keys] using hne) fun k below hmem => ?_
    rcases List.mem_cons.mp hmem with he | hmem
    · exact hv below (congrArg Prod.snd he).symm
    · exact hv' below (congrArg Prod.snd (List.mem_singleton.mp hmem)).symm
  have ha : a.IsMap :=
    htwo _ _ _ _ (by decide) (hflat _ (by decide) (by simp [Value.entries?])) (hleaf _)
  have hb : b.IsMap :=
    htwo _ _ _ _ (by decide) (hflat _ (by decide) (by simp [Value.entries?]))
      (hflat _ (by decide) (by simp [Value.entries?]))
  have hc : c.IsMap :=
    htwo _ _ _ _ (by decide) (hflat _ (by decide) (by simp [Value.entries?]))
      (hflat _ (by decide) (by simp [Value.entries?]))
  have hmasked : ¬ Masked a b c := by
    rw [not_masked_iff]
    intro key as cs v has hcs hv
    rcases List.mem_cons.mp (Entries.mem_of_get? has) with he | hmem
    · cases he
      have hb : b.get? "theme" = some (.mapping [("tone", .bool true)]) := rfl
      refine ⟨_, (Option.some.inj (hb.symm.trans hv)).symm, ?_⟩
      -- below the theme the first map has no mappings any more
      rw [not_masked_iff]
      intro key as' cs' v' has'
      rcases List.mem_cons.mp (Entries.mem_of_get? has') with he | hmem
      · cases he
      · cases List.mem_singleton.mp hmem
    · cases List.mem_singleton.mp hmem
  exact ⟨ha, hb, hc, hmasked, (merge_laws ha hb hc).2.2.2.2.2 hmasked⟩

end Config

end StaticSite
