import StaticSite.Config.Merge
import StaticSite.Proofs.Text.Separated

/-! Merged configurations by key paths. At a path there is what the child has
there over what the parent has, unless the child has something else than a
mapping on the way. -/

namespace StaticSite

namespace Entries

variable {α : Type}

theorem get?_append (key : Text) (es fs : Entries α) :
    get? key (es ++ fs) = (get? key es).or (get? key fs) := by
  induction es with
  | nil => simp [get?]
  | cons e es ih =>
    obtain ⟨k, v⟩ := e
    by_cases h : k = key
    · simp [get?, h]
    · simp [get?, h, ih]

theorem get?_filter (p : Text → Bool) (key : Text) (es : Entries α) :
    get? key (es.filter (p ·.1)) = if p key then get? key es else none := by
  induction es with
  | nil => simp [get?]
  | cons e es ih =>
    obtain ⟨k, v⟩ := e
    by_cases h : k = key
    · subst h
      by_cases hp : p k
      · simp [hp, get?]
      · simpa [List.filter_cons, hp] using ih
    · by_cases hp : p k
      · simp [hp, get?, h, ih]
      · simp [hp, get?, h, ih]

@[simp] theorem has_iff {es : Entries α} {key : Text} : es.has key = true ↔ key ∈ es.keys := by
  induction es with
  | nil => simp [has, get?, keys]
  | cons e es ih =>
    obtain ⟨k, v⟩ := e
    by_cases h : k = key
    · simp [has, get?, keys, h]
    · simpa [has, get?, keys, h, Ne.symm h] using ih

end Entries

namespace Value

/-- A value under what may lie in its place. -/
def overlay (below : Option Value) (above : Option Value) : Option Value :=
  match below with
  | none => above
  | some v => some (v.override above)

@[simp] theorem none_overlay (above : Option Value) : overlay none above = above := rfl

@[simp] theorem overlay_none (below : Option Value) : overlay below none = below := by
  cases below with
  | none => rfl
  | some v => cases v <;> rfl

theorem overlay_of_not_mapping (below : Option Value) {v : Value} (h : v.entries? = none) :
    overlay below (some v) = some v := by
  cases below with
  | none => rfl
  | some w =>
    cases w with
    | mapping es =>
      cases v with
      | mapping cs => cases h
      | _ => rfl
    | _ => rfl

@[simp] theorem overlay_mapping (parent child : Config) :
    overlay (some (mapping parent)) (some (mapping child)) = some (mapping (parent.merge child)) :=
  rfl

theorem overlay_mapping_of_ne {below : Option Value} (h : ∀ parent, below ≠ some (mapping parent))
    (child : Config) : overlay below (some (mapping child)) = some (mapping child) := by
  cases below with
  | none => rfl
  | some w =>
    cases w with
    | mapping es => exact absurd rfl (h es)
    | _ => rfl

@[simp] theorem follow_nil (v : Value) : follow [] v = some v := rfl

theorem follow_append (before after : List Text) (v : Value) :
    follow (before ++ after) v = (follow before v).bind (follow after) := by
  induction before generalizing v with
  | nil => rfl
  | cons key before ih =>
    cases h : v.entries?.bind (Entries.get? key) with
    | none => simp [follow, h]
    | some w => simp [follow, h, ih]

theorem follow_eq_none {keys : List Text} (hkeys : keys ≠ []) {v : Value} (h : v.entries? = none) :
    follow keys v = none := by
  cases keys with
  | nil => exact absurd rfl hkeys
  | cons key keys => simp [follow, h]

/-- Below what is no mapping nothing lies under a mapping. -/
theorem overlay_follow_of_ne {below : Option Value} (h : ∀ parent, below ≠ some (mapping parent))
    (keys : List Text) (child : Config) :
    overlay (below.bind (follow keys)) (follow keys (mapping child)) = follow keys (mapping child) := by
  cases below with
  | none => rfl
  | some v =>
    cases keys with
    | nil => exact overlay_mapping_of_ne h child
    | cons key keys =>
      have hv : v.entries? = none := by
        cases v with
        | mapping es => exact absurd rfl (h es)
        | _ => rfl
      rw [Option.bind_some, follow_eq_none (by simp) hv]
      rfl

end Value

namespace Config

open Value (overlay follow)

@[simp] theorem get?_merge (parent child : Config) (key : Text) :
    (parent.merge child).get? key = overlay (parent.get? key) (child.get? key) := by
  have hnew : Entries.get? key (child.filter (!parent.has ·.1)) =
      if !parent.has key then child.get? key else none :=
    Entries.get?_filter (!parent.has ·) key child
  rw [merge, Entries.get?_append, Value.get?_overrideAll, hnew]
  cases h : parent.get? key with
  | none => simp [Entries.has, h, overlay]
  | some v => simp [overlay]

@[simp] theorem keys_merge (parent child : Config) :
    (parent.merge child).keys = parent.keys ++ child.keys.filter (· ∉ parent.keys) := by
  have hkept : (Value.overrideAll parent child).map (·.1) = parent.map (·.1) := by
    induction parent with
    | nil => rfl
    | cons e parent ih => simp [Value.overrideAll, ih]
  have hnew : ∀ e : Text × Value, (!parent.has e.1) = decide (e.1 ∉ parent.keys) := by
    intro e
    rw [Bool.eq_iff_iff, Bool.not_eq_true', ← Bool.not_eq_true, Entries.has_iff, decide_eq_true_iff]
  rw [merge, Entries.keys, List.map_append, hkept]
  simp only [hnew, Entries.keys, List.filter_map]
  rfl

@[simp] theorem follow_cons (config : Config) (key : Text) (keys : List Text) :
    follow (key :: keys) (.mapping config) = (config.get? key).bind (follow keys) := rfl

/-- Something else than a mapping lies on the way along some keys, before the last of them. -/
def BlockedAlong (config : Config) (keys : List Text) : Prop :=
  ∃ before after v, keys = before ++ after ∧ after ≠ [] ∧
    follow before (.mapping config) = some v ∧ v.entries? = none

theorem BlockedAlong.cons {config below : Config} {key : Text} {keys : List Text}
    (h : config.get? key = some (.mapping below)) (hb : below.BlockedAlong keys) :
    config.BlockedAlong (key :: keys) := by
  obtain ⟨before, after, v, hkeys, hafter, hv, hm⟩ := hb
  exact ⟨key :: before, after, v, by rw [hkeys, List.cons_append], hafter,
    by simp [h, hv], hm⟩

theorem BlockedAlong.eq_none {config : Config} {keys : List Text} (h : config.BlockedAlong keys) :
    follow keys (.mapping config) = none := by
  obtain ⟨before, after, v, rfl, hafter, hv, hm⟩ := h
  rw [Value.follow_append, hv]
  exact Value.follow_eq_none hafter hm

theorem follow_merge {parent child : Config} {keys : List Text} (h : ¬ child.BlockedAlong keys) :
    follow keys (.mapping (parent.merge child)) =
      overlay (follow keys (.mapping parent)) (follow keys (.mapping child)) := by
  induction keys generalizing parent child with
  | nil => rfl
  | cons key keys ih =>
    rw [follow_cons, follow_cons, follow_cons, get?_merge]
    cases hc : child.get? key with
    | none => simp
    | some w =>
      by_cases hw : w.entries? = none
      · -- such a value may only lie at the end of the keys
        have hkeys : keys = [] := by
          cases keys with
          | nil => rfl
          | cons k ks =>
            have hat : follow [key] (.mapping child) = some w := by simp [hc]
            exact absurd ⟨[key], k :: ks, w, rfl, by simp, hat, hw⟩ h
        rw [hkeys, Value.overlay_of_not_mapping _ hw]
        exact (Value.overlay_of_not_mapping _ hw).symm
      · obtain ⟨cs, rfl⟩ : ∃ cs, w = .mapping cs := by
          cases w with
          | mapping cs => exact ⟨cs, rfl⟩
          | _ => exact absurd rfl hw
        have hdeep : ¬ Config.BlockedAlong cs keys := fun hb => h (hb.cons hc)
        by_cases hp : ∃ es, parent.get? key = some (.mapping es)
        · obtain ⟨es, hp⟩ := hp
          rw [hp]
          exact ih hdeep
        · have hne : ∀ es, parent.get? key ≠ some (.mapping es) := fun es he => hp ⟨es, he⟩
          rw [Value.overlay_mapping_of_ne hne]
          exact (Value.overlay_follow_of_ne hne keys cs).symm

theorem follow_merge_of_blocked {parent child : Config} {keys : List Text}
    (h : child.BlockedAlong keys) : follow keys (.mapping (parent.merge child)) = none := by
  obtain ⟨before, after, v, rfl, hafter, hv, hm⟩ := h
  have hbefore : ¬ child.BlockedAlong before := by
    intro hb
    rw [hb.eq_none] at hv
    cases hv
  rw [Value.follow_append, follow_merge hbefore, hv, Value.overlay_of_not_mapping _ hm]
  exact Value.follow_eq_none hafter hm

/-- Something else than a mapping lies at a path that goes on towards another one. -/
def Blocked (config : Config) (path : Text) : Prop :=
  ∃ start rest v, path = start ++ '.' :: rest ∧ config.getPath start = some v ∧ v.entries? = none

theorem blocked_iff (config : Config) (path : Text) :
    config.Blocked path ↔ config.BlockedAlong (Text.splitOn '.' path) := by
  constructor
  · rintro ⟨start, rest, v, rfl, hv, hm⟩
    exact ⟨Text.splitOn '.' start, Text.splitOn '.' rest, v, by simp, by simp, hv, hm⟩
  · rintro ⟨before, after, v, hkeys, hafter, hv, hm⟩
    have hbefore : before ≠ [] := by
      rintro rfl
      cases hv
      cases hm
    have hfields : ∀ f ∈ before ++ after, '.' ∉ f := by
      intro f hf
      rw [← hkeys] at hf
      exact Text.not_mem_of_mem_splitOn hf
    have hstart := Text.splitOn_joinWith hbefore fun f hf => hfields f (List.mem_append_left _ hf)
    have hrest := Text.splitOn_joinWith hafter fun f hf => hfields f (List.mem_append_right _ hf)
    refine ⟨Text.joinWith '.' before, Text.joinWith '.' after, v, ?_, ?_, hm⟩
    · rw [← Text.joinWith_splitOn '.' path, ← Text.joinWith_splitOn '.'
        (Text.joinWith '.' before ++ '.' :: Text.joinWith '.' after), Text.splitOn_append_cons,
        hstart, hrest, hkeys]
    · rw [getPath, hstart, hv]

theorem getPath_merge_of_blocked (parent : Config) {child : Config} {path : Text}
    (h : child.Blocked path) : (parent.merge child).getPath path = none :=
  follow_merge_of_blocked ((blocked_iff child path).mp h)

theorem getPath_merge_of_not_blocked (parent : Config) {child : Config} {path : Text}
    (h : ¬ child.Blocked path) :
    (parent.merge child).getPath path = overlay (parent.getPath path) (child.getPath path) :=
  follow_merge (mt (blocked_iff child path).mpr h)

theorem not_blocked_of_getPath {config : Config} {path : Text} {v : Value}
    (h : config.getPath path = some v) : ¬ config.Blocked path := by
  intro hb
  have hnone : config.getPath path = none := ((blocked_iff config path).mp hb).eq_none
  rw [hnone] at h
  cases h

end Config

end StaticSite
