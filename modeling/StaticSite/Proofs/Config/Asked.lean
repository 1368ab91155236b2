import Mathlib.Data.Finset.Card
import StaticSite.Config.Loader

/-! What loading asks its source for. Its result hangs on nothing else of the
source, and where documents have finitely many identities it asks for no more
documents than these and one. -/

namespace StaticSite

namespace Inheritance

/-- What loading asks its source for below the documents visited: names, and the documents that
they are seen from. -/
def askedBelow (i : Inheritance) (visited : List Text) (document : Document) (r : Option Text) :
    Option (List (Text × Option Text)) :=
  if document.id ∈ visited then some []
  else match i.own document with
    | .error _ => some []
    | .ok config => match config.get? ConfigError.parentKey with
      | none => some []
      | some (.string name) => match i.read name r with
        | .error _ => some [(name, r)]
        | .ok parent => do
          let askedParent := i.askedBelow (r := some parent.id)
          let above ← askedParent (visited ++ [document.id]) parent
          return (name, r) :: above
      | some _ => some []
partial_fixpoint

def asked (i : Inheritance) (name : Text) : Option (List (Text × Option Text)) :=
  match i.read name none with
  | .error _ => some [(name, none)]
  | .ok document => do return (name, none) :: (← i.askedBelow [] document (some document.id))

variable {i j : Inheritance} {visited : List Text} {document : Document} {referrer : Option Text}

/-- Loading gets as far as to look for a parent of a document below those visited. -/
def LooksFor (i : Inheritance) (visited : List Text) (document : Document) (name : Text) : Prop :=
  document.id ∉ visited ∧ ∃ config, i.own document = .ok config ∧
    Entries.get? ConfigError.parentKey config = some (.string name)

theorem askedBelow_of_not_looksFor (h : ¬ ∃ name, i.LooksFor visited document name) :
    i.askedBelow visited document referrer = some [] := by
  rw [askedBelow]
  by_cases hv : document.id ∈ visited
  · rw [if_pos hv]
  · rw [if_neg hv]
    split
    · rfl
    · rename_i config hown
      split
      · rfl
      · rename_i name hkey
        exact absurd ⟨name, hv, config, hown, hkey⟩ h
      · rfl

theorem askedBelow_of_fault {name : Text} {e : SourceError} (h : i.LooksFor visited document name)
    (hread : i.read name referrer = .error e) :
    i.askedBelow visited document referrer = some [(name, referrer)] := by
  obtain ⟨hv, config, hown, hkey⟩ := h
  rw [askedBelow, if_neg hv]
  simp only [hown, hkey, hread]

theorem askedBelow_of_parent {name : Text} {parent : Document}
    (h : i.LooksFor visited document name) (hread : i.read name referrer = .ok parent) :
    i.askedBelow visited document referrer =
      (i.askedBelow (visited ++ [document.id]) parent (some parent.id)).map
        ((name, referrer) :: ·) := by
  obtain ⟨hv, config, hown, hkey⟩ := h
  rw [askedBelow, if_neg hv]
  simp only [hown, hkey, hread]
  cases i.askedBelow (visited ++ [document.id]) parent (some parent.id) with
  | none => rfl
  | some asked => rfl

theorem loadBelow_congr (hown : document.id ∉ visited → j.own document = i.own document)
    (h : ∀ name, i.LooksFor visited document name → j.read name referrer = i.read name referrer ∧
      ∀ parent, i.read name referrer = .ok parent →
        j.loadBelow (visited ++ [document.id]) parent (some parent.id) =
          i.loadBelow (visited ++ [document.id]) parent (some parent.id)) :
    j.loadBelow visited document referrer = i.loadBelow visited document referrer := by
  rw [loadBelow, loadBelow]
  by_cases hv : document.id ∈ visited
  · rw [if_pos hv, if_pos hv]
  · rw [if_neg hv, if_neg hv, hown hv]
    split
    · rfl
    · rename_i config hown
      split
      · rfl
      · rename_i name hkey
        obtain ⟨hread, hparent⟩ := h name ⟨hv, config, hown, hkey⟩
        dsimp only
        rw [hread]
        cases hp : i.read name referrer with
        | error e => rfl
        | ok parent =>
          dsimp only
          rw [hparent parent hp]
      · rfl

theorem exists_askedBelow {r : Except ConfigError Config}
    (h : i.loadBelow visited document referrer = some r) :
    ∃ asked, i.askedBelow visited document referrer = some asked := by
  refine loadBelow.partial_correctness i (fun visited document referrer _ =>
    ∃ asked, i.askedBelow visited document referrer = some asked) ?_ visited document referrer r h
  intro loadBelow ih visited document referrer r hr
  by_cases hname : ∃ name, i.LooksFor visited document name
  · obtain ⟨name, hname⟩ := hname
    cases hread : i.read name referrer with
    | error e => exact ⟨_, askedBelow_of_fault hname hread⟩
    | ok parent =>
      obtain ⟨hv, config, hown, hkey⟩ := id hname
      simp only [if_neg hv, hown, hkey, hread] at hr
      obtain ⟨above, habove, _⟩ := Option.bind_eq_some_iff.mp hr
      obtain ⟨asked, hasked⟩ := ih _ _ _ _ habove
      exact ⟨_, by rw [askedBelow_of_parent hname hread, hasked, Option.map_some]⟩
  · exact ⟨[], askedBelow_of_not_looksFor hname⟩

theorem askedBelow_cases {asked : List (Text × Option Text)}
    (h : i.askedBelow visited document referrer = some asked) :
    (asked = [] ∧ ¬ ∃ name, i.LooksFor visited document name) ∨
    ∃ name above, i.LooksFor visited document name ∧ asked = (name, referrer) :: above ∧
      ((∃ e, i.read name referrer = .error e) ∧ above = [] ∨
        ∃ parent, i.read name referrer = .ok parent ∧
          i.askedBelow (visited ++ [document.id]) parent (some parent.id) = some above) := by
  by_cases hname : ∃ name, i.LooksFor visited document name
  · obtain ⟨name, hname⟩ := hname
    cases hread : i.read name referrer with
    | error e =>
      rw [askedBelow_of_fault hname hread] at h
      exact .inr ⟨name, [], hname, (Option.some.inj h).symm, .inl ⟨⟨e, hread⟩, rfl⟩⟩
    | ok parent =>
      rw [askedBelow_of_parent hname hread] at h
      obtain ⟨above, habove, hcons⟩ := Option.map_eq_some_iff.mp h
      exact .inr ⟨name, above, hname, hcons.symm, .inr ⟨parent, hread, habove⟩⟩
  · rw [askedBelow_of_not_looksFor hname] at h
    exact .inl ⟨(Option.some.inj h).symm, hname⟩

theorem LooksFor.unique {name name' : Text} (h : i.LooksFor visited document name)
    (h' : i.LooksFor visited document name') : name = name' := by
  obtain ⟨_, config, hown, hkey⟩ := h
  obtain ⟨_, config', hown', hkey'⟩ := h'
  rw [hown, Except.ok.injEq] at hown'
  rw [← hown', hkey] at hkey'
  exact Value.string.inj (Option.some.inj hkey')

/-- The documents that loading reads through, from a document below those visited: this one, and
those it comes to from its parent. -/
inductive Involves (i : Inheritance) : List Text → Document → Option Text → Document → Prop where
  | self {visited : List Text} {document : Document} {referrer : Option Text} :
    document.id ∉ visited → Involves i visited document referrer document
  | above {visited : List Text} {document parent other : Document} {referrer : Option Text}
    {name : Text} : i.LooksFor visited document name → i.read name referrer = .ok parent →
    Involves i (visited ++ [document.id]) parent (some parent.id) other →
    Involves i visited document referrer other

/-- Loading hangs on nothing of the source but what it asks for, and on nothing else but what the
documents on the way say by themselves. -/
theorem loadBelow_eq_of_agree {asked : List (Text × Option Text)}
    (h : i.askedBelow visited document referrer = some asked)
    (hread : ∀ q ∈ asked, j.read q.1 q.2 = i.read q.1 q.2)
    (hown : ∀ other, i.Involves visited document referrer other → j.own other = i.own other) :
    j.loadBelow visited document referrer = i.loadBelow visited document referrer := by
  have hself : document.id ∉ visited → j.own document = i.own document :=
    fun hv => hown document (.self hv)
  induction asked generalizing visited document referrer with
  | nil =>
    rcases askedBelow_cases h with ⟨_, hnone⟩ | ⟨_, _, _, hcons, _⟩
    · exact loadBelow_congr hself fun name hname => absurd ⟨name, hname⟩ hnone
    · cases hcons
  | cons q asked ih =>
    rcases askedBelow_cases h with ⟨hnil, _⟩ | ⟨name, above, hname, hcons, habove⟩
    · cases hnil
    · cases hcons
      apply loadBelow_congr hself
      intro name' hname'
      obtain rfl := hname.unique hname'
      refine ⟨hread (name, referrer) List.mem_cons_self, ?_⟩
      intro parent hparent
      rcases habove with ⟨⟨e, he⟩, _⟩ | ⟨parent', hparent', habove⟩
      · rw [he] at hparent
        cases hparent
      · rw [hparent] at hparent'
        cases hparent'
        have hown' : ∀ other, i.Involves (visited ++ [document.id]) parent (some parent.id) other →
            j.own other = i.own other :=
          fun other hother => hown other (.above hname hparent hother)
        exact ih habove (fun q hq => hread q (List.mem_cons_of_mem _ hq)) hown'
          fun hv => hown' parent (.self hv)

/-- Each document that is found takes another identity, and the last one may not be found. -/
theorem length_askedBelow_le {ids : Finset Text}
    (hids : ∀ name referrer document, i.read name referrer = .ok document → document.id ∈ ids)
    {asked : List (Text × Option Text)} (h : i.askedBelow visited document referrer = some asked)
    (hnodup : visited.Nodup) (hvisited : ∀ id ∈ visited, id ∈ ids) (hd : document.id ∈ ids) :
    visited.length + asked.length ≤ ids.card := by
  have hcard : ∀ visited : List Text, visited.Nodup → (∀ id ∈ visited, id ∈ ids) →
      visited.length ≤ ids.card := by
    intro visited hnodup hvisited
    rw [← List.toFinset_card_of_nodup hnodup]
    exact Finset.card_le_card fun id hid => hvisited id (List.mem_toFinset.mp hid)
  induction asked generalizing visited document referrer with
  | nil => exact hcard visited hnodup hvisited
  | cons q asked ih =>
    rcases askedBelow_cases h with ⟨hnil, _⟩ | ⟨name, above, hname, hcons, habove⟩
    · cases hnil
    · cases hcons
      have hnodup' : (visited ++ [document.id]).Nodup :=
        List.nodup_append'.mpr ⟨hnodup, List.nodup_singleton _, by simpa using hname.1⟩
      have hvisited' : ∀ id ∈ visited ++ [document.id], id ∈ ids := by
        intro id hid
        rcases List.mem_append.mp hid with hid | hid
        · exact hvisited id hid
        · rwa [List.mem_singleton.mp hid]
      have hlength : visited.length + 1 + asked.length ≤ ids.card := by
        rcases habove with ⟨_, rfl⟩ | ⟨parent, hparent, habove⟩
        · simpa using hcard _ hnodup' hvisited'
        · simpa using ih habove hnodup' hvisited' (hids _ _ _ hparent)
      simp only [List.length_cons]
      omega

theorem exists_asked {name : Text} {r : Except ConfigError Config} (h : i.load name = some r) :
    ∃ asked, i.asked name = some asked := by
  rw [load] at h
  rw [Inheritance.asked]
  cases hroot : i.read name none with
  | error e => exact ⟨_, rfl⟩
  | ok root =>
    rw [hroot] at h
    obtain ⟨above, habove⟩ := exists_askedBelow h
    exact ⟨(name, none) :: above, by simp only [habove]; rfl⟩

theorem asked_cases {name : Text} {asked : List (Text × Option Text)}
    (h : i.asked name = some asked) :
    ∃ above, asked = (name, none) :: above ∧
      ((∃ e, i.read name none = .error e) ∧ above = [] ∨
        ∃ root, i.read name none = .ok root ∧ i.askedBelow [] root (some root.id) = some above) := by
  rw [Inheritance.asked] at h
  split at h
  · rename_i e he
    exact ⟨[], (Option.some.inj h).symm, .inl ⟨⟨e, he⟩, rfl⟩⟩
  · rename_i root hroot
    obtain ⟨above, habove, hcons⟩ := Option.bind_eq_some_iff.mp h
    exact ⟨above, (Option.some.inj hcons).symm, .inr ⟨root, hroot, habove⟩⟩

theorem load_eq_of_agree {name : Text} {asked : List (Text × Option Text)}
    (h : i.asked name = some asked) {read : Reading}
    (hagree : ∀ q ∈ asked, read q.1 q.2 = i.read q.1 q.2) :
    load ⟨read, i.registry⟩ name = i.load name := by
  obtain ⟨above, rfl, habove⟩ := asked_cases h
  have hroot : read name none = i.read name none := hagree (name, none) List.mem_cons_self
  rw [load, load]
  dsimp only
  rw [hroot]
  rcases habove with ⟨⟨e, he⟩, _⟩ | ⟨root, hroot, habove⟩
  · rw [he]
  · rw [hroot]
    exact loadBelow_eq_of_agree habove (fun q hq => hagree q (List.mem_cons_of_mem _ hq))
      fun _ _ => rfl

theorem length_asked_le {ids : Finset Text}
    (hids : ∀ name referrer document, i.read name referrer = .ok document → document.id ∈ ids)
    {name : Text} {asked : List (Text × Option Text)} (h : i.asked name = some asked) :
    asked.length ≤ ids.card + 1 := by
  obtain ⟨above, rfl, habove⟩ := asked_cases h
  rcases habove with ⟨_, rfl⟩ | ⟨root, hroot, habove⟩
  · simp
  · have hlength := length_askedBelow_le hids habove List.nodup_nil (by simp) (hids _ _ _ hroot)
    simp only [List.length_nil, List.length_cons] at hlength ⊢
    omega

end Inheritance

theorem Loader.exists_asked (l : Loader) (name : Text) :
    ∃ asked, l.inheritance.asked name = some asked :=
  Inheritance.exists_asked (Option.some_get (l.load_isSome name)).symm

end StaticSite
