import Mathlib.Data.List.Dedup
import Mathlib.Data.List.Induction
import StaticSite.Config.Environment
import StaticSite.Config.Hooks
import StaticSite.Proofs.Yaml.Parts

/-! Registries and how they came about. The hook of a tag is the one that was
registered last, and the value of a node depends on the hooks of its own tags
only, not on the order in which they are listed. -/

namespace StaticSite.Registry

open Yaml (Node tagName)

variable {r r' : Registry} {regs regs' : List Hook} {hook : Hook} {tag : Text}

/-- Two registries do the same with what stands under the tags of a node. -/
def SameOn (r r' : Registry) (node : Node) : Prop :=
  ∀ tag arg, Node.Part (.tagged tag arg) node →
    (r.find? tag).map (·.value arg) = (r'.find? tag).map (·.value arg)

theorem SameOn.part {node part : Node} (h : SameOn r r' node) (hpart : part.Part node) :
    SameOn r r' part :=
  fun tag arg harg => h tag arg (harg.trans hpart)

theorem values_congr {nodes : List Node} (h : ∀ node ∈ nodes, r.value node = r'.value node) :
    r.values nodes = r'.values nodes := by
  induction nodes with
  | nil => rw [values, values]
  | cons node nodes ih =>
    rw [List.forall_mem_cons] at h
    rw [values, values, h.1, ih h.2]

theorem entries_congr {es : List (Node × Node)} (h : ∀ e ∈ es, r.value e.2 = r'.value e.2) :
    r.entries es = r'.entries es := by
  induction es with
  | nil => rw [entries, entries]
  | cons e es ih =>
    obtain ⟨k, node⟩ := e
    rw [List.forall_mem_cons] at h
    rw [entries, entries, h.1, ih h.2]

theorem value_congr {node : Node} (h : SameOn r r' node) : r.value node = r'.value node := by
  induction node using Node.induction_parts with
  | sequence items ih =>
    have hitems := values_congr fun item hitem => ih item hitem (h.part (.item hitem .self))
    rw [value, value, hitems]
  | mapping es ih =>
    have hentries := entries_congr fun e he => (ih e he).2 (h.part (.value he .self))
    rw [value, value, hentries]
  | tagged tag node ih =>
    -- a hook may ask for the value of any part of what it is given
    have hparts : ∀ part : Node, part.Part node → r.value part = r'.value part :=
      fun part hpart => ih part hpart (h.part (.content hpart))
    have hself := h tag node .self
    rw [value, value]
    cases hfind : r.find? tag with
    | none =>
      rw [hfind, Option.map_none, eq_comm, Option.map_eq_none_iff] at hself
      rw [hself]
      exact hparts node .self
    | some hook =>
      rw [hfind, Option.map_some, eq_comm, Option.map_eq_some_iff] at hself
      obtain ⟨hook', hfind', hvalue⟩ := hself
      rw [hfind']
      dsimp only
      rw [← hvalue]
      congr 1
      funext part hpart
      exact hparts part hpart
  | _ => rw [value, value]

/-- A tag name as hooks have it, without an exclamation mark before it. -/
def IsBare (tag : Text) : Prop := tag.head? ≠ some '!'

/-- The hooks that a registry was given, one after the other. -/
inductive Registered : Registry → List Hook → Prop where
  | empty : Registered empty []
  | add {r : Registry} {regs : List Hook} {hook : Hook} : Registered r regs → IsBare hook.tag →
    Registered (r.add hook) (regs ++ [hook])

/-- The last of some hooks that is for a tag. -/
def IsLastFor (regs : List Hook) (tag : Text) (hook : Hook) : Prop :=
  ∃ before after, regs = before ++ hook :: after ∧ hook.tag = tag ∧ ∀ h ∈ after, h.tag ≠ tag

theorem IsBare.tagName_eq (h : IsBare tag) : tagName tag = tag := by
  cases tag with
  | nil => rfl
  | cons c t =>
    have hc : c ≠ '!' := by simpa [IsBare] using h
    cases t with
    | nil => simp [tagName]
    | cons d t => simp [tagName, hc]

theorem isBare_hook (env : Environment) : IsBare (Environment.hook env).tag := by
  simp [IsBare, Environment.hook, Environment.hookTag]

theorem find?_add_self (hr : ∀ h ∈ r.hooks, IsBare h.tag) (hhook : IsBare hook.tag)
    (htag : hook.tag = tagName tag) : (r.add hook).find? tag = some hook := by
  have hself : tagName hook.tag = tagName tag := hhook.tagName_eq.trans htag
  have hothers : (r.hooks.filter (·.tag ≠ hook.tag)).find?
      (fun h => tagName h.tag = tagName tag) = none := by
    rw [List.find?_eq_none]
    intro h hh
    obtain ⟨hmem, hne⟩ := List.mem_filter.mp hh
    have hbare := (hr h hmem).tagName_eq
    simpa [hbare, ← htag] using hne
  rw [find?, add, List.find?_append, hothers, Option.none_or]
  simp [hself]

theorem find?_add_of_ne (h : tagName hook.tag ≠ tagName tag) :
    (r.add hook).find? tag = r.find? tag := by
  have hkept : ∀ h' : Hook, h'.tag ≠ hook.tag ∧ tagName h'.tag = tagName tag ↔
      tagName h'.tag = tagName tag := by
    intro h'
    rw [and_iff_right_iff_imp]
    rintro htag he
    exact h (he ▸ htag)
  simp only [find?, add, List.find?_append, List.find?_filter, decide_eq_true_eq, hkept]
  simp [h]

theorem find?_congr (h : tagName tag = tagName tag') : r.find? tag = r.find? tag' := by
  rw [find?, find?, h]

/-- What a registration does to the hook of a tag. -/
theorem find?_add_eq_some_iff {last : Hook} (hr : ∀ h ∈ r.hooks, IsBare h.tag)
    (hlast : IsBare last.tag) :
    (r.add last).find? tag = some hook ↔
      (last.tag = tagName tag ∧ hook = last) ∨ last.tag ≠ tagName tag ∧ r.find? tag = some hook := by
  by_cases htag : last.tag = tagName tag
  · simp [find?_add_self hr hlast htag, htag, eq_comm]
  · have hne : tagName last.tag ≠ tagName tag := by rwa [hlast.tagName_eq]
    simp [find?_add_of_ne hne, htag]

@[simp] theorem not_isLastFor_nil : ¬ IsLastFor [] tag hook := by
  rintro ⟨before, after, heq, _⟩
  simp at heq

theorem isLastFor_concat_iff {last : Hook} :
    IsLastFor (regs ++ [last]) tag hook ↔
      (last.tag = tag ∧ hook = last) ∨ last.tag ≠ tag ∧ IsLastFor regs tag hook := by
  constructor
  · rintro ⟨before, after, heq, htag, hafter⟩
    induction after using List.reverseRecOn with
    | nil =>
      obtain ⟨rfl, hlast⟩ := List.append_inj' heq rfl
      obtain rfl := List.singleton_inj.mp hlast
      exact .inl ⟨htag, rfl⟩
    | append_singleton after h _ =>
      rw [← List.cons_append, ← List.append_assoc] at heq
      obtain ⟨rfl, hlast⟩ := List.append_inj' heq rfl
      obtain rfl := List.singleton_inj.mp hlast
      exact .inr ⟨hafter _ (by simp), before, after, rfl, htag, fun h hh => hafter h (by simp [hh])⟩
  · rintro (⟨htag, rfl⟩ | ⟨hne, before, after, rfl, htag, hafter⟩)
    · exact ⟨regs, [], rfl, htag, nofun⟩
    · refine ⟨before, after ++ [last], by simp, htag, ?_⟩
      intro h hh
      rcases List.mem_append.mp hh with hh | hh
      · exact hafter h hh
      · rwa [List.mem_singleton.mp hh]

theorem exists_isLastFor_iff : (∃ hook, IsLastFor regs tag hook) ↔ ∃ hook ∈ regs, hook.tag = tag := by
  constructor
  · rintro ⟨hook, before, after, rfl, htag, _⟩
    exact ⟨hook, by simp, htag⟩
  · rintro ⟨hook, hmem, htag⟩
    induction regs using List.reverseRecOn with
    | nil => cases hmem
    | append_singleton regs last ih =>
      by_cases hlast : last.tag = tag
      · exact ⟨last, isLastFor_concat_iff.mpr (.inl ⟨hlast, rfl⟩)⟩
      · have hbefore : hook ∈ regs := by
          rcases List.mem_append.mp hmem with hmem | hmem
          · exact hmem
          · rw [List.mem_singleton.mp hmem] at htag
            exact absurd htag hlast
        obtain ⟨found, hfound⟩ := ih hbefore
        exact ⟨found, isLastFor_concat_iff.mpr (.inr ⟨hlast, hfound⟩)⟩

@[simp] theorem tags_add (r : Registry) (hook : Hook) :
    (r.add hook).tags = r.tags.filter (· ≠ hook.tag) ++ [hook.tag] := by
  simp [tags, add, List.filter_map, Function.comp_def]

theorem dedup_concat (tags : List Text) (tag : Text) :
    (tags ++ [tag]).dedup = tags.dedup.filter (· ≠ tag) ++ [tag] := by
  induction tags with
  | nil => rfl
  | cons t tags ih =>
    rw [List.cons_append]
    by_cases hmem : t ∈ tags
    · rw [List.dedup_cons_of_mem hmem, List.dedup_cons_of_mem (List.mem_append_left _ hmem), ih]
    · rw [List.dedup_cons_of_notMem hmem]
      by_cases htag : t = tag
      · rw [List.dedup_cons_of_mem (by simp [htag]), ih]
        simp [htag]
      · rw [List.dedup_cons_of_notMem (by simp [hmem, htag]), ih]
        simp [htag]

theorem bare_of_mem_add (hr : ∀ h ∈ r.hooks, IsBare h.tag) (hhook : IsBare hook.tag) :
    ∀ h ∈ (r.add hook).hooks, IsBare h.tag := by
  intro h hh
  rcases List.mem_append.mp hh with hh | hh
  · exact hr h (List.mem_of_mem_filter hh)
  · rwa [List.mem_singleton.mp hh]

namespace Registered

theorem reading (env : Environment) : Registered (reading env) [Environment.hook env] :=
  .add .empty (isBare_hook env)

theorem bare (h : Registered r regs) : ∀ hook ∈ r.hooks, IsBare hook.tag := by
  induction h with
  | empty => exact nofun
  | add _ hbare ih => exact bare_of_mem_add ih hbare

theorem tags_eq (h : Registered r regs) : r.tags = (regs.map (·.tag)).dedup := by
  induction h with
  | empty => rfl
  | add _ _ ih => rw [tags_add, ih, List.map_append, List.map_singleton, dedup_concat]

theorem find?_eq_some_iff (h : Registered r regs) (tag : Text) (hook : Hook) :
    r.find? tag = some hook ↔ IsLastFor regs (tagName tag) hook := by
  induction h with
  | empty => exact iff_of_false nofun not_isLastFor_nil
  | add hr hbare ih => rw [find?_add_eq_some_iff hr.bare hbare, ih, isLastFor_concat_iff]

theorem find?_eq_none_iff (h : Registered r regs) (tag : Text) :
    r.find? tag = none ↔ ∀ hook ∈ regs, hook.tag ≠ tagName tag := by
  have hsome := @exists_isLastFor_iff regs (tagName tag)
  simp only [← h.find?_eq_some_iff] at hsome
  rw [← Option.not_isSome_iff_eq_none, Option.isSome_iff_exists, hsome]
  simp

end Registered

/-- However a registry came about, its tags are those of its hooks in the order in which each was
last registered. A tagged node gets its value from the hook that was registered last for its tag,
and without one it has the value of what is tagged. So registries with the same last hooks do the
same, and a further hook makes no difference to nodes without its tag. -/
theorem value_registered (h : Registered r regs) :
    r.tags.Nodup ∧ r.tags = (regs.map (·.tag)).dedup ∧
    (∀ tag arg hook, IsLastFor regs (tagName tag) hook →
      r.value (.tagged tag arg) = hook.value arg fun part _ => r.value part) ∧
    (∀ tag arg, (∀ hook ∈ regs, hook.tag ≠ tagName tag) →
      r.value (.tagged tag arg) = r.value arg) ∧
    (∀ r' regs', Registered r' regs' →
      (∀ tag hook, IsLastFor regs tag hook ↔ IsLastFor regs' tag hook) →
      ∀ node, r.value node = r'.value node) ∧
    ∀ hook, IsBare hook.tag → ∀ node,
      (∀ tag arg, Node.Part (.tagged tag arg) node → tagName tag ≠ hook.tag) →
      (r.add hook).value node = r.value node := by
  have htags := h.tags_eq
  refine ⟨htags ▸ List.nodup_dedup _, htags, ?_, ?_, ?_, ?_⟩
  · intro tag arg hook hlast
    rw [value, (h.find?_eq_some_iff tag hook).mpr hlast]
  · intro tag arg hnone
    rw [value, (h.find?_eq_none_iff tag).mpr hnone]
  · intro r' regs' h' hsame node
    apply value_congr
    intro tag arg _
    have hfind : r.find? tag = r'.find? tag := by
      apply Option.ext
      intro hook
      rw [h.find?_eq_some_iff, h'.find?_eq_some_iff, hsame]
    rw [hfind]
  · intro hook hbare node hnone
    apply value_congr
    intro tag arg hpart
    have hne : tagName hook.tag ≠ tagName tag := by
      rw [hbare.tagName_eq]
      exact (hnone tag arg hpart).symm
    rw [find?_add_of_ne hne]

/-- Two ways to the same hooks, one of them over a hook that is replaced. -/
theorem value_registered_capitals :
    let env : Environment := .ofEntries []
    let r := ((reading env).add (.capitals "UP")).add (.labelled "UP")
    let r' := (empty.add (.labelled "UP")).add (Environment.hook env)
    let node : Node := .sequence [.tagged "!ENV" (.string "HOME"), .tagged "UP" .null]
    Registered r [Environment.hook env, .capitals "UP", .labelled "UP"] ∧
      Registered r' [.labelled "UP", Environment.hook env] ∧
      r.tags = ["ENV", "UP"] ∧ r'.tags = ["UP", "ENV"] ∧
      r.value (.tagged "!UP" .null) = .ok (.mapping [("tag", .string "UP"), ("value", .null)]) ∧
      r.value node = r'.value node ∧ (r.add (.capitals "LOUD")).value node = r.value node := by
  intro env r r' node
  have hup : IsBare "UP" := by simp [IsBare]
  have hloud : IsBare "LOUD" := by simp [IsBare]
  have hr : Registered r ([Environment.hook env] ++ [.capitals "UP"] ++ [.labelled "UP"]) :=
    .add (.add (.reading env) hup) hup
  have hr' : Registered r' ([] ++ [.labelled "UP"] ++ [Environment.hook env]) :=
    .add (.add .empty hup) (isBare_hook env)
  have hsame : ∀ tag hook,
      IsLastFor ([] ++ [Environment.hook env] ++ [.capitals "UP"] ++ [.labelled "UP"]) tag hook ↔
        IsLastFor ([] ++ [.labelled "UP"] ++ [Environment.hook env]) tag hook := by
    intro tag hook
    have henv : (Environment.hook env).tag = "ENV" := rfl
    have hupper : (Hook.capitals "UP").tag = "UP" := rfl
    have hlabel : (Hook.labelled "UP").tag = "UP" := rfl
    simp only [isLastFor_concat_iff, not_isLastFor_nil, henv, hupper, hlabel]
    by_cases htag : ['U', 'P'] = tag
    · simp [← htag]
    · simp [htag]
  have hparts : ∀ tag arg, Node.Part (.tagged tag arg) node → tagName tag ≠ "LOUD" := by
    intro tag arg hpart
    have hmem := Node.mem_parts_of_part hpart
    simp [node, Node.parts, Node.itemParts] at hmem
    rcases hmem with ⟨rfl, _⟩ | ⟨rfl, _⟩
    · decide
    · decide
  obtain ⟨_, htags, hlast, _, hequal, hmore⟩ := value_registered hr
  have hlabelled := hlast "!UP" .null _ ⟨_, [], rfl, rfl, by simp⟩
  refine ⟨hr, hr', htags, (value_registered hr').2.1, ?_, hequal _ _ hr' hsame node,
    hmore _ hloud node hparts⟩
  rw [hlabelled]
  simp [Hook.labelled, value]

end StaticSite.Registry
