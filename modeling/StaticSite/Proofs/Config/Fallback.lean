import StaticSite.Proofs.Config.Registration

/-! Variables that stand in for each other. A chain of names with a default that
is such a chain again is one chain; what it gives is decided by the first of its
names that is set or is none, and only a chain of unset names needs its default. -/

namespace StaticSite

open Yaml (Node tagName)

namespace Environment

/-- Texts, numbers and truth values name variables. -/
inductive Names : Node → Text → Prop where
  | string (t : Text) : Names (.string t) t
  | number (n : Number) : Names (.number n) n.text
  | bool (b : Bool) : Names (.bool b) (Node.boolText b)

def Unset (env : Environment) (node : Node) : Prop := ∃ v, Names node v ∧ env v = none

/-- The first name that is not unset is that of a variable with a text. -/
def FirstIs (env : Environment) (nodes : List Node) (t : Text) : Prop :=
  ∃ before node after v, nodes = before ++ node :: after ∧ (∀ n ∈ before, env.Unset n) ∧
    Names node v ∧ env v = some t

/-- What comes first and is no unset name is no name at all. -/
def FirstIsNone (env : Environment) (nodes : List Node) : Prop :=
  ∃ before node after, nodes = before ++ node :: after ∧ (∀ n ∈ before, env.Unset n) ∧
    ∀ v, ¬ Names node v

theorem name_of_names {node : Node} {v : Text} (h : Names node v) : name node = .ok v := by
  cases h <;> rfl

theorem name_of_not_names {node : Node} (h : ∀ v, ¬ Names node v) :
    name node = .error (.tag hookTag .nameNotScalar) := by
  cases node with
  | string t => exact absurd (.string t) (h t)
  | number n => exact absurd (.number n) (h n.text)
  | bool b => exact absurd (.bool b) (h (Node.boolText b))
  | _ => rfl

variable {env : Environment}

theorem firstSet_cons_of_names {node : Node} {v : Text} (h : Names node v) (nodes : List Node) :
    env.firstSet (node :: nodes) =
      match env v with
      | some t => .ok (some (valueOf t))
      | none => env.firstSet nodes := by
  rw [firstSet, name_of_names h]
  cases hv : env v <;> simp [bind, Except.bind, hv, pure, Except.pure]

theorem firstSet_append_of_unset {before : List Node} (h : ∀ n ∈ before, env.Unset n)
    (nodes : List Node) : env.firstSet (before ++ nodes) = env.firstSet nodes := by
  induction before with
  | nil => rfl
  | cons node before ih =>
    rw [List.forall_mem_cons] at h
    obtain ⟨⟨v, hname, hv⟩, hrest⟩ := h
    rw [List.cons_append, firstSet_cons_of_names hname, hv]
    exact ih hrest

theorem firstSet_of_firstIs {nodes : List Node} {t : Text} (h : env.FirstIs nodes t) :
    env.firstSet nodes = .ok (some (valueOf t)) := by
  obtain ⟨before, node, after, v, rfl, hbefore, hname, hv⟩ := h
  rw [firstSet_append_of_unset hbefore, firstSet_cons_of_names hname, hv]

theorem firstSet_of_firstIsNone {nodes : List Node} (h : env.FirstIsNone nodes) :
    env.firstSet nodes = .error (.tag hookTag .nameNotScalar) := by
  obtain ⟨before, node, after, rfl, hbefore, hnone⟩ := h
  rw [firstSet_append_of_unset hbefore, firstSet, name_of_not_names hnone]
  rfl

theorem firstSet_of_unset {nodes : List Node} (h : ∀ n ∈ nodes, env.Unset n) :
    env.firstSet nodes = .ok none := by
  have hnodes := firstSet_append_of_unset h []
  rwa [List.append_nil] at hnodes

theorem firstIs_or (env : Environment) (nodes : List Node) :
    (∃ t, env.FirstIs nodes t) ∨ env.FirstIsNone nodes ∨ ∀ n ∈ nodes, env.Unset n := by
  induction nodes with
  | nil => exact .inr (.inr nofun)
  | cons node nodes ih =>
    by_cases hname : ∃ v, Names node v
    · obtain ⟨v, hname⟩ := hname
      cases hv : env v with
      | some t => exact .inl ⟨t, [], node, nodes, v, rfl, nofun, hname, hv⟩
      | none =>
        have hnode : env.Unset node := ⟨v, hname, hv⟩
        have hcons : ∀ before : List Node, (∀ n ∈ before, env.Unset n) →
            ∀ n ∈ node :: before, env.Unset n := by
          intro before hbefore
          exact List.forall_mem_cons.mpr ⟨hnode, hbefore⟩
        rcases ih with ⟨t, before, first, after, w, rfl, hbefore, hfirst⟩ |
          ⟨before, first, after, rfl, hbefore, hfirst⟩ | hall
        · exact .inl ⟨t, node :: before, first, after, w, rfl, hcons before hbefore, hfirst⟩
        · exact .inr (.inl ⟨node :: before, first, after, rfl, hcons before hbefore, hfirst⟩)
        · exact .inr (.inr (hcons nodes hall))
    · exact .inr (.inl ⟨[], node, nodes, rfl, nofun, fun v hv => hname ⟨v, hv⟩⟩)

theorem firstSet_append (env : Environment) (xs ys : List Node) :
    env.firstSet (xs ++ ys) =
      match env.firstSet xs with
      | .ok none => env.firstSet ys
      | found => found := by
  rcases env.firstIs_or xs with ⟨t, hfirst⟩ | hnone | hunset
  · have hboth : env.FirstIs (xs ++ ys) t := by
      obtain ⟨before, node, after, v, rfl, hrest⟩ := hfirst
      exact ⟨before, node, after ++ ys, v, by simp, hrest⟩
    rw [firstSet_of_firstIs hfirst, firstSet_of_firstIs hboth]
  · have hboth : env.FirstIsNone (xs ++ ys) := by
      obtain ⟨before, node, after, rfl, hrest⟩ := hnone
      exact ⟨before, node, after ++ ys, by simp, hrest⟩
    rw [firstSet_of_firstIsNone hnone, firstSet_of_firstIsNone hboth]
  · rw [firstSet_append_of_unset hunset, firstSet_of_unset hunset]

theorem splitDefault_concat {names : List Node} (h : names ≠ []) (node : Node) :
    splitDefault (names ++ [node]) = (names, some node) := by
  have hlength := List.length_pos_iff.mpr h
  have hlong : (names ++ [node]).length > 1 := by
    rw [List.length_append, List.length_singleton]
    omega
  rw [splitDefault, if_pos hlong, List.dropLast_concat, List.getLast?_concat]

/-- The default is asked for only if no name before it is set and all are names. -/
theorem hook_concat (env : Environment) {names : List Node} (h : names ≠ []) (node : Node)
    (value : (part : Node) → part.Part (.sequence (names ++ [node])) → Except ConfigError Value) :
    (hook env).value (.sequence (names ++ [node])) value =
      match env.firstSet names with
      | .ok (some v) => .ok v
      | .ok none => value node (.item (by simp) .self)
      | .error e => .error e := by
  have hsplit := splitDefault_concat h node
  have hnames : (splitDefault (names ++ [node])).1 = names := by rw [hsplit]
  simp only [hook, hnames]
  cases env.firstSet names with
  | error e => rfl
  | ok found =>
    cases found with
    | some v => rfl
    | none =>
      simp only [bind, Except.bind]
      split
      · rename_i default hdefault
        rw [hsplit] at hdefault
        obtain rfl := Option.some.inj hdefault
        rfl
      · rename_i hdefault
        rw [hsplit] at hdefault
        cases hdefault

end Environment

namespace Registry

open Environment (hook hookTag Names Unset FirstIs FirstIsNone valueOf)

variable {r : Registry} {env : Environment} {tag tag' : Text}

theorem value_concat (htag : r.find? tag = some (hook env)) {names : List Node} (h : names ≠ [])
    (node : Node) :
    r.value (.tagged tag (.sequence (names ++ [node]))) =
      match env.firstSet names with
      | .ok (some v) => .ok v
      | .ok none => r.value node
      | .error e => .error e := by
  rw [value, htag]
  exact Environment.hook_concat env h node _

/-- A chain of names whose default is such a chain is one chain of all the names. It gives the text
of the first one that is set, where only names come before that one, and fails where something else
comes first; its default has no part in these. If all are unset, it gives the default. -/
theorem value_fallback (hr : r.find? hookTag = some (hook env)) (htag : tagName tag = hookTag)
    (htag' : tagName tag' = hookTag) {ns ms : List Node} (hn : ns ≠ []) (hm : ms ≠ []) :
    let chain (d : Node) : Node := .sequence (ns ++ ms ++ [d])
    (∀ d, r.value (.tagged tag (.sequence (ns ++ [.tagged tag' (.sequence (ms ++ [d]))]))) =
      r.value (.tagged tag (chain d))) ∧
    (∀ t, env.FirstIs (ns ++ ms) t → ∀ d, r.value (.tagged tag (chain d)) = .ok (valueOf t) ∧
      ∀ value, (hook env).value (chain d) value = .ok (valueOf t)) ∧
    (env.FirstIsNone (ns ++ ms) → ∀ d,
      r.value (.tagged tag (chain d)) = .error (.tag hookTag .nameNotScalar) ∧
      ∀ value, (hook env).value (chain d) value = .error (.tag hookTag .nameNotScalar)) ∧
    ((∀ n ∈ ns ++ ms, env.Unset n) → ∀ d, r.value (.tagged tag (chain d)) = r.value d) ∧
    ((∃ t, env.FirstIs (ns ++ ms) t) ∨ env.FirstIsNone (ns ++ ms) ∨
      ∀ n ∈ ns ++ ms, env.Unset n) := by
  intro chain
  have hself : tagName hookTag = hookTag := rfl
  have hfind : r.find? tag = some (hook env) := (find?_congr (htag.trans hself.symm)).trans hr
  have hfind' : r.find? tag' = some (hook env) := (find?_congr (htag'.trans hself.symm)).trans hr
  have hboth : ns ++ ms ≠ [] := List.append_ne_nil_of_left_ne_nil hn ms
  refine ⟨?_, ?_, ?_, ?_, env.firstIs_or (ns ++ ms)⟩
  · intro d
    rw [value_concat hfind hn, value_concat hfind hboth, value_concat hfind' hm,
      Environment.firstSet_append]
    cases env.firstSet ns with
    | error e => rfl
    | ok found => cases found <;> rfl
  · intro t hfirst d
    have hset := Environment.firstSet_of_firstIs hfirst
    refine ⟨?_, fun value => ?_⟩
    · rw [value_concat hfind hboth, hset]
    · rw [Environment.hook_concat env hboth, hset]
  · intro hnone d
    have hset := Environment.firstSet_of_firstIsNone hnone
    refine ⟨?_, fun value => ?_⟩
    · rw [value_concat hfind hboth, hset]
    · rw [Environment.hook_concat env hboth, hset]
  · intro hunset d
    rw [value_concat hfind hboth, Environment.firstSet_of_unset hunset]

/-- A default that cannot be read does no harm behind a variable that is set. -/
theorem value_fallback_style :
    let env : Environment := .ofEntries [("STYLE", "On")]
    let r := (reading env).add (.capitals "UP")
    let ns : List Node := [.string "THEME"]
    let ms : List Node := [.number (.int 1), .string "STYLE", .null]
    let d : Node := .tagged "UP" .null
    r.find? hookTag = some (hook env) ∧ env.FirstIs (ns ++ ms) "On" ∧
      r.value d = .error (.tag "UP" .notText) ∧
      r.value (.tagged "ENV" (.sequence (ns ++ [.tagged "!ENV" (.sequence (ms ++ [d]))]))) =
        .ok (.bool true) := by
  intro env r ns ms d
  have hr : r.find? hookTag = some (hook env) := rfl
  have hunset : ∀ n ∈ ns ++ [.number (.int 1)], env.Unset n := by
    intro n hn
    rcases List.mem_cons.mp hn with rfl | hn
    · exact ⟨"THEME", .string _, by decide⟩
    · rw [List.mem_singleton.mp hn]
      exact ⟨_, .number _, by decide⟩
  have hfirst : env.FirstIs (ns ++ ms) "On" :=
    ⟨_, .string "STYLE", [.null], "STYLE", rfl, hunset, .string _, by decide⟩
  have hfallback := value_fallback hr (by decide : tagName "ENV" = hookTag)
    (by decide : tagName "!ENV" = hookTag) (by simp [ns] : ns ≠ []) (by simp [ms] : ms ≠ [])
  refine ⟨hr, hfirst, ?_, ?_⟩
  · rw [value]
    rfl
  · rw [hfallback.1 d, (hfallback.2.1 "On" hfirst d).1]
    rfl

end Registry

end StaticSite
