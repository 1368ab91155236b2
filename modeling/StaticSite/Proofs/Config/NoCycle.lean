import StaticSite.Config.Environment
import StaticSite.Proofs.Yaml.Parts

/-! Faults of documents by themselves. Reading one document tells of no cycle
of documents, unless a hook makes one up. -/

namespace StaticSite

/-- Whatever is the case, there is no cycle of documents in it. -/
def NoCycle {α : Type} (r : Except ConfigError α) : Prop := ∀ ids, r ≠ .error (.cycle ids)

namespace NoCycle

variable {α β : Type}

theorem ok (a : α) : NoCycle (.ok a) := nofun

theorem bind {r : Except ConfigError α} {f : α → Except ConfigError β} (hr : NoCycle r)
    (hf : ∀ a, NoCycle (f a)) : NoCycle (r >>= f) := by
  cases r with
  | error e =>
    intro ids h
    exact hr ids (by cases h; rfl)
  | ok a => exact hf a

theorem map {r : Except ConfigError α} (hr : NoCycle r) (f : α → β) : NoCycle (r.map f) := by
  cases r with
  | error e =>
    intro ids h
    exact hr ids (by cases h; rfl)
  | ok a => exact ok (f a)

end NoCycle

/-- A hook makes up no cycles of documents; it may pass on what it is given. -/
def Hook.RaisesNoCycle (hook : Hook) : Prop :=
  ∀ node value, (∀ part h, NoCycle (value part h)) → NoCycle (hook.value node value)

namespace Registry

open Yaml (Node)

theorem key_noCycle (node : Node) : NoCycle (key node) := by
  cases node <;> exact nofun

variable {r : Registry}

theorem values_noCycle {nodes : List Node} (h : ∀ node ∈ nodes, NoCycle (r.value node)) :
    NoCycle (r.values nodes) := by
  induction nodes with
  | nil =>
    rw [values]
    exact .ok _
  | cons node nodes ih =>
    rw [List.forall_mem_cons] at h
    rw [values]
    exact h.1.bind fun _ => (ih h.2).bind fun _ => .ok _

theorem entries_noCycle {es : List (Node × Node)} (h : ∀ e ∈ es, NoCycle (r.value e.2)) :
    NoCycle (r.entries es) := by
  induction es with
  | nil =>
    rw [entries]
    exact .ok _
  | cons e es ih =>
    obtain ⟨k, node⟩ := e
    rw [List.forall_mem_cons] at h
    rw [entries]
    exact (key_noCycle k).bind fun _ => h.1.bind fun _ => (ih h.2).bind fun _ => .ok _

theorem value_noCycle (h : ∀ hook ∈ r.hooks, hook.RaisesNoCycle) (node : Node) :
    NoCycle (r.value node) := by
  induction node using Node.induction_parts with
  | sequence items ih =>
    rw [value]
    exact (values_noCycle ih).map _
  | mapping es ih =>
    rw [value]
    exact (entries_noCycle fun e he => (ih e he).2).map _
  | tagged tag node ih =>
    rw [value]
    cases hfind : r.find? tag with
    | none => exact ih node .self
    | some hook => exact h hook (List.mem_of_find?_eq_some hfind) node _ ih
  | _ =>
    rw [value]
    exact .ok _

theorem parse_noCycle (h : ∀ hook ∈ r.hooks, hook.RaisesNoCycle) (text name : Text) :
    NoCycle (r.parse text name) := by
  rw [parse]
  split
  · exact .ok _
  · split
    · exact value_noCycle h _
    · exact nofun

end Registry

namespace Environment

open Yaml (Node)

theorem name_noCycle (node : Node) : NoCycle (name node) := by
  cases node <;> exact nofun

theorem firstSet_noCycle (env : Environment) (nodes : List Node) :
    NoCycle (env.firstSet nodes) := by
  induction nodes with
  | nil => exact .ok _
  | cons node nodes ih =>
    apply (name_noCycle node).bind
    intro t
    cases env t with
    | none => exact ih
    | some v => exact .ok _

theorem hook_raisesNoCycle (env : Environment) : (hook env).RaisesNoCycle := by
  intro node value h
  cases node with
  | null => exact .ok _
  | mapping es => exact nofun
  | tagged tag node => exact nofun
  | sequence items =>
    apply (firstSet_noCycle env _).bind
    intro v
    cases v with
    | some v => exact .ok _
    | none =>
      dsimp only
      split
      · exact h _ _
      · exact .ok _
  | _ => exact (firstSet_noCycle env _).bind fun _ => .ok _

end Environment

end StaticSite
