import StaticSite.Document.FrontMatter
import StaticSite.Proofs.Config.Registration
import StaticSite.Proofs.Config.Renaming
import StaticSite.Proofs.Config.Texts

/-! Variables of documents. What documents say hangs on no variables but those
that they name under the tag for variables, and on nothing of the process once
another environment has taken the place of its own. -/

namespace StaticSite

open Yaml (Node tagName)

namespace Registry

variable {r r' : Registry}

theorem parse_congr {text : Text} (h : ∀ node, Node.ofText? text = some node → SameOn r r' node)
    (id : Text) : r.parse text id = r'.parse text id := by
  rw [parse, parse]
  by_cases hblank : Text.isBlankText text = true
  · rw [if_pos hblank, if_pos hblank]
  · rw [if_neg hblank, if_neg hblank]
    cases hnode : Node.ofText? text with
    | none => rfl
    | some node => exact value_congr (h node hnode)

theorem add_reading (process env : Environment) :
    (reading process).add (Environment.hook env) = reading env := by
  simp [reading, add, empty, Environment.hook]

theorem find?_reading (env : Environment) (tag : Text) :
    (reading env).find? tag =
      if tagName tag = Environment.hookTag then some (Environment.hook env) else none := by
  have hbare := isBare_hook env
  by_cases htag : tagName tag = Environment.hookTag
  · rw [if_pos htag]
    exact find?_add_self nofun hbare htag.symm
  · rw [if_neg htag]
    exact find?_add_of_ne fun he => htag (he.symm.trans hbare.tagName_eq)

end Registry

namespace Environment

/-- The variables that are named by what a tag stands before, a scalar or a sequence of them. -/
def named : Node → List Text
  | .sequence items => items.filterMap fun item => (name item).toOption
  | node => (name node).toOption.toList

/-- The variables that a node names if it has the tag for variables itself. -/
def namedUnderTag : Node → List Text
  | .tagged tag node => if tagName tag = hookTag then named node else []
  | _ => []

/-- A text names a variable under the tag for variables, at any depth. -/
def Writes (text v : Text) : Prop :=
  ∃ node part, Node.ofText? text = some node ∧ part.Part node ∧ v ∈ namedUnderTag part

/-- Environments agree on the variables that a text names. -/
def AgreeOn (e₁ e₂ : Environment) (text : Text) : Prop := ∀ v, Writes text v → e₁ v = e₂ v

def written (text : Text) : List Text :=
  (Node.ofText? text).toList.flatMap fun node => node.parts.flatMap namedUnderTag

@[simp] theorem mem_written_iff {text v : Text} : v ∈ written text ↔ Writes text v := by
  simp [written, Writes]

instance (e₁ e₂ : Environment) (text : Text) : Decidable (AgreeOn e₁ e₂ text) :=
  decidable_of_iff (∀ v ∈ written text, e₁ v = e₂ v) (by simp only [AgreeOn, mem_written_iff])

variable {e₁ e₂ : Environment}

theorem mem_named_self {node : Node} {v : Text} (h : name node = .ok v) : v ∈ named node := by
  have hmem : v ∈ (name node).toOption.toList := by simp [h, Except.toOption]
  cases node with
  | sequence items => cases h
  | _ => exact hmem

theorem mem_named_item {items : List Node} {node : Node} {v : Text} (hnode : node ∈ items)
    (h : name node = .ok v) : v ∈ named (.sequence items) :=
  List.mem_filterMap.mpr ⟨node, hnode, by rw [h]; rfl⟩

theorem firstSet_congr {nodes : List Node}
    (h : ∀ node ∈ nodes, ∀ v, name node = .ok v → e₁ v = e₂ v) :
    e₁.firstSet nodes = e₂.firstSet nodes := by
  induction nodes with
  | nil => rfl
  | cons node nodes ih =>
    rw [List.forall_mem_cons] at h
    rw [firstSet, firstSet, ih h.2]
    cases hname : name node with
    | error e => rfl
    | ok v =>
      have hv := h.1 v hname
      simp only [bind, Except.bind, hv]

theorem mem_of_mem_names {items : List Node} {node : Node} (h : node ∈ (splitDefault items).1) :
    node ∈ items := by
  rw [splitDefault] at h
  split at h
  · exact List.mem_of_mem_dropLast h
  · exact h

theorem hook_congr {arg : Node} (h : ∀ v ∈ named arg, e₁ v = e₂ v) :
    (hook e₁).value arg = (hook e₂).value arg := by
  have hself : e₁.firstSet [arg] = e₂.firstSet [arg] := by
    apply firstSet_congr
    intro node hnode v hv
    rw [List.mem_singleton.mp hnode] at hv
    exact h v (mem_named_self hv)
  funext value
  cases arg with
  | null => rfl
  | mapping es => rfl
  | tagged tag node => rfl
  | sequence items =>
    have hitems : e₁.firstSet (splitDefault items).1 = e₂.firstSet (splitDefault items).1 := by
      apply firstSet_congr
      intro node hnode v hv
      exact h v (mem_named_item (mem_of_mem_names hnode) hv)
    simp only [hook, hitems]
  | _ => simp only [hook, hself]

theorem parse_congr {text : Text} (h : AgreeOn e₁ e₂ text) (id : Text) :
    (Registry.reading e₁).parse text id = (Registry.reading e₂).parse text id := by
  apply Registry.parse_congr
  intro node hnode tag arg hpart
  rw [Registry.find?_reading, Registry.find?_reading]
  by_cases htag : tagName tag = hookTag
  · have harg : (hook e₁).value arg = (hook e₂).value arg :=
      hook_congr fun v hv => h v ⟨node, _, hnode, hpart, by rwa [namedUnderTag, if_pos htag]⟩
    rw [if_pos htag, if_pos htag, Option.map_some, Option.map_some, harg]
  · rw [if_neg htag, if_neg htag]

end Environment

theorem Source.mem_of_find {docs : Entries Text} {name : Text} {document : Document}
    (h : find docs name = .ok document) : (document.id, document.text) ∈ docs := by
  obtain ⟨rfl, hget⟩ := get?_of_find h
  exact Entries.mem_of_get? hget

namespace Inheritance

variable {i j : Inheritance} {visited : List Text} {document : Document} {referrer : Option Text}

theorem loadBelow_eq_of_own (hread : j.read = i.read) {answer : Except ConfigError Config}
    (h : i.loadBelow visited document referrer = some answer)
    (hown : ∀ other, i.Involves visited document referrer other → j.own other = i.own other) :
    j.loadBelow visited document referrer = some answer := by
  obtain ⟨asked, hasked⟩ := exists_askedBelow h
  rw [loadBelow_eq_of_agree hasked (fun q _ => by rw [hread]) hown, h]

/-- A document on the way is the first one, or found under some name. -/
theorem Involves.found {other : Document} (h : i.Involves visited document referrer other) :
    other = document ∨ ∃ name referrer, i.read name referrer = .ok other := by
  induction h with
  | self _ => exact .inl rfl
  | above _ hread _ ih =>
    rcases ih with rfl | hfound
    · exact .inr ⟨_, _, hread⟩
    · exact .inr hfound

end Inheritance

namespace Loader

open Environment (AgreeOn)

/-- Loading in a process, whose environment has the variables. -/
def reading (source : Source) (process : Environment) : Loader := ⟨source, .reading process⟩

/-- Loading with another environment that has the variables. -/
def withEnvironment (l : Loader) (env : Environment) : Loader :=
  { l with registry := l.registry.add (Environment.hook env) }

theorem withEnvironment_reading (source : Source) (process env : Environment) :
    (reading source process).withEnvironment env = reading source env := by
  rw [withEnvironment, reading, Registry.add_reading, reading]

/-- Loading a name reads through a document. -/
def Involves (l : Loader) (name : Text) (document : Document) : Prop :=
  ∃ root, l.source.read name none = .ok root ∧
    l.inheritance.Involves [] root (some root.id) document

/-- Loading a text reads through a document, which may be the text itself. -/
def TextInvolves (l : Loader) (text : Text) (document : Document) : Prop :=
  l.inheritance.Involves [] ⟨Inheritance.inlineId, text⟩ none document

theorem Involves.found {l : Loader} {name : Text} {document : Document}
    (h : l.Involves name document) : ∃ name referrer, l.source.read name referrer = .ok document := by
  obtain ⟨root, hroot, hbelow⟩ := h
  rcases Inheritance.Involves.found hbelow with rfl | hfound
  · exact ⟨name, none, hroot⟩
  · exact hfound

theorem TextInvolves.found {l : Loader} {text : Text} {document : Document}
    (h : l.TextInvolves text document) : document = ⟨Inheritance.inlineId, text⟩ ∨
      ∃ name referrer, l.source.read name referrer = .ok document :=
  Inheritance.Involves.found h

variable {source : Source} {e₁ e₂ : Environment}

theorem own_congr {document : Document} (h : AgreeOn e₁ e₂ document.text) :
    (reading source e₂).inheritance.own document =
      (reading source e₁).inheritance.own document := by
  have hparse := Environment.parse_congr h document.id
  simp only [Inheritance.own, inheritance, reading, hparse]

theorem loadBelow_reading {visited : List Text} {document : Document} {referrer : Option Text}
    (hk : document.id ∈ known (reading source e₁))
    (h : ∀ other, (reading source e₁).inheritance.Involves visited document referrer other →
      AgreeOn e₁ e₂ other.text) :
    (reading source e₁).inheritance.loadBelow visited document referrer =
      (reading source e₂).inheritance.loadBelow visited document referrer := by
  have hsome := loadBelow_isSome _ visited document referrer hk
  obtain ⟨answer, hanswer⟩ := Option.isSome_iff_exists.mp hsome
  have hread : (reading source e₂).inheritance.read = (reading source e₁).inheritance.read := rfl
  rw [hanswer, Inheritance.loadBelow_eq_of_own hread hanswer]
  exact fun other hother => own_congr (h other hother)

theorem load_reading {name : Text}
    (h : ∀ document, (reading source e₁).Involves name document → AgreeOn e₁ e₂ document.text) :
    (reading source e₁).inheritance.load name = (reading source e₂).inheritance.load name := by
  have hread : (reading source e₂).inheritance.read = (reading source e₁).inheritance.read := rfl
  rw [Inheritance.load, Inheritance.load, hread]
  cases hroot : (reading source e₁).inheritance.read name none with
  | error e => rfl
  | ok root =>
    have hk : root.id ∈ known (reading source e₁) := List.mem_cons_of_mem _ (source.mem_ids hroot)
    exact loadBelow_reading hk fun other hother => h other ⟨root, hroot, hother⟩

/-- Loaders of one source, each with an environment in place of that of its process, answer the
same, if their environments agree on the variables that are named in the documents read through.
For metadata these are the variables of the block, as documents with metadata have no parents. -/
theorem withEnvironment_congr (source : Source) (process₁ process₂ e₁ e₂ : Environment) :
    let l₁ := (reading source process₁).withEnvironment e₁
    let l₂ := (reading source process₂).withEnvironment e₂
    (∀ name, (∀ document, l₁.Involves name document → AgreeOn e₁ e₂ document.text) →
      l₁.load name = l₂.load name) ∧
    (∀ text, (∀ document, l₁.TextInvolves text document → AgreeOn e₁ e₂ document.text) →
      l₁.loadText text = l₂.loadText text) ∧
    ∀ text, (∀ block rest, FrontMatter.block? text = some (block, rest) → AgreeOn e₁ e₂ block) →
      FrontMatter.ofText l₁.registry text = FrontMatter.ofText l₂.registry text := by
  simp only [withEnvironment_reading]
  refine ⟨?_, ?_, ?_⟩
  · intro name h
    have hload := load_reading h
    simp only [load, hload]
  · intro text h
    have hload : (reading source e₁).inheritance.loadText text =
        (reading source e₂).inheritance.loadText text := loadBelow_reading List.mem_cons_self h
    simp only [loadText, hload]
  · intro text h
    rw [FrontMatter.ofText, FrontMatter.ofText]
    cases hblock : FrontMatter.block? text with
    | none => rfl
    | some cut =>
      have hparse := Environment.parse_congr (h cut.1 cut.2 hblock) "front matter"
      simp only [FrontMatter.ofBlock, reading, hparse]

/-- A site whose parent is named by a variable, in two processes and two environments. -/
theorem withEnvironment_congr_base :
    let org : Text := "theme: !ENV [THEME, !ENV [STYLE, plain]]"
    let site : Text := "INHERIT: !ENV BASE\nname: Docs"
    let page : Text := "---\nauthor: !ENV AUTHOR\n---\nHOME"
    let docs : Entries Text := [("org", org), ("site", site)]
    let e₁ : Environment := .ofEntries [("BASE", "org"), ("STYLE", "dark"), ("HOME", "here")]
    let e₂ : Environment := .ofEntries [("STYLE", "dark"), ("HOME", "there"), ("BASE", "org")]
    let l₁ := (reading (.ofEntries docs) (.ofEntries [("THEME", "light")])).withEnvironment e₁
    let l₂ := (reading (.ofEntries docs) (.ofEntries [("AUTHOR", "us")])).withEnvironment e₂
    (∀ doc ∈ docs, AgreeOn e₁ e₂ doc.2) ∧ e₁ "HOME" ≠ e₂ "HOME" ∧
      l₁.load "site" = .ok [("theme", .string "dark"), ("name", .string "Docs")] ∧
      l₁.load "site" = l₂.load "site" ∧ l₁.loadText site = l₂.loadText site ∧
      FrontMatter.ofText l₁.registry page = FrontMatter.ofText l₂.registry page := by
  intro org site page docs e₁ e₂ l₁ l₂
  have hdocs : ∀ doc ∈ docs, AgreeOn e₁ e₂ doc.2 := by decide +kernel
  have hpage : ∀ cut ∈ FrontMatter.block? page, AgreeOn e₁ e₂ cut.1 := by decide +kernel
  have hread : ∀ name referrer document, l₁.source.read name referrer = .ok document →
      AgreeOn e₁ e₂ document.text :=
    fun _ _ _ hfind => hdocs _ (Source.mem_of_find hfind)
  have hanswer : l₁.load "site" = .ok [("theme", .string "dark"), ("name", .string "Docs")] := by
    have hsite : l₁.registry.parse site "site" = .ok (.mapping _) :=
      Registry.parse_of_texts? [("INHERIT", "org"), ("name", "Docs")] (by decide +kernel)
    have horg : l₁.registry.parse org "org" = .ok (.mapping _) :=
      Registry.parse_of_texts? [("theme", "dark")] (by decide +kernel)
    have hchild : l₁.inheritance.own ⟨"site", site⟩ =
      .ok [("INHERIT", .string "org"), ("name", .string "Docs")] := Inheritance.own_of_parse hsite
    have hparent : l₁.inheritance.own ⟨"org", org⟩ = .ok [("theme", .string "dark")] :=
      Inheritance.own_of_parse horg
    have hkey : Entries.get? ConfigError.parentKey [("INHERIT".toList, Value.string "org"),
      ("name".toList, .string "Docs")] = some (.string "org") := rfl
    have hroot : l₁.inheritance.read "site" none = .ok ⟨"site", site⟩ := rfl
    have hfound : l₁.inheritance.read "org" (some "site") = .ok ⟨"org", org⟩ := rfl
    have hsome : l₁.inheritance.load "site" =
        some (.ok [("theme", .string "dark"), ("name", .string "Docs")]) := by
      rw [Inheritance.load, hroot]
      dsimp only
      rw [Inheritance.loadBelow, if_neg List.not_mem_nil]
      simp only [hchild, hkey, hfound]
      rw [Inheritance.loadBelow, if_neg (by decide), hparent]
      rfl
    exact Option.some.inj ((Option.some_get _).trans hsome)
  obtain ⟨hload, htext, hmetadata⟩ := withEnvironment_congr (.ofEntries docs)
    (.ofEntries [("THEME", "light")]) (.ofEntries [("AUTHOR", "us")]) e₁ e₂
  refine ⟨hdocs, by decide, hanswer, hload _ ?_, htext _ ?_, hmetadata _ ?_⟩
  · intro document h
    obtain ⟨name, referrer, hname⟩ := h.found
    exact hread name referrer document hname
  · intro document h
    rcases h.found with rfl | ⟨name, referrer, hname⟩
    · exact hdocs ("site", site) (List.mem_cons_of_mem _ List.mem_cons_self)
    · exact hread name referrer document hname
  · intro block rest hblock
    exact hpage (block, rest) hblock

end Loader

end StaticSite
