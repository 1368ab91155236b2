import StaticSite.Proofs.Config.NoCycle
import StaticSite.Proofs.Config.Renaming
import StaticSite.Proofs.Config.Texts

/-! Documents given by their texts. One is loaded as it would be under a name
of its own, unless a document on the way has the name that all such documents
share: the first one to have it is taken for the text itself. -/

namespace StaticSite

namespace Source

variable {docs : Entries Text} {text n : Text}

@[simp] theorem find_insert_self : find (docs.insert n text) n = .ok ⟨n, text⟩ := by
  apply find_of_some
  rw [Entries.get?_insert, if_pos rfl]

theorem find_insert_of_ne {name : Text} (h : name ≠ n) :
    find (docs.insert n text) name = find docs name := by
  apply find_congr
  rw [Entries.get?_insert, if_neg (Ne.symm h)]

end Source

namespace Inheritance

theorem own_noCycle {i : Inheritance} (h : ∀ hook ∈ i.registry.hooks, hook.RaisesNoCycle)
    (document : Document) : NoCycle (i.own document) := by
  have hparse := Registry.parse_noCycle h document.text document.id
  intro ids hown
  rw [own] at hown
  split at hown
  · cases hown
  · cases hown
  · cases hown
  · rename_i e he
    cases hown
    exact hparse ids he

/-- The documents of a cycle are at least those visited, the one loaded and one that comes again. -/
theorem length_lt_of_cycle {i : Inheritance}
    (hhooks : ∀ hook ∈ i.registry.hooks, hook.RaisesNoCycle)
    {visited : List Text} {document : Document} {r : Option Text}
    {answer : Except ConfigError Config} (h : i.loadBelow visited document r = some answer) :
    ∀ ids, answer = .error (.cycle ids) → visited.length < ids.length ∧
      (document.id ∉ visited → visited.length + 1 < ids.length) := by
  refine loadBelow.partial_correctness i (fun visited document _ answer =>
    ∀ ids, answer = .error (.cycle ids) → visited.length < ids.length ∧
      (document.id ∉ visited → visited.length + 1 < ids.length)) ?_ visited document r answer h
  clear h visited document r answer
  rintro loadBelow ih visited document r answer hanswer ids rfl
  by_cases hv : document.id ∈ visited
  · rw [if_pos hv] at hanswer
    cases hanswer
    exact ⟨by simp, fun hnot => absurd hv hnot⟩
  · rw [if_neg hv] at hanswer
    have hlonger : (visited ++ [document.id]).length < ids.length := by
      cases hown : i.own document with
      | error e =>
        rw [hown] at hanswer
        cases hanswer
        exact absurd hown (own_noCycle hhooks document ids)
      | ok config =>
        rw [hown] at hanswer
        dsimp only at hanswer
        split at hanswer
        · cases hanswer
        · split at hanswer
          · rename_i e _
            cases e <;> cases hanswer
          · obtain ⟨above, habove, hmap⟩ := Option.bind_eq_some_iff.mp hanswer
            cases above with
            | ok config => cases hmap
            | error e =>
              cases hmap
              exact (ih _ _ _ _ habove ids rfl).1
        · cases hanswer
    rw [List.length_append, List.length_singleton] at hlonger
    exact ⟨by omega, fun _ => hlonger⟩

/-- The name that a text has of its own becomes the name that all texts have. -/
def unnamed (n id : Text) : Text := if id = n then inlineId else id

@[simp] theorem unnamed_self (n : Text) : unnamed n n = inlineId := if_pos rfl

theorem unnamed_of_ne {n id : Text} (h : id ≠ n) : unnamed n id = id := if_neg h

/-- A name that stays apart from others without the name `n`. -/
def StaysApart (docs : Entries Text) (n id : Text) : Prop := id = n ∨ docs.has id ∧ id ≠ inlineId

section Memory

variable {registry : Registry} {docs : Entries Text} {text n : Text}

theorem unnamed_injOn {id id' : Text} (h : StaysApart docs n id) (h' : StaysApart docs n id')
    (heq : unnamed n id = unnamed n id') : id = id' := by
  by_cases hid : id = n
  · by_cases hid' : id' = n
    · rw [hid, hid']
    · rw [hid, unnamed_self, unnamed_of_ne hid'] at heq
      exact absurd heq.symm (h'.resolve_left hid').2
  · by_cases hid' : id' = n
    · rw [hid', unnamed_self, unnamed_of_ne hid] at heq
      exact absurd heq (h.resolve_left hid).2
    · rwa [unnamed_of_ne hid, unnamed_of_ne hid'] at heq

theorem unnamed_mem_iff {visited : List Text} {id : Text}
    (h : ∀ id' ∈ id :: visited, StaysApart docs n id') :
    unnamed n id ∈ visited.map (unnamed n) ↔ id ∈ visited := by
  rw [List.forall_mem_cons] at h
  constructor
  · intro hmem
    obtain ⟨id', hid', heq⟩ := List.mem_map.mp hmem
    rwa [← unnamed_injOn (h.2 id' hid') h.1 heq]
  · exact List.mem_map_of_mem

/-- Documents in memory. -/
def inMemory (registry : Registry) (docs : Entries Text) : Inheritance :=
  Loader.inheritance ⟨.ofEntries docs, registry⟩

/-- Documents in memory, and a text under a name of its own. -/
def withText (registry : Registry) (docs : Entries Text) (text n : Text) : Inheritance :=
  inMemory registry (docs.insert n text)

/-- A name for a text that no document has, and that none names as its parent. -/
structure IsFresh (registry : Registry) (docs : Entries Text) (text n : Text) : Prop where
  not_has : docs.get? n = none
  not_named_by_text : ¬ registry.NamesParent text n
  not_named_by_docs : ∀ id t, docs.get? id = some t → ¬ registry.NamesParent t n

theorem isFresh_singleton {id t : Text} {config config' : Config} (hne : id ≠ n)
    (ht : registry.parse t id = .ok (.mapping config))
    (hkey : (Entries.get? ConfigError.parentKey config).bind Value.text? ≠ some n)
    (htext : registry.parse text n = .ok (.mapping config'))
    (hkey' : (Entries.get? ConfigError.parentKey config').bind Value.text? ≠ some n) :
    IsFresh registry [(id, t)] text n := by
  refine ⟨if_neg hne, ?_, ?_⟩
  · rw [Registry.namesParent_iff htext]
    intro h
    exact hkey' (by rw [h]; rfl)
  · intro id' t' hget
    cases List.mem_singleton.mp (Entries.mem_of_get? hget)
    rw [Registry.namesParent_iff ht]
    intro h
    exact hkey (by rw [h]; rfl)

section Reading

variable (registry text)

theorem read_inMemory_of_some {name t : Text} (hne : name ≠ n) (h : docs.get? name = some t)
    (r r' : Option Text) :
    (withText registry docs text n).read name r = .ok ⟨name, t⟩ ∧
      (inMemory registry docs).read name r' = .ok (Document.rename (unnamed n) ⟨name, t⟩) := by
  have hfind := Source.find_of_some h
  have hrename : Document.rename (unnamed n) ⟨name, t⟩ = ⟨name, t⟩ := by
    rw [Document.rename, unnamed_of_ne hne]
  rw [hrename]
  exact ⟨(Source.find_insert_of_ne hne).trans hfind, hfind⟩

theorem read_inMemory_of_none {name : Text} (hne : name ≠ n) (h : docs.get? name = none)
    (r r' : Option Text) :
    (withText registry docs text n).read name r = .error (.notFound name) ∧
      (inMemory registry docs).read name r' = .error (.notFound name) := by
  have hfind := Source.find_of_none h
  exact ⟨(Source.find_insert_of_ne hne).trans hfind, hfind⟩

end Reading

theorem map_map_eq_error_iff {answer : Option (Except ConfigError Config)} {g : Config → Config}
    {e : ConfigError} : answer.map (·.map g) = some (.error e) ↔ answer = some (.error e) := by
  cases answer with
  | none => simp
  | some r => cases r <;> simp [Except.map]

/-- Names that stay apart do so with the name of one more document, if it is not the common one. -/
theorem StaysApart.concat {visited : List Text} {id name t : Text}
    (h : ∀ id' ∈ id :: visited, StaysApart docs n id') (hget : docs.get? name = some t)
    (hname : name ≠ inlineId) : ∀ id' ∈ name :: (visited ++ [id]), StaysApart docs n id' := by
  have hhas : docs.has name = true := by rw [Entries.has, hget, Option.isSome_some]
  intro id' hid'
  rcases List.mem_cons.mp hid' with rfl | hid'
  · exact .inr ⟨hhas, hname⟩
  · rcases List.mem_append.mp hid' with hid' | hid'
    · exact h id' (List.mem_cons_of_mem id hid')
    · exact h id' (List.mem_singleton.mp hid' ▸ List.mem_cons_self)

variable {visited : List Text} {document : Document} {r r' : Option Text}

theorem ne_of_looksFor (hdocument : ¬ registry.NamesParent document.text n) {name : Text}
    (h : (inMemory registry docs).LooksFor visited document name) : name ≠ n := by
  rintro rfl
  exact hdocument h.namesParent

theorem loadBelow_unnamed_of_parent (hids : ∀ id ∈ document.id :: visited, StaysApart docs n id)
    (hdocument : ¬ registry.NamesParent document.text n)
    (habove : ∀ name t,
      (withText registry docs text n).LooksFor visited document name →
      docs.get? name = some t → Option.Rel (registry.Agree (unnamed n))
        ((withText registry docs text n).loadBelow (visited ++ [document.id]) ⟨name, t⟩
          (some name))
        ((inMemory registry docs).loadBelow ((visited ++ [document.id]).map (unnamed n))
          (Document.rename (unnamed n) ⟨name, t⟩) (some (unnamed n name)))) :
    Option.Rel (registry.Agree (unnamed n))
      ((withText registry docs text n).loadBelow visited document r)
      ((inMemory registry docs).loadBelow (visited.map (unnamed n))
        (document.rename (unnamed n)) r') := by
  have hregistry : (inMemory registry docs).registry =
      (withText registry docs text n).registry := rfl
  apply loadBelow_agree hregistry (unnamed_mem_iff hids)
  intro name hname
  have hne := ne_of_looksFor hdocument hname
  refine ⟨unnamed_of_ne hne, ?_⟩
  cases hget : docs.get? name with
  | none => exact .inl ⟨name, name, read_inMemory_of_none registry text hne hget r r'⟩
  | some t =>
    obtain ⟨hread, hread'⟩ := read_inMemory_of_some registry text hne hget r r'
    exact .inr ⟨⟨name, t⟩, hread, hread', habove name t hname hget⟩

/-- The first document asked for is the parent, and the others are asked for from there on. -/
theorem askedBelow_inMemory_cons (hdocument : ¬ registry.NamesParent document.text n)
    {q : Text × Option Text} {asked : List (Text × Option Text)}
    (h : (withText registry docs text n).askedBelow visited document r = some (q :: asked)) :
    (withText registry docs text n).LooksFor visited document q.1 ∧
      (docs.get? q.1 = none ∧ asked = [] ∨ ∃ t, docs.get? q.1 = some t ∧
        (withText registry docs text n).askedBelow (visited ++ [document.id]) ⟨q.1, t⟩
          (some q.1) = some asked) := by
  rcases askedBelow_cases h with ⟨hnil, _⟩ | ⟨name, above, hname, hcons, habove⟩
  · cases hnil
  · cases hcons
    refine ⟨hname, ?_⟩
    have hne := ne_of_looksFor hdocument hname
    cases hget : docs.get? name with
    | none =>
      rcases habove with ⟨_, hnil⟩ | ⟨parent, hparent, _⟩
      · exact .inl ⟨rfl, hnil⟩
      · rw [(read_inMemory_of_none registry text hne hget r r).1] at hparent
        cases hparent
    | some t =>
      rcases habove with ⟨⟨e, he⟩, _⟩ | ⟨parent, hparent, habove⟩
      · rw [(read_inMemory_of_some registry text hne hget r r).1] at he
        cases he
      · rw [(read_inMemory_of_some registry text hne hget r r).1] at hparent
        cases hparent
        exact .inr ⟨t, rfl, habove⟩

/-- Below the documents visited, the answers agree if no document with the common name is asked
for. -/
theorem loadBelow_unnamed (hfresh : IsFresh registry docs text n)
    {asked : List (Text × Option Text)}
    (h : (withText registry docs text n).askedBelow visited document r = some asked)
    (hasked : ∀ q ∈ asked, q.1 = inlineId → docs.get? inlineId = none)
    (hids : ∀ id ∈ document.id :: visited, StaysApart docs n id)
    (hdocument : ¬ registry.NamesParent document.text n) :
    Option.Rel (registry.Agree (unnamed n))
      ((withText registry docs text n).loadBelow visited document r)
      ((inMemory registry docs).loadBelow (visited.map (unnamed n))
        (document.rename (unnamed n)) r') := by
  induction asked generalizing visited document r r' with
  | nil =>
    apply loadBelow_unnamed_of_parent hids hdocument
    intro name t hname _
    rcases askedBelow_cases h with ⟨_, hnone⟩ | ⟨_, _, _, hcons, _⟩
    · exact absurd ⟨name, hname⟩ hnone
    · cases hcons
  | cons q asked ih =>
    apply loadBelow_unnamed_of_parent hids hdocument
    intro name t hname hget
    obtain ⟨hname', habove⟩ := askedBelow_inMemory_cons hdocument h
    obtain rfl := hname.unique hname'
    rcases habove with ⟨hnone, _⟩ | ⟨t', hget', habove⟩
    · rw [hget] at hnone
      cases hnone
    · rw [hget] at hget'
      cases hget'
      have hcommon : q.1 ≠ inlineId := by
        intro hq
        have hnone := hasked q List.mem_cons_self hq
        rw [← hq, hget] at hnone
        cases hnone
      exact ih habove (fun q hq => hasked q (List.mem_cons_of_mem _ hq))
        (StaysApart.concat hids hget hcommon) (hfresh.not_named_by_docs q.1 t hget)

section Parent

variable {name t : Text} (hname : (withText registry docs text n).LooksFor visited document name)
  (hget : docs.get? name = some t) (e : ConfigError)

include hname hget

theorem loadBelow_named_eq_error_iff (hdocument : ¬ registry.NamesParent document.text n) :
    (withText registry docs text n).loadBelow visited document r = some (.error e) ↔
      (withText registry docs text n).loadBelow (visited ++ [document.id]) ⟨name, t⟩
        (some name) = some (.error e) := by
  have hne := ne_of_looksFor hdocument hname
  obtain ⟨config, hload⟩ := loadBelow_of_parent hname
    (read_inMemory_of_some registry text hne hget r r).1
  rw [hload, map_map_eq_error_iff]

theorem loadBelow_unnamed_eq_error_iff (hdocument : ¬ registry.NamesParent document.text n)
    (hids : ∀ id ∈ document.id :: visited, StaysApart docs n id) :
    (inMemory registry docs).loadBelow (visited.map (unnamed n)) (document.rename (unnamed n)) r =
        some (.error e) ↔
      (inMemory registry docs).loadBelow ((visited ++ [document.id]).map (unnamed n))
        (Document.rename (unnamed n) ⟨name, t⟩) (some (unnamed n name)) = some (.error e) := by
  have hregistry : (inMemory registry docs).registry =
      (withText registry docs text n).registry := rfl
  have hne := ne_of_looksFor hdocument hname
  obtain ⟨config, hload⟩ := loadBelow_of_parent (hname.rename hregistry (unnamed_mem_iff hids))
    (read_inMemory_of_some registry text hne hget r r).2
  rw [hload, map_map_eq_error_iff, List.map_append]
  exact Iff.rfl

end Parent

/-- The first document with the common name closes a cycle for the text that has it too. With a
name of its own, the text comes before this document, and a cycle is longer. -/
theorem loadBelow_of_meets (hfresh : IsFresh registry docs text n) (hhas : docs.has inlineId = true)
    {before after : List (Text × Option Text)} {r₀ : Option Text}
    (h : (withText registry docs text n).askedBelow visited document r =
      some (before ++ (inlineId, r₀) :: after))
    (hbefore : ∀ q ∈ before, q.1 ≠ inlineId)
    (hids : ∀ id ∈ document.id :: visited, StaysApart docs n id)
    (hdocument : ¬ registry.NamesParent document.text n) (hn : n ∈ visited ++ [document.id]) :
    (inMemory registry docs).loadBelow (visited.map (unnamed n)) (document.rename (unnamed n)) r' =
        some (.error (.cycle
          ((visited ++ [document.id]).map (unnamed n) ++ before.map (·.1) ++ [inlineId]))) ∧
      ((∀ hook ∈ registry.hooks, hook.RaisesNoCycle) → ∀ ids,
        (withText registry docs text n).loadBelow visited document r =
          some (.error (.cycle ids)) → visited.length + before.length + 2 < ids.length) := by
  induction before generalizing visited document r r' with
  | nil =>
    obtain ⟨hname, _⟩ := askedBelow_inMemory_cons hdocument h
    obtain ⟨t, hget⟩ := Option.isSome_iff_exists.mp hhas
    have hne : inlineId ≠ n := ne_of_looksFor hdocument hname
    refine ⟨?_, ?_⟩
    · rw [loadBelow_unnamed_eq_error_iff hname hget _ hdocument hids, loadBelow, if_pos]
      · simp [Document.rename, unnamed_of_ne hne]
      · rw [Document.rename, unnamed_of_ne hne, ← unnamed_self n]
        exact List.mem_map_of_mem hn
    · intro hhooks ids hload
      rw [loadBelow_named_eq_error_iff hname hget _ hdocument] at hload
      have hnot : inlineId ∉ visited ++ [document.id] := by
        intro hmem
        have happart := hids inlineId (by simpa [or_comm] using hmem)
        exact (happart.resolve_left hne).2 rfl
      have hlength := (length_lt_of_cycle hhooks hload ids rfl).2 hnot
      simp only [List.length_append, List.length_cons, List.length_nil] at hlength ⊢
      omega
  | cons q before ih =>
    rw [List.forall_mem_cons] at hbefore
    obtain ⟨hname, hparent⟩ := askedBelow_inMemory_cons hdocument h
    rcases hparent with ⟨_, hnil⟩ | ⟨t, hget, habove⟩
    · simp at hnil
    · have hne : q.1 ≠ n := ne_of_looksFor hdocument hname
      obtain ⟨hinline, hnamed⟩ := @ih _ _ _ (some (unnamed n q.1)) habove hbefore.2
        (StaysApart.concat hids hget hbefore.1) (hfresh.not_named_by_docs q.1 t hget)
        (List.mem_append_left _ hn)
      refine ⟨?_, ?_⟩
      · rw [loadBelow_unnamed_eq_error_iff hname hget _ hdocument hids, hinline]
        simp [unnamed_of_ne hne]
      · intro hhooks ids hload
        rw [loadBelow_named_eq_error_iff hname hget _ hdocument] at hload
        have hlength := hnamed hhooks ids hload
        simp only [List.length_append, List.length_cons, List.length_nil] at hlength ⊢
        omega

/-- Loading a text by its name asks for documents, and then for one with the common name. -/
def Meets (registry : Registry) (docs : Entries Text) (text n : Text) (before : List Text) : Prop :=
  docs.has inlineId = true ∧ inlineId ∉ before ∧ ∃ asked after,
    (withText registry docs text n).asked n = some asked ∧
    asked.map (·.1) = n :: before ++ inlineId :: after

theorem load_named (registry : Registry) (docs : Entries Text) (text n : Text) :
    (withText registry docs text n).load n =
      (withText registry docs text n).loadBelow [] ⟨n, text⟩ (some n) := by
  have hread : (withText registry docs text n).read n none = .ok ⟨n, text⟩ :=
    Source.find_insert_self
  rw [load, hread]

theorem exists_asked_named (registry : Registry) (docs : Entries Text) (text n : Text) :
    ∃ asked, (withText registry docs text n).askedBelow [] ⟨n, text⟩ (some n) = some asked ∧
      (withText registry docs text n).asked n = some ((n, none) :: asked) := by
  have hread : (withText registry docs text n).read n none = .ok ⟨n, text⟩ :=
    Source.find_insert_self
  obtain ⟨asked, hasked⟩ := Loader.exists_asked ⟨.ofEntries (docs.insert n text), registry⟩ n
  obtain ⟨above, rfl, habove⟩ := asked_cases hasked
  rcases habove with ⟨⟨e, he⟩, _⟩ | ⟨root, hroot, habove⟩
  · cases hread.symm.trans he
  · cases hread.symm.trans hroot
    exact ⟨above, habove, hasked⟩

end Memory

end Inheritance

namespace Loader

open Inheritance

variable {registry : Registry} {docs : Entries Text} {text n : Text}

theorem load_eq_loadBelow (registry : Registry) (docs : Entries Text) (text n : Text) :
    (withText registry docs text n).loadBelow [] ⟨n, text⟩ (some n) =
      some (load ⟨.ofEntries (docs.insert n text), registry⟩ n) := by
  rw [← load_named]
  exact (Option.some_get _).symm

theorem loadText_eq_loadBelow (registry : Registry) (docs : Entries Text) (text n : Text) :
    (inMemory registry docs).loadBelow (List.map (unnamed n) [])
        (Document.rename (unnamed n) ⟨n, text⟩) none =
      some (loadText ⟨.ofEntries docs, registry⟩ text) := by
  rw [Document.rename, unnamed_self]
  exact (Option.some_get _).symm

/-- A document that is given by its text is loaded as it is under a fresh name, with the same
configuration or the same fault but for that name, if and only if no document on the way has the
name that all such documents share. The first one that has it is refused as a cycle. -/
theorem loadText_agrees (hfresh : IsFresh registry docs text n) :
    let named := load ⟨.ofEntries (docs.insert n text), registry⟩ n
    let inline := loadText ⟨.ofEntries docs, registry⟩ text
    ((¬ ∃ before, Meets registry docs text n before) → registry.Agree (unnamed n) named inline) ∧
    ∀ before, Meets registry docs text n before →
      inline = .error (.cycle (inlineId :: before ++ [inlineId])) ∧
      ((∀ hook ∈ registry.hooks, hook.RaisesNoCycle) →
        ¬ registry.Agree (unnamed n) named inline) := by
  intro named inline
  obtain ⟨asked, hasked, hall⟩ := exists_asked_named registry docs text n
  have hnamed := load_eq_loadBelow registry docs text n
  have hinline := loadText_eq_loadBelow registry docs text n
  have hids : ∀ id ∈ [n], StaysApart docs n id := by
    intro id hid
    exact .inl (List.mem_singleton.mp hid)
  refine ⟨?_, ?_⟩
  · intro hmeets
    have hcommon : ∀ q ∈ asked, q.1 = inlineId → docs.get? inlineId = none := by
      intro q hq hname
      by_contra hget
      have hmem : inlineId ∈ asked.map (·.1) := hname ▸ List.mem_map_of_mem hq
      obtain ⟨before, after, hsplit, hbefore⟩ := List.eq_append_cons_of_mem hmem
      refine hmeets ⟨before, Option.isSome_iff_ne_none.mpr hget, hbefore, _, after, hall, ?_⟩
      rw [List.map_cons, hsplit, List.cons_append]
    have hagree : Option.Rel (registry.Agree (unnamed n)) (some named) (some inline) := by
      rw [← hnamed, ← hinline]
      exact loadBelow_unnamed hfresh hasked hcommon hids hfresh.not_named_by_text
    exact Option.rel_some_some.mp hagree
  · rintro before ⟨hhas, hbefore, asked', after, hall', hsplit⟩
    obtain rfl := Option.some.inj (hall.symm.trans hall')
    obtain ⟨passed, rest, rfl, rfl, hrest⟩ := List.map_eq_append_iff.mp (List.cons.inj hsplit).2
    obtain ⟨⟨_, r⟩, rest, rfl, rfl, _⟩ := List.map_eq_cons_iff.mp hrest
    have hpassed : ∀ q ∈ passed, q.1 ≠ inlineId := fun q hq hname =>
      hbefore (hname ▸ List.mem_map_of_mem hq)
    obtain ⟨hcycle, hlonger⟩ := loadBelow_of_meets hfresh hhas hasked hpassed hids
      hfresh.not_named_by_text (List.mem_singleton_self n)
    have hanswer : inline = .error (.cycle (inlineId :: passed.map (·.1) ++ [inlineId])) := by
      have hsome := hinline.symm.trans hcycle
      simpa using hsome
    refine ⟨hanswer, ?_⟩
    intro hhooks hagree
    rw [hanswer] at hagree
    rcases hagree.of_cycle with ⟨ids, hids', hlength⟩ | ⟨t, ht⟩
    · have hlong := hlonger hhooks ids (hnamed.trans (congrArg some hids'))
      have hsame := congrArg List.length hlength
      simp only [List.length_append, List.length_cons, List.length_map, List.length_nil]
        at hlong hsame
      omega
    · exact Registry.parse_noCycle hhooks t [] _ (ht [])

theorem loadText_agrees_site :
    let base : Text := "theme: light"
    let text : Text := "INHERIT: base\nname: Docs"
    let docs : Entries Text := [("base", base)]
    IsFresh Registry.empty docs text "site" ∧
      (¬ ∃ before, Meets Registry.empty docs text "site" before) ∧
      Registry.empty.Agree (unnamed "site")
        (load ⟨.ofEntries (docs.insert "site" text), Registry.empty⟩ "site")
        (loadText ⟨.ofEntries docs, Registry.empty⟩ text) := by
  intro base text docs
  have hbase : Registry.empty.parse base "base" = .ok (.mapping _) :=
    Registry.parse_of_texts? [("theme", "light")] (by decide +kernel)
  have htext : Registry.empty.parse text "site" = .ok (.mapping _) :=
    Registry.parse_of_texts? [("INHERIT", "base"), ("name", "Docs")] (by decide +kernel)
  have hfresh : IsFresh Registry.empty docs text "site" :=
    isFresh_singleton (by decide) hbase (by decide) htext (by decide)
  have hmeets : ¬ ∃ before, Meets Registry.empty docs text "site" before := by
    rintro ⟨_, hhas, _⟩
    exact absurd hhas (by decide)
  exact ⟨hfresh, hmeets, (loadText_agrees hfresh).1 hmeets⟩

/-- The text does not name itself, but a document that is called as texts are. -/
theorem loadText_common_name :
    let theme : Text := "theme: light"
    let text : Text := "INHERIT: <string>"
    let docs : Entries Text := [(inlineId, theme)]
    let named := load ⟨.ofEntries (docs.insert "site" text), Registry.empty⟩ "site"
    let inline := loadText ⟨.ofEntries docs, Registry.empty⟩ text
    IsFresh Registry.empty docs text "site" ∧ named = .ok [("theme", .string "light")] ∧
      inline = .error (.cycle [inlineId, inlineId]) ∧
      ¬ Registry.empty.Agree (unnamed "site") named inline := by
  intro theme text docs named inline
  have htheme : Registry.empty.parse theme inlineId = .ok (.mapping _) :=
    Registry.parse_of_texts? [("theme", "light")] (by decide +kernel)
  have htext : Registry.empty.parse text "site" = .ok (.mapping _) :=
    Registry.parse_of_texts? [("INHERIT", inlineId)] (by decide +kernel)
  have hfresh : IsFresh Registry.empty docs text "site" :=
    isFresh_singleton (by decide) htheme (by decide) htext (by decide)
  let i := inMemory Registry.empty (docs.insert "site" text)
  let j := inMemory Registry.empty docs
  have hkey : Entries.get? ConfigError.parentKey [("INHERIT".toList, Value.string inlineId)] =
      some (.string inlineId) := rfl
  have hnamed : named = .ok [("theme", .string "light")] := by
    have hown : i.own ⟨"site", text⟩ = .ok [("INHERIT", .string inlineId)] := own_of_parse htext
    have hparent : i.own ⟨inlineId, theme⟩ = .ok [("theme", .string "light")] := own_of_parse htheme
    have hread : i.read inlineId (some "site") = .ok ⟨inlineId, theme⟩ := rfl
    have hload : i.loadBelow [] ⟨"site", text⟩ (some "site") =
        some (.ok [("theme", .string "light")]) := by
      rw [loadBelow, if_neg List.not_mem_nil]
      simp only [hown, hkey, hread]
      rw [loadBelow, if_neg (by decide), hparent]
      rfl
    exact Option.some.inj ((load_eq_loadBelow Registry.empty docs text "site").symm.trans hload)
  have hinline : inline = .error (.cycle [inlineId, inlineId]) := by
    have hown : j.own ⟨inlineId, text⟩ = .ok [("INHERIT", .string inlineId)] :=
      own_of_parse (Registry.parse_eq_ok htext inlineId)
    have hread : j.read inlineId none = .ok ⟨inlineId, theme⟩ := rfl
    have hload : j.loadBelow [] ⟨inlineId, text⟩ none =
        some (.error (.cycle [inlineId, inlineId])) := by
      rw [loadBelow, if_neg List.not_mem_nil]
      simp only [hown, hkey, hread]
      rw [loadBelow, if_pos (by decide)]
      rfl
    exact Option.some.inj ((loadText_eq_loadBelow Registry.empty docs text "site").symm.trans hload)
  refine ⟨hfresh, hnamed, hinline, ?_⟩
  rw [hnamed, hinline]
  intro hagree
  rcases hagree.of_cycle with ⟨ids, hids, _⟩ | ⟨t, ht⟩
  · cases hids
  · exact Registry.parse_noCycle (by simp [Registry.empty]) t [] _ (ht [])

end Loader

end StaticSite
