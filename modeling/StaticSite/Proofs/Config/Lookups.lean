import StaticSite.Proofs.Config.Inline

/-! Documents in memory that are added or replaced. Loading looks up its own
name and those of the parents on the way, so its answer hangs on the last texts
under these names and on no other insertion. -/

namespace StaticSite

namespace Entries

variable {α : Type}

/-- The map after pairs are inserted in turn. -/
def insertAll (es : Entries α) (inserts : List (Text × α)) : Entries α :=
  inserts.foldl (fun es (k, v) => insert k v es) es

/-- The last value inserted under a key, or else the one from before. -/
def latest (es : Entries α) (inserts : List (Text × α)) (key : Text) : Option α :=
  (get? key inserts.reverse).or (get? key es)

theorem latest_concat (es : Entries α) (inserts : List (Text × α)) (k : Text) (v : α) (key : Text) :
    latest es (inserts ++ [(k, v)]) key = if k = key then some v else latest es inserts key := by
  rw [latest, List.reverse_concat, get?]
  by_cases h : k = key
  · rw [if_pos h, if_pos h, Option.some_or]
  · rw [if_neg h, if_neg h, latest]

theorem get?_insertAll (es : Entries α) (inserts : List (Text × α)) (key : Text) :
    get? key (insertAll es inserts) = latest es inserts key := by
  induction inserts using List.reverseRecOn with
  | nil => rfl
  | append_singleton inserts e ih =>
    obtain ⟨k, v⟩ := e
    rw [latest_concat, ← ih, ← get?_insert, insertAll, List.foldl_concat, insertAll]

theorem latest_of_not_mem {es : Entries α} {inserts : List (Text × α)} {key : Text}
    (h : ∀ e ∈ inserts, e.1 ≠ key) : latest es inserts key = get? key es := by
  induction inserts using List.reverseRecOn with
  | nil => rfl
  | append_singleton inserts e ih =>
    have hlast : e.1 ≠ key := h e (List.mem_append_right _ (List.mem_singleton_self e))
    rw [latest_concat, if_neg hlast, ih fun e he => h e (List.mem_append_left _ he)]

end Entries

namespace Inheritance

/-- A document that is found under a name names another as its parent. -/
def NamesParent (registry : Registry) (docs : Entries Text) (name parent : Text) : Prop :=
  ∃ text, docs.get? name = some text ∧ registry.NamesParent text parent

/-- The names that loading looks up: the one it is asked for, and those of the parents named by
the documents found, of which the last one may be missing. -/
def LooksUp (registry : Registry) (docs : Entries Text) : (root name : Text) → Prop :=
  Relation.ReflTransGen (NamesParent registry docs)

/-- Documents found under the first names have the names of their parents among the second. -/
def ParentsIn (registry : Registry) (docs : Entries Text) (children names : List Text) : Prop :=
  ∀ child ∈ children, ∀ parent, NamesParent registry docs child parent → parent ∈ names

variable {registry : Registry} {docs docs' : Entries Text} {root : Text}
  {visited : List Text} {document : Document} {r : Option Text}

theorem looksFor_iff (hget : docs.get? document.id = some document.text)
    (hv : document.id ∉ visited) {name : Text} :
    (inMemory registry docs).LooksFor visited document name ↔
      NamesParent registry docs document.id name := by
  constructor
  · exact fun h => ⟨document.text, hget, h.namesParent⟩
  · rintro ⟨text, htext, h⟩
    cases hget.symm.trans htext
    exact .of_namesParent hv h

theorem looksUp_of_mem_askedBelow {asked : List (Text × Option Text)}
    (h : (inMemory registry docs).askedBelow visited document r = some asked)
    (hget : docs.get? document.id = some document.text) :
    ∀ name ∈ asked.map (·.1), LooksUp registry docs document.id name := by
  induction asked generalizing visited document r with
  | nil => exact fun _ hname => absurd hname List.not_mem_nil
  | cons q asked ih =>
    rcases askedBelow_cases h with ⟨hnil, _⟩ | ⟨name, above, hname, hcons, habove⟩
    · cases hnil
    · cases hcons
      have hparent : LooksUp registry docs document.id name :=
        .single ((looksFor_iff hget hname.1).mp hname)
      rw [List.map_cons, List.forall_mem_cons]
      refine ⟨hparent, ?_⟩
      rcases habove with ⟨_, rfl⟩ | ⟨parent, hread, habove⟩
      · exact fun _ hname => absurd hname List.not_mem_nil
      · obtain ⟨rfl, htext⟩ := Source.get?_of_find hread
        exact fun name' hname' => hparent.trans (ih habove htext name' hname')

theorem parentsIn_of_fault {name : Text} {e : SourceError}
    (h : (inMemory registry docs).read name r = .error e) (names : List Text) :
    ParentsIn registry docs [name] names := by
  intro child hchild parent hparent
  obtain rfl := List.mem_singleton.mp hchild
  obtain ⟨text, htext, _⟩ := hparent
  cases (Source.find_of_some htext).symm.trans h

theorem parentsIn_askedBelow {asked : List (Text × Option Text)}
    (h : (inMemory registry docs).askedBelow visited document r = some asked)
    (hget : docs.get? document.id = some document.text)
    (hvisited : ParentsIn registry docs visited (visited ++ [document.id])) :
    ParentsIn registry docs (visited ++ document.id :: asked.map (·.1))
      (visited ++ document.id :: asked.map (·.1)) := by
  induction asked generalizing visited document r with
  | nil =>
    -- the last document names no parent, or it was visited before
    intro child hchild parent hparent
    by_cases hv : child ∈ visited
    · exact hvisited child hv parent hparent
    · obtain rfl : child = document.id := by simpa [hv] using hchild
      rcases askedBelow_cases h with ⟨_, hnone⟩ | ⟨_, _, _, hcons, _⟩
      · exact absurd ⟨parent, (looksFor_iff hget hv).mpr hparent⟩ hnone
      · cases hcons
  | cons q asked ih =>
    rcases askedBelow_cases h with ⟨hnil, _⟩ | ⟨name, above, hname, hcons, habove⟩
    · cases hnil
    · cases hcons
      have hvisited' : ParentsIn registry docs (visited ++ [document.id])
          (visited ++ [document.id] ++ [name]) := by
        intro child hchild parent hparent
        by_cases hv : child ∈ visited
        · exact List.mem_append_left _ (hvisited child hv parent hparent)
        · obtain rfl : child = document.id := by simpa [hv] using hchild
          obtain rfl := hname.unique ((looksFor_iff hget hv).mpr hparent)
          exact List.mem_append_right _ (List.mem_singleton_self name)
      rw [List.append_cons, List.map_cons]
      rcases habove with ⟨⟨e, he⟩, rfl⟩ | ⟨parent, hread, habove⟩
      · intro child hchild
        rcases List.mem_append.mp hchild with hchild | hchild
        · exact hvisited' child hchild
        · exact parentsIn_of_fault he _ child hchild
      · obtain ⟨rfl, htext⟩ := Source.get?_of_find hread
        exact ih habove htext hvisited'

/-- Loading asks for the names that it looks up and for no others. -/
theorem mem_asked_iff {asked : List (Text × Option Text)}
    (h : (inMemory registry docs).asked root = some asked) {name : Text} :
    name ∈ asked.map (·.1) ↔ LooksUp registry docs root name := by
  obtain ⟨above, rfl, habove⟩ := asked_cases h
  let names := root :: above.map (·.1)
  have hnames : (∀ name ∈ names, LooksUp registry docs root name) ∧
      ParentsIn registry docs names names := by
    rcases habove with ⟨⟨e, he⟩, rfl⟩ | ⟨document, hroot, habove⟩
    · exact ⟨by simp [names, LooksUp, Relation.ReflTransGen.refl], parentsIn_of_fault he names⟩
    · obtain ⟨rfl, hget⟩ := Source.get?_of_find hroot
      have hvisited : ParentsIn registry docs [] [document.id] :=
        fun _ hchild => absurd hchild List.not_mem_nil
      exact ⟨List.forall_mem_cons.mpr ⟨.refl, looksUp_of_mem_askedBelow habove hget⟩,
        parentsIn_askedBelow habove hget hvisited⟩
  constructor
  · exact hnames.1 name
  · intro hlooked
    induction hlooked with
    | refl => exact List.mem_cons_self
    | tail _ hparent ih => exact hnames.2 _ ih _ hparent

end Inheritance

namespace Loader

open Entries Inheritance

theorem load_eq_of_looksUp {registry : Registry} {docs docs' : Entries Text} {root : Text}
    (h : ∀ name, LooksUp registry docs root name → docs'.get? name = docs.get? name) :
    load ⟨.ofEntries docs', registry⟩ root = load ⟨.ofEntries docs, registry⟩ root := by
  obtain ⟨asked, hasked⟩ := exists_asked ⟨.ofEntries docs, registry⟩ root
  have hagree : ∀ q ∈ asked, Source.find docs' q.1 = Source.find docs q.1 := fun q hq =>
    Source.find_congr (h q.1 ((mem_asked_iff hasked).mp (List.mem_map_of_mem hq)))
  have hload : (inheritance ⟨.ofEntries docs', registry⟩).load root =
      (inheritance ⟨.ofEntries docs, registry⟩).load root := load_eq_of_agree hasked hagree
  simp only [load, hload]

/-- Of documents in memory, loading asks for exactly its own name and those of the parents on the
way. Documents inserted under other names leave its answer as it is, configuration or fault, and
whatever was inserted before, the answer hangs only on the last texts under the names looked up. -/
theorem load_insertAll (registry : Registry) (docs : Entries Text) (root : Text) :
    (∃ asked, (inMemory registry docs).asked root = some asked ∧
      ∀ name, name ∈ asked.map (·.1) ↔ LooksUp registry docs root name) ∧
    (∀ inserts, (∀ e ∈ inserts, ¬ LooksUp registry docs root e.1) →
      load ⟨.ofEntries (docs.insertAll inserts), registry⟩ root =
        load ⟨.ofEntries docs, registry⟩ root) ∧
    ∀ inserts docs' inserts',
      (∀ name, LooksUp registry (docs.insertAll inserts) root name →
        latest docs' inserts' name = latest docs inserts name) →
      load ⟨.ofEntries (docs'.insertAll inserts'), registry⟩ root =
        load ⟨.ofEntries (docs.insertAll inserts), registry⟩ root := by
  refine ⟨?_, ?_, ?_⟩
  · obtain ⟨asked, hasked⟩ := Loader.exists_asked ⟨.ofEntries docs, registry⟩ root
    exact ⟨asked, hasked, fun _ => mem_asked_iff hasked⟩
  · intro inserts h
    apply load_eq_of_looksUp
    intro name hname
    have hother : ∀ e ∈ inserts, e.1 ≠ name := fun e he heq => h e he (heq ▸ hname)
    rw [get?_insertAll, latest_of_not_mem hother]
  · intro inserts docs' inserts' h
    apply load_eq_of_looksUp
    intro name hname
    rw [get?_insertAll, get?_insertAll, h name hname]

/-- A site with a base, between changes to the base and to news. -/
theorem load_insertAll_base :
    let site : Text := "INHERIT: base\nname: Docs"
    let light : Text := "theme: light"
    let docs : Entries Text := [("site", site), ("base", light)]
    let news : List (Text × Text) := [("news", "INHERIT: site"), ("draft", "- no mapping")]
    let changes : List (Text × Text) := [("base", "theme: dark"), ("news", ""), ("base", light)]
    let docs' : Entries Text := [("base", "- no mapping"), ("site", site)]
    (∀ e ∈ news, ¬ LooksUp .empty docs "site" e.1) ∧
      load ⟨.ofEntries (docs.insertAll news), .empty⟩ "site" =
        load ⟨.ofEntries docs, .empty⟩ "site" ∧
      (∀ name, LooksUp .empty (docs.insertAll changes) "site" name →
        latest docs' [("base", light)] name = latest docs changes name) ∧
      load ⟨.ofEntries (docs'.insertAll [("base", light)]), .empty⟩ "site" =
        load ⟨.ofEntries (docs.insertAll changes), .empty⟩ "site" := by
  intro site light docs news changes docs'
  have hsite : Registry.empty.parse site "site" = .ok (.mapping _) :=
    Registry.parse_of_texts? [("INHERIT", "base"), ("name", "Docs")] (by decide +kernel)
  have hlight : Registry.empty.parse light "base" = .ok (.mapping _) :=
    Registry.parse_of_texts? [("theme", "light")] (by decide +kernel)
  have hlooked : ∀ docs : Entries Text, docs.get? "site" = some site →
      docs.get? "base" = some light → ∀ name, LooksUp .empty docs "site" name →
      name = "site" ∨ name = "base" := by
    intro docs hgetSite hgetBase name h
    induction h with
    | refl => exact .inl rfl
    | tail _ hparent ih =>
      obtain ⟨text, htext, hparent⟩ := hparent
      rcases ih with rfl | rfl
      · cases hgetSite.symm.trans htext
        cases (Registry.namesParent_iff hsite).mp hparent
        exact .inr rfl
      · cases hgetBase.symm.trans htext
        cases (Registry.namesParent_iff hlight).mp hparent
  obtain ⟨_, hframe, hlatest⟩ := load_insertAll .empty docs "site"
  have hnews : ∀ e ∈ news, ¬ LooksUp .empty docs "site" e.1 := by
    intro e he hlook
    have hother : ∀ e ∈ news, e.1 ≠ "site" ∧ e.1 ≠ "base" := by decide
    rcases hlooked docs rfl rfl e.1 hlook with heq | heq
    · exact (hother e he).1 heq
    · exact (hother e he).2 heq
  have hchanges : ∀ name, LooksUp .empty (docs.insertAll changes) "site" name →
      latest docs' [("base", light)] name = latest docs changes name := by
    intro name hname
    rcases hlooked (docs.insertAll changes) rfl rfl name hname with rfl | rfl <;> decide +kernel
  exact ⟨hnews, hframe news hnews, hchanges, hlatest changes docs' _ hchanges⟩

end Loader

end StaticSite
