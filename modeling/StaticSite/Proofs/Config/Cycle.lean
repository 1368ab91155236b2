import Mathlib.Data.List.Chain
import StaticSite.Proofs.Config.Asked
import StaticSite.Proofs.Config.Inheritance
import StaticSite.Proofs.Config.NoCycle

/-! Cycles of documents. Where documents have finitely many identities loading
comes to an end, and it answers with a cycle exactly where the walk from the
root comes back to a document, the root itself or any other. -/

namespace StaticSite

namespace Inheritance

/-- A document names another one, which is what is found as seen from it. -/
def IsParent (i : Inheritance) (child parent : Document) : Prop :=
  ∃ config name, i.registry.parse child.text child.id = .ok (.mapping config) ∧
    Entries.get? ConfigError.parentKey config = some (.string name) ∧
    i.read name (some child.id) = .ok parent

/-- Documents from the root on, each of which names the next one. -/
def IsLine (i : Inheritance) (name : Text) (documents : List Document) : Prop :=
  (∃ root, documents.head? = some root ∧ i.read name none = .ok root) ∧
    documents.IsChain i.IsParent

/-- The documents from the root on come back to one of them, and no earlier. -/
def ComesBack (i : Inheritance) (name : Text) (ids : List Text) : Prop :=
  ∃ visited back, i.IsLine name (visited ++ [back]) ∧ (visited.map (·.id)).Nodup ∧
    back.id ∈ visited.map (·.id) ∧ ids = visited.map (·.id) ++ [back.id]

/-- A document on the way is refused with a cycle that its hooks made up. -/
def HookRaises (i : Inheritance) (name : Text) (ids : List Text) : Prop :=
  ∃ visited last, i.IsLine name (visited ++ [last]) ∧
    ((visited ++ [last]).map (·.id)).Nodup ∧
    i.registry.parse last.text last.id = .error (.cycle ids)

end Inheritance

namespace Walk

open Inheritance (IsParent IsLine ComesBack HookRaises)

variable {i : Inheritance} {name : Text}

theorem documents_round {w w' : Walk} (h : w.round i = .underway w') :
    w'.documents = w.documents ++ [w.document] ∧ i.IsParent w.document w'.document := by
  obtain ⟨_, config, parent, hconfig, hname, hparent, hpassed⟩ := round_eq_underway.mp h
  exact ⟨by simp [documents, hpassed], config, parent, hconfig, hname, hparent⟩

theorem exists_round {w : Walk} {parent : Document} (hv : w.document.id ∉ w.ids)
    (h : i.IsParent w.document parent) :
    ∃ w', w.round i = .underway w' ∧ w'.document = parent := by
  obtain ⟨config, name, hconfig, hname, hparent⟩ := h
  exact ⟨⟨(w.document, Entries.erase config ConfigError.parentKey) :: w.passed, parent⟩,
    round_eq_underway.mpr ⟨hv, config, name, hconfig, hname, hparent, rfl⟩, rfl⟩

/-- No document is passed twice. -/
theorem isLine_of_underway {n : Nat} {w : Walk}
    (h : (Progress.next i)^[n] (start i name) = .underway w) :
    i.IsLine name (w.documents ++ [w.document]) ∧ w.ids.Nodup := by
  refine underway_induction
    (P := fun w => i.IsLine name (w.documents ++ [w.document]) ∧ w.ids.Nodup) ?_ ?_ h
  · intro root hroot
    exact ⟨⟨⟨root, rfl, hroot⟩, List.isChain_singleton _⟩, List.nodup_nil⟩
  · intro w w' ⟨⟨⟨root, hhead, hroot⟩, hchain⟩, hnodup⟩ hround
    obtain ⟨hdocuments, hparent⟩ := documents_round hround
    have hv := (round_eq_underway.mp hround).1
    refine ⟨⟨⟨root, ?_, hroot⟩, ?_⟩, ?_⟩
    · rw [hdocuments, List.head?_append, hhead]
      rfl
    · rw [hdocuments, List.isChain_append]
      refine ⟨hchain, List.isChain_singleton _, ?_⟩
      intro a ha b hb
      have hlast : a = w.document := by simpa using ha.symm
      have hnext : b = w'.document := by simpa using hb.symm
      rwa [hlast, hnext]
    · rw [ids, hdocuments, List.map_append]
      exact List.nodup_append'.mpr ⟨hnodup, List.nodup_singleton _, by simpa [ids] using hv⟩

theorem exists_underway {visited : List Document} {last : Document}
    (h : i.IsLine name (visited ++ [last])) (hnodup : (visited.map (·.id)).Nodup) :
    ∃ n w, (Progress.next i)^[n] (start i name) = .underway w ∧ w.documents = visited ∧
      w.document = last := by
  induction visited using List.reverseRecOn generalizing last with
  | nil =>
    obtain ⟨⟨root, hhead, hroot⟩, _⟩ := h
    cases hhead
    exact ⟨0, ⟨[], last⟩, by rw [Function.iterate_zero_apply, start, hroot], rfl, rfl⟩
  | append_singleton visited before ih =>
    obtain ⟨⟨root, hhead, hroot⟩, hchain⟩ := h
    rw [List.map_append, List.nodup_append'] at hnodup
    rw [List.append_assoc, List.singleton_append, List.isChain_append_cons_cons] at hchain
    have hline : i.IsLine name (visited ++ [before]) :=
      ⟨⟨root, by simpa [List.head?_append] using hhead, hroot⟩, hchain.1⟩
    obtain ⟨n, w, hn, rfl, rfl⟩ := ih hline hnodup.1
    have hv : w.document.id ∉ w.ids := by
      intro hmem
      exact hnodup.2.2 hmem (by simp)
    obtain ⟨w', hround, rfl⟩ := exists_round hv hchain.2.1
    refine ⟨n + 1, w', ?_, (documents_round hround).1, rfl⟩
    rw [Function.iterate_succ_apply', hn, Progress.next, hround]

theorem round_eq_cycle {w : Walk} {ids : List Text} :
    w.round i = .ended (.error (.cycle ids)) ↔
      (w.document.id ∈ w.ids ∧ ids = w.ids ++ [w.document.id]) ∨
      (w.document.id ∉ w.ids ∧
        i.registry.parse w.document.text w.document.id = .error (.cycle ids)) := by
  rw [round]
  by_cases hv : w.document.id ∈ w.ids
  · simp [hv, eq_comm]
  · rw [if_neg hv]
    constructor
    · intro h
      right
      refine ⟨hv, ?_⟩
      split at h
      · rename_i e he
        cases h
        exact he
      · cases h
      · split at h
        · cases h
        · split at h <;> cases h
        · cases h
      · cases h
    · rintro (⟨hmem, _⟩ | ⟨_, he⟩)
      · exact absurd hmem hv
      · rw [he]

theorem start_ne_cycle (ids : List Text) : start i name ≠ .ended (.error (.cycle ids)) := by
  intro h
  rw [start] at h
  split at h <;> cases h

theorem load_eq_cycle_iff {ids : List Text} :
    i.load name = some (.error (.cycle ids)) ↔ i.ComesBack name ids ∨ i.HookRaises name ids := by
  constructor
  · intro h
    obtain ⟨n, hn⟩ := load_eq_some_iff.mp h
    obtain ⟨m, w, hm, hround⟩ := (exists_last_round hn).resolve_left (start_ne_cycle ids)
    obtain ⟨hline, hnodup⟩ := isLine_of_underway hm
    rcases round_eq_cycle.mp hround with ⟨hv, rfl⟩ | ⟨hv, he⟩
    · exact .inl ⟨w.documents, w.document, hline, hnodup, hv, rfl⟩
    · refine .inr ⟨w.documents, w.document, hline, ?_, he⟩
      rw [List.map_append]
      exact List.nodup_append'.mpr ⟨hnodup, List.nodup_singleton _, by simpa [Walk.ids] using hv⟩
  · intro h
    have hround : ∃ n w, (Progress.next i)^[n] (start i name) = .underway w ∧
        w.round i = .ended (.error (.cycle ids)) := by
      rcases h with ⟨visited, back, hline, hnodup, hv, rfl⟩ | ⟨visited, last, hline, hnodup, he⟩
      · obtain ⟨n, w, hn, rfl, rfl⟩ := exists_underway hline hnodup
        exact ⟨n, w, hn, round_eq_cycle.mpr (.inl ⟨hv, rfl⟩)⟩
      · rw [List.map_append, List.nodup_append'] at hnodup
        obtain ⟨n, w, hn, rfl, rfl⟩ := exists_underway hline hnodup.1
        refine ⟨n, w, hn, round_eq_cycle.mpr (.inr ⟨?_, he⟩)⟩
        exact fun hmem => hnodup.2.2 hmem (by simp)
    obtain ⟨n, w, hn, hround⟩ := hround
    refine load_eq_some_iff.mpr ⟨n + 1, ?_⟩
    rw [Function.iterate_succ_apply', hn, Progress.next, hround]

end Walk

open Walk

/-- Where documents have finitely many identities, loading ends with an answer after it has
asked for at most one document more than there are identities, and the answer hangs on nothing
else of the source. The answer is a cycle exactly if the walk from the root comes back to a
document that it has passed, before any other fault; the cycle is the documents passed and the
one that came again. A hook might still raise a cycle of its own making. -/
theorem Inheritance.load_ends (i : Inheritance) (ids : Finset Text)
    (hids : ∀ name referrer document, i.read name referrer = .ok document → document.id ∈ ids)
    (name : Text) :
    (∃ answer asked, i.load name = some answer ∧ i.asked name = some asked ∧
      asked.length ≤ ids.card + 1 ∧
      ∀ read : Reading, (∀ q ∈ asked, read q.1 q.2 = i.read q.1 q.2) →
        Inheritance.load ⟨read, i.registry⟩ name = some answer) ∧
    (∀ cycle, i.load name = some (.error (.cycle cycle)) ↔
      i.ComesBack name cycle ∨ i.HookRaises name cycle) ∧
    ((∀ hook ∈ i.registry.hooks, hook.RaisesNoCycle) → ∀ cycle, ¬ i.HookRaises name cycle) := by
  refine ⟨?_, fun _ => load_eq_cycle_iff, ?_⟩
  · let l : Loader := ⟨⟨i.read, ids.toList, fun h => Finset.mem_toList.mpr (hids _ _ _ h)⟩, i.registry⟩
    obtain ⟨answer, hanswer⟩ := Option.isSome_iff_exists.mp (l.load_isSome name)
    change i.load name = some answer at hanswer
    obtain ⟨asked, hasked⟩ := exists_asked hanswer
    refine ⟨answer, asked, hanswer, hasked, length_asked_le hids hasked, ?_⟩
    intro read hagree
    rw [load_eq_of_agree hasked hagree, hanswer]
  · rintro hhooks cycle ⟨_, last, _, _, he⟩
    exact Registry.parse_noCycle hhooks last.text last.id cycle he

/-- The site and its navigation have a base, whose own base is the navigation. -/
theorem Inheritance.load_ends_nav :
    let site : Document := ⟨"site", "INHERIT: nav\nname: Docs"⟩
    let nav : Document := ⟨"nav", "INHERIT: base"⟩
    let base : Document := ⟨"base", "theme: dark\nINHERIT: nav"⟩
    let docs : Entries Text := [site, nav, base].map fun d => (d.id, d.text)
    let i : Inheritance := ⟨(Source.ofEntries docs).read, Registry.reading fun _ => none⟩
    (∀ name referrer document, i.read name referrer = .ok document →
      document.id ∈ docs.keys.toFinset) ∧
    (∃ asked, i.asked "site" = some asked ∧ asked.length ≤ 4) ∧
    i.load "site" = some (.error (.cycle ["site", "nav", "base", "nav"])) ∧
    (∀ hook ∈ i.registry.hooks, hook.RaisesNoCycle) ∧ ∀ cycle, ¬ i.HookRaises "site" cycle := by
  intro site nav base docs i
  have hids : ∀ name referrer document, i.read name referrer = .ok document →
      document.id ∈ docs.keys.toFinset := by
    intro name referrer document h
    have hread : (Source.ofEntries docs).read name referrer = .ok document := h
    exact List.mem_toFinset.mpr ((Source.ofEntries docs).mem_ids hread)
  have hhooks : ∀ hook ∈ i.registry.hooks, hook.RaisesNoCycle := by
    intro hook hhook
    obtain rfl := List.mem_singleton.mp hhook
    exact Environment.hook_raisesNoCycle _
  have hsite : i.registry.parse site.text site.id = .ok (.mapping _) :=
    Registry.parse_of_texts? [("INHERIT", "nav"), ("name", "Docs")] (by decide +kernel)
  have hnav : i.registry.parse nav.text nav.id = .ok (.mapping _) :=
    Registry.parse_of_texts? [("INHERIT", "base")] (by decide +kernel)
  have hbase : i.registry.parse base.text base.id = .ok (.mapping _) :=
    Registry.parse_of_texts? [("theme", "dark"), ("INHERIT", "nav")] (by decide +kernel)
  have hback : i.ComesBack "site" ["site", "nav", "base", "nav"] := by
    refine ⟨[site, nav, base], nav, ⟨⟨site, rfl, rfl⟩, ?_⟩, by decide, by decide, rfl⟩
    simp only [List.cons_append, List.nil_append, List.isChain_cons_cons, List.isChain_singleton,
      and_true]
    exact ⟨⟨_, "nav", hsite, rfl, rfl⟩, ⟨_, "base", hnav, rfl, rfl⟩, ⟨_, "nav", hbase, rfl, rfl⟩⟩
  obtain ⟨⟨_, asked, _, hasked, hlength, _⟩, hcycle, hraises⟩ := load_ends i _ hids "site"
  exact ⟨hids, ⟨asked, hasked, hlength⟩, (hcycle _).mpr (.inl hback), hhooks, hraises hhooks⟩

end StaticSite
