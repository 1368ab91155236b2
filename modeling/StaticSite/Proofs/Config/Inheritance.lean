import Mathlib.Logic.Function.Iterate
import StaticSite.Config.Loader
import StaticSite.Proofs.Config.Merge
import StaticSite.Proofs.Config.Texts

/-! Loading as a walk. The walk goes from document to parent and keeps what
each document says itself; where it ends without a fault, these are merged
from the oldest ancestor down. Recursive loading gives the same answers. -/

namespace StaticSite

/-- The documents that a walk along the parents has passed, each with what it says itself, the
last one first, and the document that it has come to. -/
structure Walk where
  passed : List (Document × Config)
  document : Document

namespace Walk

inductive Progress where
  | underway (walk : Walk)
  | ended (answer : Except ConfigError Config)

def documents (w : Walk) : List Document := (w.passed.map (·.1)).reverse

def ids (w : Walk) : List Text := w.documents.map (·.id)

/-- What the documents passed make of the configuration of an ancestor, the oldest of them first. -/
def overriding (w : Walk) (ancestor : Config) : Config :=
  w.passed.foldl (fun above passed => above.merge passed.2) ancestor

/-- One round of the walk, up to the first fault. -/
def round (i : Inheritance) (w : Walk) : Progress :=
  if w.document.id ∈ w.ids then .ended (.error (.cycle (w.ids ++ [w.document.id])))
  else match i.registry.parse w.document.text w.document.id with
    | .error e => .ended (.error e)
    | .ok .null => .ended (.ok (w.overriding []))
    | .ok (.mapping config) => match Entries.get? ConfigError.parentKey config with
      | none => .ended (.ok (w.overriding config))
      | some (.string name) => match i.read name (some w.document.id) with
        | .ok parent =>
          .underway ⟨(w.document, Entries.erase config ConfigError.parentKey) :: w.passed, parent⟩
        | .error (.notFound _) => .ended (.error (.parentNotFound name w.document.id))
        | .error (.unset _ unset) =>
          .ended (.error (.variableUnset (ConfigError.parentKey ++ " in " ++ w.document.id) unset))
        | .error (.file fault) => .ended (.error (.file fault))
      | some _ => .ended (.error (.parentNotText w.document.id))
    | .ok _ => .ended (.error (.notMapping w.document.id))

def start (i : Inheritance) (name : Text) : Progress :=
  match i.read name none with
  | .ok root => .underway ⟨[], root⟩
  | .error (.notFound _) => .ended (.error (.notFound name))
  | .error (.unset _ unset) => .ended (.error (.variableUnset name unset))
  | .error (.file fault) => .ended (.error (.file fault))

def Progress.next (i : Inheritance) : Progress → Progress
  | underway w => w.round i
  | ended answer => ended answer

def answer (i : Inheritance) (w : Walk) : Option (Except ConfigError Config) :=
  (i.loadBelow w.ids w.document (some w.document.id)).map (·.map w.overriding)

def Progress.answer (i : Inheritance) : Progress → Option (Except ConfigError Config)
  | underway w => w.answer i
  | ended answer => some answer

@[simp] theorem ids_passed (w : Walk) (config : Config) (parent : Document) :
    ids ⟨(w.document, config) :: w.passed, parent⟩ = w.ids ++ [w.document.id] := by
  simp [ids, documents]

@[simp] theorem overriding_passed (w : Walk) (config : Config) (parent : Document) :
    overriding ⟨(w.document, config) :: w.passed, parent⟩ =
      fun above => w.overriding (above.merge config) := rfl

theorem map_overriding (w : Walk) (own : Config) (r : Except ConfigError Config) :
    (r.map (Config.merge · own)).map w.overriding =
      r.map fun above => w.overriding (above.merge own) := by
  cases r with
  | error e => rfl
  | ok above => rfl

/-- A round keeps the answer that loading gives from here on. -/
theorem answer_round (i : Inheritance) (w : Walk) : (w.round i).answer i = w.answer i := by
  rw [answer, Inheritance.loadBelow, round]
  by_cases hv : w.document.id ∈ w.ids
  · simp [hv, Progress.answer, Except.map]
  · rw [if_neg hv, if_neg hv, Inheritance.own]
    cases i.registry.parse w.document.text w.document.id with
    | error e => rfl
    | ok v =>
      cases v with
      | mapping config =>
        dsimp only
        cases Entries.get? ConfigError.parentKey config with
        | none => rfl
        | some named =>
          cases named with
          | string name =>
            dsimp only
            cases i.read name (some w.document.id) with
            | error e => cases e <;> rfl
            | ok parent =>
              simp only [Progress.answer, answer, ids_passed, overriding_passed]
              cases i.loadBelow (w.ids ++ [w.document.id]) parent (some parent.id) with
              | none => rfl
              | some r => exact congrArg some (w.map_overriding _ r).symm
          | _ => rfl
      | _ => rfl

theorem answer_start (i : Inheritance) (name : Text) : (start i name).answer i = i.load name := by
  rw [start, Inheritance.load]
  cases i.read name none with
  | error e => cases e <;> rfl
  | ok root =>
    change (i.loadBelow [] root (some root.id)).map (·.map fun config => config) =
      i.loadBelow [] root (some root.id)
    cases i.loadBelow [] root (some root.id) with
    | none => rfl
    | some r => cases r <;> rfl

theorem answer_iterate (i : Inheritance) (n : Nat) (p : Progress) :
    ((Progress.next i)^[n] p).answer i = p.answer i := by
  induction n generalizing p with
  | zero => rfl
  | succ n ih =>
    rw [Function.iterate_succ_apply, ih]
    cases p with
    | underway w => exact answer_round i w
    | ended answer => rfl

theorem round_eq_underway {i : Inheritance} {w w' : Walk} :
    w.round i = .underway w' ↔ w.document.id ∉ w.ids ∧ ∃ config name,
      i.registry.parse w.document.text w.document.id = .ok (.mapping config) ∧
      Entries.get? ConfigError.parentKey config = some (.string name) ∧
      i.read name (some w.document.id) = .ok w'.document ∧
      w'.passed = (w.document, Entries.erase config ConfigError.parentKey) :: w.passed := by
  constructor
  · intro h
    rw [round] at h
    by_cases hv : w.document.id ∈ w.ids
    · rw [if_pos hv] at h
      cases h
    · rw [if_neg hv] at h
      refine ⟨hv, ?_⟩
      split at h
      · cases h
      · cases h
      · rename_i config hconfig
        split at h
        · cases h
        · rename_i name hname
          split at h
          · rename_i parent hparent
            cases h
            exact ⟨config, name, hconfig, hname, hparent, rfl⟩
          · cases h
          · cases h
          · cases h
        · cases h
      · cases h
  · rintro ⟨hv, config, name, hconfig, hname, hparent, hpassed⟩
    obtain ⟨passed, document⟩ := w'
    cases hpassed
    simp only [round, if_neg hv, hconfig, hname, hparent]

theorem exists_ended {i : Inheritance} {visited : List Text} {document : Document}
    {referrer : Option Text} {r : Except ConfigError Config}
    (h : i.loadBelow visited document referrer = some r) :
    ∀ w : Walk, w.ids = visited → w.document = document → referrer = some document.id →
      ∃ n answer, (Progress.next i)^[n] (.underway w) = .ended answer := by
  refine Inheritance.loadBelow.partial_correctness i (fun visited document referrer _ => ∀ w : Walk,
    w.ids = visited → w.document = document → referrer = some document.id →
      ∃ n answer, (Progress.next i)^[n] (.underway w) = .ended answer) ?_ visited document referrer r h
  clear h visited document referrer r
  rintro loadBelow ih _ _ _ r hr w rfl rfl rfl
  cases hround : w.round i with
  | ended answer => exact ⟨1, answer, hround⟩
  | underway w' =>
    obtain ⟨hv, config, name, hconfig, hname, hparent, hpassed⟩ := round_eq_underway.mp hround
    have hown : i.own w.document = .ok config := by rw [Inheritance.own, hconfig]
    simp only [if_neg hv, hown, hname, hparent] at hr
    obtain ⟨above, habove, _⟩ := Option.bind_eq_some_iff.mp hr
    have hids : w'.ids = w.ids ++ [w.document.id] := by simp [ids, documents, hpassed]
    obtain ⟨n, answer, hn⟩ := ih _ _ _ _ habove w' hids rfl rfl
    exact ⟨n + 1, answer, by rw [Function.iterate_succ_apply, Progress.next, hround, hn]⟩

theorem load_eq_some_iff {i : Inheritance} {name : Text} {answer : Except ConfigError Config} :
    i.load name = some answer ↔ ∃ n, (Progress.next i)^[n] (start i name) = .ended answer := by
  constructor
  · intro h
    have hanswer := (answer_start i name).trans h
    cases hs : start i name with
    | ended a =>
      rw [hs] at hanswer
      exact ⟨0, congrArg Progress.ended (Option.some.inj hanswer)⟩
    | underway w =>
      rw [hs] at hanswer
      obtain ⟨r, hr, _⟩ := Option.map_eq_some_iff.mp hanswer
      obtain ⟨n, a, hn⟩ := exists_ended hr w rfl rfl rfl
      have ha := answer_iterate i n (.underway w)
      rw [hn, hanswer] at ha
      exact ⟨n, by rw [hn, Option.some.inj ha]⟩
  · rintro ⟨n, hn⟩
    rw [← answer_start, ← answer_iterate i n, hn]
    rfl

/-- What holds where the walk starts, and after each round from where it held before, holds
wherever the walk comes. -/
theorem underway_induction {i : Inheritance} {name : Text} {P : Walk → Prop}
    (hroot : ∀ root, i.read name none = .ok root → P ⟨[], root⟩)
    (hround : ∀ w w', P w → w.round i = .underway w' → P w') {n : Nat} {w : Walk}
    (h : (Progress.next i)^[n] (start i name) = .underway w) : P w := by
  induction n generalizing w with
  | zero =>
    rw [Function.iterate_zero_apply, start] at h
    split at h
    · rename_i root hr
      cases h
      exact hroot root hr
    · cases h
    · cases h
    · cases h
  | succ n ih =>
    rw [Function.iterate_succ_apply'] at h
    cases hp : (Progress.next i)^[n] (start i name) with
    | ended answer =>
      rw [hp] at h
      cases h
    | underway w₀ =>
      rw [hp] at h
      exact hround w₀ w (ih hp) h

/-- A walk that has ended has done so at a document, if it did not fail to find its root. -/
theorem exists_last_round {i : Inheritance} {n : Nat} {p : Progress}
    {answer : Except ConfigError Config} (h : (Progress.next i)^[n] p = .ended answer) :
    p = .ended answer ∨
      ∃ m w, (Progress.next i)^[m] p = .underway w ∧ w.round i = .ended answer := by
  induction n generalizing p with
  | zero => exact .inl h
  | succ n ih =>
    cases p with
    | ended a =>
      rw [Function.iterate_succ_apply] at h
      rcases ih h with hp | ⟨m, w, hm, hw⟩
      · exact .inl hp
      · exact .inr ⟨m, w, hm, hw⟩
    | underway w =>
      rw [Function.iterate_succ_apply] at h
      rcases ih h with hp | ⟨m, w', hm, hw⟩
      · exact .inr ⟨0, w, rfl, hp⟩
      · exact .inr ⟨m + 1, w', by rwa [Function.iterate_succ_apply], hw⟩

theorem round_eq_ok {i : Inheritance} {w : Walk} {config : Config}
    (h : w.round i = .ended (.ok config)) : ∃ oldest,
      i.own w.document = .ok oldest ∧ Entries.get? ConfigError.parentKey oldest = none ∧
      config = w.overriding oldest := by
  rw [round] at h
  by_cases hv : w.document.id ∈ w.ids
  · rw [if_pos hv] at h
    cases h
  · rw [if_neg hv] at h
    split at h
    · cases h
    · rename_i hnull
      cases h
      exact ⟨[], by rw [Inheritance.own, hnull], rfl, rfl⟩
    · rename_i oldest hconfig
      split at h
      · rename_i hname
        cases h
        exact ⟨oldest, by rw [Inheritance.own, hconfig], hname, rfl⟩
      · split at h <;> cases h
      · cases h
    · cases h

theorem get?_overriding {w : Walk} {ancestor : Config} {key : Text}
    (hancestor : Entries.get? key ancestor = none)
    (hpassed : ∀ p ∈ w.passed, Entries.get? key p.2 = none) :
    Entries.get? key (w.overriding ancestor) = none := by
  obtain ⟨passed, document⟩ := w
  induction passed generalizing ancestor with
  | nil => exact hancestor
  | cons p passed ih =>
    apply ih
    · simp [hancestor, hpassed p List.mem_cons_self]
    · exact fun q hq => hpassed q (List.mem_cons_of_mem p hq)

theorem keys_overriding (w : Walk) (ancestor : Config) :
    (w.overriding ancestor).keys = w.passed.foldl
      (fun keys passed => keys ++ passed.2.keys.filter (· ∉ keys)) ancestor.keys := by
  obtain ⟨passed, document⟩ := w
  induction passed generalizing ancestor with
  | nil => rfl
  | cons p passed ih =>
    rw [List.foldl_cons, ← Config.keys_merge]
    exact ih (ancestor.merge p.2)

theorem get?_passed {i : Inheritance} {name : Text} {n : Nat} {w : Walk}
    (h : (Progress.next i)^[n] (start i name) = .underway w) :
    ∀ p ∈ w.passed, Entries.get? ConfigError.parentKey p.2 = none := by
  refine underway_induction
    (P := fun w => ∀ p ∈ w.passed, Entries.get? ConfigError.parentKey p.2 = none) ?_ ?_ h
  · intro root _ p hp
    cases hp
  · intro w w' hw hround p hp
    obtain ⟨_, config, _, _, _, _, hpassed⟩ := round_eq_underway.mp hround
    rw [hpassed] at hp
    rcases List.mem_cons.mp hp with rfl | hp
    · exact Entries.get?_erase_self config _
    · exact hw p hp

end Walk

open Walk

/-- Loading answers what the walk ends with, and has no answer exactly if the walk never ends.
A configuration comes from a walk to the oldest ancestor: it is the ancestor's own, overridden
by every document passed on the way back to the root. It names no parent, and its keys are those
of the oldest ancestor, followed at every younger document by that document's new ones. -/
theorem Inheritance.load_eq_walk (i : Inheritance) (name : Text) :
    (∀ answer, i.load name = some answer ↔
      ∃ n, (Progress.next i)^[n] (start i name) = .ended answer) ∧
    (∀ l : Loader, l.inheritance = i → i.load name = some (l.load name)) ∧
    ∀ config, i.load name = some (.ok config) →
      ∃ n w oldest, (Progress.next i)^[n] (start i name) = .underway w ∧
        i.own w.document = .ok oldest ∧ config = w.overriding oldest ∧
        Entries.get? ConfigError.parentKey config = none ∧
        config.keys = w.passed.foldl
          (fun keys passed => keys ++ passed.2.keys.filter (· ∉ keys)) oldest.keys := by
  refine ⟨fun _ => load_eq_some_iff, ?_, ?_⟩
  · rintro l rfl
    exact (Option.some_get _).symm
  intro config h
  obtain ⟨n, hn⟩ := load_eq_some_iff.mp h
  rcases exists_last_round hn with hstart | ⟨m, w, hm, hround⟩
  · rw [start] at hstart
    split at hstart <;> cases hstart
  · obtain ⟨oldest, hown, hkey, rfl⟩ := round_eq_ok hround
    exact ⟨m, w, oldest, hm, hown, rfl, get?_overriding hkey (get?_passed hm),
      keys_overriding w oldest⟩

theorem Inheritance.load_eq_walk_site :
    let org : Document := ⟨"org", "theme: light\ncopyright: Org"⟩
    let team : Document := ⟨"team", "INHERIT: org\ntheme: dark"⟩
    let site : Document := ⟨"site", "name: Docs\nINHERIT: team\ncopyright: Us"⟩
    let docs : Entries Text := [org, team, site].map fun d => (d.id, d.text)
    let i : Inheritance := ⟨(Source.ofEntries docs).read, Registry.empty⟩
    let config : Config :=
      [("theme", .string "dark"), ("copyright", .string "Us"), ("name", .string "Docs")]
    i.load "site" = some (.ok config) ∧
      ∃ n w oldest, (Progress.next i)^[n] (start i "site") = .underway w ∧
        i.own w.document = .ok oldest ∧ config = w.overriding oldest := by
  intro org team site docs i config
  let siteOwn : Config := [("name", .string "Docs"), ("copyright", .string "Us")]
  let teamOwn : Config := [("theme", .string "dark")]
  have hsite : i.registry.parse site.text site.id = .ok (.mapping _) :=
    Registry.parse_of_texts? [("name", "Docs"), ("INHERIT", "team"), ("copyright", "Us")]
      (by decide +kernel)
  have hteam : i.registry.parse team.text team.id = .ok (.mapping _) :=
    Registry.parse_of_texts? [("INHERIT", "org"), ("theme", "dark")] (by decide +kernel)
  have horg : i.registry.parse org.text org.id = .ok (.mapping _) :=
    Registry.parse_of_texts? [("theme", "light"), ("copyright", "Org")] (by decide +kernel)
  have hfirst : Walk.round i ⟨[], site⟩ = .underway ⟨[(site, siteOwn)], team⟩ :=
    round_eq_underway.mpr ⟨by decide, _, "team", hsite, rfl, rfl, rfl⟩
  have hsecond : Walk.round i ⟨[(site, siteOwn)], team⟩ =
      .underway ⟨[(team, teamOwn), (site, siteOwn)], org⟩ :=
    round_eq_underway.mpr ⟨by decide, _, "org", hteam, rfl, rfl, rfl⟩
  have hthird : Walk.round i ⟨[(team, teamOwn), (site, siteOwn)], org⟩ = .ended (.ok config) := by
    rw [Walk.round, if_neg (by decide), horg]
    rfl
  have hload : i.load "site" = some (.ok config) := by
    apply ((load_eq_walk i "site").1 (.ok config)).mpr
    refine ⟨3, ?_⟩
    change (Walk.round i ⟨[], site⟩ |>.next i |>.next i) = _
    rw [hfirst]
    change (Walk.round i ⟨[(site, siteOwn)], team⟩ |>.next i) = _
    rw [hsecond]
    exact hthird
  obtain ⟨n, w, oldest, hn, hown, hconfig, _⟩ := (load_eq_walk i "site").2.2 config hload
  exact ⟨hload, n, w, oldest, hn, hown, hconfig⟩

end StaticSite
