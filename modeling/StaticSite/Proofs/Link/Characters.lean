import StaticSite.Proofs.Link.Scheme

/-! The characters of rewritten links. The names of the page's own directory
that a target starts with are shared with the page, so they are not written,
and steps up and separators are all that rewriting adds. -/

namespace StaticSite

namespace SitePath

@[simp] theorem resolve_dropEnds (t : Text) :
    resolve (Text.dropEnds Text.isSlash t) = resolve t := by
  have hplace := congrArg Position.place (Position.walk_dropEnds ⟨0, []⟩ t)
  rwa [Position.place_walk, Position.place_walk] at hplace

/-- A walk keeps the first names of its place, and has the others from its segments. -/
theorem exists_walk_eq_take (place segments : List Text) :
    ∃ k names, walk place segments = place.take k ++ names ∧ ∀ s ∈ names, s ∈ segments := by
  induction segments generalizing place with
  | nil => exact ⟨place.length, [], by simp, by simp⟩
  | cons s segments ih =>
    obtain ⟨k, names, hwalk, hnames⟩ := ih (step place s)
    rw [← walk_cons] at hwalk
    have hlater : ∀ x ∈ names, x ∈ s :: segments := fun x hx => List.mem_cons_of_mem s (hnames x hx)
    by_cases hstay : s = [] ∨ s = "."
    · rw [step, if_pos hstay] at hwalk
      exact ⟨k, names, hwalk, hlater⟩
    · by_cases hup : s = ".."
      · rw [hup, step_up, List.dropLast_eq_take, List.take_take, ← hup] at hwalk
        exact ⟨_, names, hwalk, hlater⟩
      · rw [step, if_neg hstay, if_neg hup, List.take_append, List.append_assoc] at hwalk
        refine ⟨k, _, hwalk, ?_⟩
        intro x hx
        rcases List.mem_append.mp hx with hx | hx
        · obtain rfl := List.mem_singleton.mp (List.mem_of_mem_take hx)
          exact List.mem_cons_self
        · exact hlater x hx

theorem length_take_le_common (base names : List Text) (k : Nat) :
    (base.take k).length ≤ common base (base.take k ++ names) := by
  induction base generalizing k with
  | nil => simp
  | cons a base ih =>
    cases k with
    | zero => simp
    | succ k => simpa using ih k

theorem mem_between_take {base names : List Text} {k : Nat} {s : Text}
    (h : s ∈ between base (base.take k ++ names)) : s = ".." ∨ s ∈ names := by
  have hshared := length_take_le_common base names k
  rw [between, List.drop_append, List.drop_eq_nil_of_le hshared, List.nil_append] at h
  rcases List.mem_append.mp h with hup | hname
  · exact .inl (List.eq_of_mem_replicate hup)
  · exact .inr (List.mem_of_mem_drop hname)

theorem mem_relative {target page : Text} {c : Char} (h : c ∈ relative target page) :
    c = '.' ∨ c = '/' ∨ ∃ s ∈ between (resolve (directory page)) (resolve target), c ∈ s := by
  rw [relative_eq] at h
  rcases List.mem_append.mp h with h | h
  · rcases Text.mem_joinWith h with hsep | ⟨s, hs, hc⟩
    · exact .inr (.inl hsep)
    · rw [written] at hs
      split at hs
      · rw [List.mem_singleton.mp hs] at hc
        exact .inl (List.mem_singleton.mp hc)
      · exact .inr (.inr ⟨s, hs, hc⟩)
  · split at h
    · exact .inr (.inl (List.mem_singleton.mp h))
    · cases h

end SitePath

namespace Link

open SitePath

theorem target_eq_or (page : Placement) (base : LinkBase) (path : Text) :
    target page base path = path ∨
      target page base path = Text.dropEnds Text.isSlash page.directory ++ '/' :: path := by
  by_cases hdoc : base = .document ∧ ¬ path.startsWith "/"
  · by_cases hroot : Text.dropEnds Text.isSlash page.directory = []
    · exact .inl (by simp only [target, if_pos hdoc, if_pos hroot])
    · right
      simp only [target, if_pos hdoc, if_neg hroot]
      simp
  · exact .inl (by simp only [target, if_neg hdoc])

/-- On a page that its URL places, the names of a target that are not those of the path are the
first names of the page's directory. -/
theorem exists_resolve_target (url : Text) (base : LinkBase) (path : Text) :
    ∃ k names, resolve (target { url := url } base path) =
        (resolve (directory url)).take k ++ names ∧
      ∀ s ∈ names, s ∈ Text.splitOn '/' path := by
  rcases target_eq_or { url := url } base path with hpath | hjoin
  · obtain ⟨k, names, hwalk, hnames⟩ := exists_walk_eq_take [] (Text.splitOn '/' path)
    exact ⟨0, names, by simpa [hpath, resolve] using hwalk, hnames⟩
  · rw [hjoin, resolve_append_slash, resolve_dropEnds]
    exact exists_walk_eq_take _ _

theorem mem_climbing {levels : Nat} {relative : Text} {c : Char} (h : c ∈ climbing levels relative) :
    c ∈ relative ∨ c = '.' ∨ c = '/' := by
  have hups : ∀ n, c ∈ (List.replicate n ("../" : Text)).flatten → c = '.' ∨ c = '/' := by
    intro n hc
    obtain ⟨up, hup, hc⟩ := List.mem_flatten.mp hc
    rw [List.eq_of_mem_replicate hup] at hc
    simpa using hc
  rw [climbing] at h
  split at h
  · exact .inl h
  · split at h
    · rcases List.mem_append.mp h with h | h
      · exact .inr (hups _ h)
      · exact .inr (.inl (by simpa using h))
    · split at h
      · exact .inr (hups _ h)
      · rcases List.mem_append.mp h with h | h
        · exact .inr (hups _ h)
        · exact .inl h

theorem mem_pathOn {url path : Text} {base : LinkBase} {c : Char}
    (h : c ∈ pathOn { url := url } (target { url := url } base path)) :
    c ∈ path ∨ c = '.' ∨ c = '/' := by
  obtain ⟨k, names, hresolve, hnames⟩ := exists_resolve_target url base path
  rcases mem_climbing h with h | h
  · rcases mem_relative h with hdot | hslash | ⟨s, hs, hc⟩
    · exact .inr (.inl hdot)
    · exact .inr (.inr hslash)
    · rw [hresolve] at hs
      rcases mem_between_take hs with rfl | hs
      · exact .inr (.inl (by simpa using hc))
      · exact .inl (Text.mem_of_mem_splitOn (hnames s hs) hc)
  · exact .inr h

/-- Rewriting on a page that its URL places adds no characters but dots and slashes. -/
theorem mem_onPage {url link : Text} {base : LinkBase} {c : Char}
    (h : c ∈ onPage { url := url } base link) : c ∈ link ∨ c = '.' ∨ c = '/' := by
  cases hlink : ofText? link with
  | none =>
    rw [onPage_of_none hlink] at h
    exact .inl h
  | some parts =>
    obtain ⟨path, suffix⟩ := parts
    obtain ⟨_, _, hpath, hsuffix⟩ := ofText?_eq_some_iff.mp hlink
    rw [onPage_eq hlink] at h
    rcases List.mem_append.mp h with h | h
    · rcases mem_pathOn h with h | h
      · rw [hpath] at h
        obtain ⟨d, hd, rfl⟩ := List.mem_map.mp h
        rw [slashed]
        split
        · exact .inr (.inr rfl)
        · exact .inl ((List.takeWhile_sublist _).subset hd)
      · exact .inr h
    · rw [hsuffix] at h
      exact .inl ((List.dropWhile_sublist _).subset h)

@[simp] theorem pathOn_ne_nil (page : Placement) (target : Text) : pathOn page target ≠ [] := by
  have hclimb : ∀ levels, climbing levels (relative target page.url) ≠ [] := by
    intro levels
    by_cases hzero : levels = 0
    · rw [climbing, if_pos hzero]
      exact relative_ne_nil target page.url
    · obtain ⟨t, ht⟩ := climbing_head hzero (relative target page.url)
      simp [ht]
  exact hclimb _

theorem onPage_eq_nil_iff {page : Placement} {base : LinkBase} {link : Text} :
    onPage page base link = [] ↔ link = [] := by
  cases hlink : ofText? link with
  | none => rw [onPage_of_none hlink]
  | some parts =>
    obtain ⟨path, suffix⟩ := parts
    obtain ⟨⟨hne, _⟩, _⟩ := ofText?_eq_some_iff.mp hlink
    simp [onPage_eq hlink, hne]

end Link

end StaticSite
