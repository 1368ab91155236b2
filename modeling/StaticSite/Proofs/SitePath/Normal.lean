import StaticSite.Proofs.SitePath.Relative

/-! Normalized paths. They lead where the path leads, and their fields are
the names of that place, with an empty one for a directory. A relative spelling
behind the page's directory is the target again. -/

namespace StaticSite.SitePath

theorem normalize_congr {a b : Text} (hr : resolve a = resolve b)
    (he : a.endsWith "/" = true ↔ b.endsWith "/" = true) : normalize a = normalize b := by
  simp only [normalize, hr, he]

theorem joinWith_place_eq_nil_iff {place : List Text} (h : IsPlace place) :
    Text.joinWith '/' place = [] ↔ place = [] :=
  Text.joinWith_eq_nil_iff fun f hf => (h f hf).ne_nil

theorem normalize_eq (path : Text) :
    normalize path = Text.joinWith '/' (resolve path) ++
      (if path.endsWith "/" ∧ resolve path ≠ [] then ['/'] else []) := by
  have hnil := joinWith_place_eq_nil_iff (resolve_isPlace path)
  by_cases h : path.endsWith "/" ∧ resolve path ≠ []
  · simp only [normalize, Ne, hnil, if_pos h]
    rfl
  · simp only [normalize, Ne, hnil, if_neg h, List.append_nil]

theorem normalize_of_root {path : Text} (h : resolve path = []) : normalize path = [] := by
  simp [normalize_eq, h]

theorem splitOn_normalize {path : Text} (h : resolve path ≠ []) :
    Text.splitOn '/' (normalize path) =
      resolve path ++ (if path.endsWith "/" then [[]] else []) := by
  have hsplit : Text.splitOn '/' (Text.joinWith '/' (resolve path)) = resolve path :=
    Text.splitOn_joinWith h fun f hf => (resolve_isPlace path f hf).no_slash
  rw [normalize_eq]
  by_cases hdir : path.endsWith "/" = true
  · rw [if_pos ⟨hdir, h⟩, if_pos hdir, Text.splitOn_append_cons, hsplit, Text.splitOn_nil]
  · rw [if_neg fun hand => hdir hand.1, if_neg hdir, List.append_nil, List.append_nil, hsplit]

@[simp] theorem resolve_normalize (path : Text) : resolve (normalize path) = resolve path := by
  by_cases h : resolve path = []
  · rw [normalize_of_root h, h]
    rfl
  · have hnames := walk_names (resolve_isPlace path) []
    rw [resolve, splitOn_normalize h, walk_append, hnames, List.nil_append]
    by_cases hdir : path.endsWith "/" = true
    · rw [if_pos hdir, walk_cons, step_nil, walk_nil]
    · rw [if_neg hdir, walk_nil]

theorem endsWith_normalize (path : Text) :
    (normalize path).endsWith "/" = true ↔ path.endsWith "/" = true ∧ resolve path ≠ [] := by
  rw [normalize_eq]
  by_cases h : path.endsWith "/" = true ∧ resolve path ≠ []
  · rw [if_pos h]
    exact ⟨fun _ => h, fun _ => by simp⟩
  · have hlast := Text.not_endsWith_joinWith (resolve_isPlace path).fields
    rw [if_neg h, List.append_nil]
    exact ⟨fun hs => absurd hs hlast, fun hs => absurd hs h⟩

@[simp] theorem normalize_normalize (path : Text) :
    normalize (normalize path) = normalize path := by
  by_cases h : resolve path = []
  · rw [normalize_of_root h]
    rfl
  · apply normalize_congr (resolve_normalize path)
    rw [endsWith_normalize]
    exact ⟨fun hdir => hdir.1, fun hdir => ⟨hdir, h⟩⟩

theorem normalize_joinWith {place : List Text} (h : IsPlace place) :
    normalize (Text.joinWith '/' place) = Text.joinWith '/' place := by
  have hlast := Text.not_endsWith_joinWith h.fields
  rw [normalize_eq, resolve_joinWith h, if_neg fun hdir => hlast hdir.1, List.append_nil]

theorem normalize_joinWith_slash {place : List Text} (h : IsPlace place) (hne : place ≠ []) :
    normalize (Text.joinWith '/' place ++ ['/']) = Text.joinWith '/' place ++ ['/'] := by
  have hresolve : resolve (Text.joinWith '/' place ++ ['/']) = place := by
    simp [resolve_joinWith h]
  have hdir : (Text.joinWith '/' place ++ ['/']).endsWith "/" = true := by simp
  rw [normalize_eq, hresolve, if_pos ⟨hdir, hne⟩]

/-- Normal paths are names with slashes between them, and perhaps a slash at the end. -/
theorem normalize_eq_self_iff {path : Text} :
    normalize path = path ↔ ∃ place, IsPlace place ∧
      (path = Text.joinWith '/' place ∨ place ≠ [] ∧ path = Text.joinWith '/' place ++ ['/']) := by
  constructor
  · intro h
    refine ⟨resolve path, resolve_isPlace path, ?_⟩
    have heq := normalize_eq path
    rw [h] at heq
    by_cases hdir : path.endsWith "/" ∧ resolve path ≠ []
    · rw [if_pos hdir] at heq
      exact .inr ⟨hdir.2, heq⟩
    · rw [if_neg hdir, List.append_nil] at heq
      exact .inl heq
  · rintro ⟨place, hplace, rfl | ⟨hne, rfl⟩⟩
    · exact normalize_joinWith hplace
    · exact normalize_joinWith_slash hplace hne

/-- A path without the slash at its end, if it has one. -/
def withoutSlash (path : Text) : Text := if path.endsWith "/" then path.dropLast else path

/-- A relative path of names, with or without a slash at its end. The root is written as nothing. -/
structure IsCanonical (path : Text) : Prop where
  relative : ¬ path.startsWith "/"
  names : path ≠ [] → ∀ s ∈ Text.splitOn '/' (withoutSlash path), s ∉ ([[], ".", ".."] : List Text)

@[simp] theorem withoutSlash_append (t : Text) : withoutSlash (t ++ ['/']) = t := by
  have hdir : (t ++ ['/']).endsWith "/" = true := by simp
  rw [withoutSlash, if_pos hdir, List.dropLast_concat]

theorem withoutSlash_append_slash {path : Text} (h : path.endsWith "/" = true) :
    withoutSlash path ++ ['/'] = path := by
  obtain ⟨t, rfl⟩ := List.getLast?_eq_some_iff.mp ((Text.endsWith_slash path).mp h)
  rw [withoutSlash_append]

theorem isPlace_splitOn {t : Text}
    (h : ∀ s ∈ Text.splitOn '/' t, s ∉ ([[], ".", ".."] : List Text)) :
    IsPlace (Text.splitOn '/' t) :=
  fun s hs => (isName_iff (Text.not_mem_of_mem_splitOn hs)).mpr (h s hs)

theorem isCanonical_nil : IsCanonical [] := ⟨by decide, fun h => absurd rfl h⟩

theorem head?_append_slash {t : Text} (h : t ≠ []) : (t ++ ['/']).head? = t.head? := by
  obtain ⟨c, t, rfl⟩ := List.exists_cons_of_ne_nil h
  rfl

theorem isCanonical_of_place {place : List Text} (h : IsPlace place) (hne : place ≠ []) {path : Text}
    (hpath : path = Text.joinWith '/' place ∨ path = Text.joinWith '/' place ++ ['/']) :
    IsCanonical path := by
  have hfirst := Text.head?_joinWith_ne h.fields
  have hlast := Text.not_endsWith_joinWith h.fields
  have hbare : path.head? = (Text.joinWith '/' place).head? ∧
      withoutSlash path = Text.joinWith '/' place := by
    rcases hpath with rfl | rfl
    · exact ⟨rfl, if_neg hlast⟩
    · exact ⟨head?_append_slash ((joinWith_place_eq_nil_iff h).not.mpr hne), withoutSlash_append _⟩
  refine ⟨?_, ?_⟩
  · simpa [hbare.1] using hfirst
  · intro _ s hs
    rw [hbare.2, Text.splitOn_joinWith hne fun f hf => (h f hf).no_slash] at hs
    exact (isName_iff (h s hs).no_slash).mp (h s hs)

theorem isCanonical_iff {path : Text} :
    IsCanonical path ↔ ∃ place, IsPlace place ∧
      (path = Text.joinWith '/' place ∨ place ≠ [] ∧ path = Text.joinWith '/' place ++ ['/']) := by
  constructor
  · rintro ⟨_, hnames⟩
    by_cases hnil : path = []
    · exact ⟨[], by simp [IsPlace], .inl hnil⟩
    · refine ⟨_, isPlace_splitOn (hnames hnil), ?_⟩
      rw [Text.joinWith_splitOn]
      by_cases hdir : path.endsWith "/" = true
      · exact .inr ⟨Text.splitOn_ne_nil _ _, (withoutSlash_append_slash hdir).symm⟩
      · exact .inl (if_neg hdir).symm
  · rintro ⟨place, hplace, hpath⟩
    by_cases hne : place = []
    · subst hne
      obtain rfl : path = [] := by simpa using hpath
      exact isCanonical_nil
    · exact isCanonical_of_place hplace hne (hpath.imp_right And.right)

theorem isCanonical_normalize (path : Text) : IsCanonical (normalize path) :=
  isCanonical_iff.mpr (normalize_eq_self_iff.mp (normalize_normalize path))

/-- What is left of the first part of a path is all that matters for the second part. -/
theorem normalize_append_slash (a b : Text) :
    normalize (a ++ '/' :: b) = normalize (normalize a ++ '/' :: b) := by
  apply normalize_congr
  · simp
  · simp

/-- The root may be written as nothing or as a slash. -/
theorem resolve_slash_of_nil (path : Text) :
    resolve (if path = [] then "/" else path) = resolve path := by
  by_cases h : path = []
  · rw [if_pos h, h]
    rfl
  · rw [if_neg h]

theorem normalize_slash_of_nil (path : Text) :
    normalize (if path = [] then "/" else path) = normalize path := by
  by_cases h : path = []
  · rw [if_pos h, h]
    rfl
  · rw [if_neg h]

theorem resolve_directory_relative (target page : Text) :
    resolve (Text.joinWith '/' (resolve (directory page)) ++ '/' :: relative target page) =
      resolve target := by
  have hplace := Position.place_walk ⟨0, resolve (directory page)⟩
    (Text.splitOn '/' (relative target page))
  rw [walk_directory_relative] at hplace
  rw [resolve_append_slash, resolve_joinWith (resolve_isPlace (directory page))]
  exact hplace.symm

theorem normalize_directory_relative (target page : Text) :
    normalize (Text.joinWith '/' (resolve (directory page)) ++ '/' :: relative target page) =
      normalize target := by
  apply normalize_congr (resolve_directory_relative target page)
  obtain ⟨c, t, ht⟩ := List.exists_cons_of_ne_nil (relative_ne_nil target page)
  rw [← endsWith_relative target page, ht]
  simp

end StaticSite.SitePath
