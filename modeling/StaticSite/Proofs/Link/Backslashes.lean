import StaticSite.Proofs.Link.Scheme

/-! Links with backslashes. A path may be written with either separator. What
makes a link external is looked for in the link as it is written, and external
links are left as they are. -/

namespace StaticSite.Link

/-- A link with slashes for the backslashes of its path. -/
def withSlashes (link : Text) : Text :=
  (link.takeWhile (!isSuffixStart ·)).map slashed ++ link.dropWhile (!isSuffixStart ·)

theorem slashed_of_ne {c : Char} (h : c ≠ '\\') : slashed c = c := if_neg h

@[simp] theorem isSuffixStart_slashed (c : Char) : isSuffixStart (slashed c) = isSuffixStart c := by
  by_cases h : c = '\\'
  · rw [h]
    decide
  · rw [slashed_of_ne h]

@[simp] theorem slashed_slashed (c : Char) : slashed (slashed c) = slashed c := by
  by_cases h : c = '\\'
  · rw [h]
    decide
  · rw [slashed_of_ne h, slashed_of_ne h]

theorem eq_of_slashed_eq {c d : Char} (h : slashed c = d) (hd : d ≠ '/') : c = d := by
  by_cases hc : c = '\\'
  · rw [slashed, if_pos hc] at h
    exact absurd h.symm hd
  · rwa [slashed_of_ne hc] at h

theorem span_withSlashes (link : Text) :
    (withSlashes link).takeWhile (!isSuffixStart ·) =
        (link.takeWhile (!isSuffixStart ·)).map slashed ∧
      (withSlashes link).dropWhile (!isSuffixStart ·) = link.dropWhile (!isSuffixStart ·) := by
  obtain ⟨_, htake, hdrop⟩ := Text.span_iff.mp
    ⟨(rfl : link.takeWhile (!isSuffixStart ·) = _), rfl⟩
  refine Text.span_iff.mpr ⟨rfl, ?_, hdrop⟩
  intro c hc
  obtain ⟨d, hd, rfl⟩ := List.mem_map.mp hc
  rw [isSuffixStart_slashed]
  exact htake d hd

@[simp] theorem hasScheme_map_slashed (t : Text) :
    hasScheme (t.map slashed) = true ↔ hasScheme t = true := by
  rw [hasScheme_iff, hasScheme_iff]
  -- the characters up to the colon are no separators of either kind
  have hchars : ∀ {c : Char} {scheme : Text}, c.isAlpha = true →
      (∀ d ∈ scheme, isSchemeChar d = true) → '/' ∉ c :: scheme ∧ '\\' ∉ c :: scheme := by
    intro c scheme hc hscheme
    have hall : ∀ d ∈ c :: scheme, isSchemeChar d = true :=
      List.forall_mem_cons.mpr ⟨isSchemeChar_of_isAlpha hc, hscheme⟩
    exact ⟨fun h => absurd (hall _ h) (by decide), fun h => absurd (hall _ h) (by decide)⟩
  constructor
  · rintro ⟨c, scheme, rest, he, hc, hscheme⟩
    obtain ⟨s, r, rfl, hs, hr⟩ := List.map_eq_append_iff.mp he
    obtain ⟨colon, after, rfl, hcolon, rfl⟩ := List.map_eq_cons_iff.mp hr
    have hkept := map_slashed_of_no_slash (hs ▸ (hchars hc hscheme).1)
    exact ⟨c, scheme, after, by rw [← hs, hkept, eq_of_slashed_eq hcolon (by decide)], hc, hscheme⟩
  · rintro ⟨c, scheme, rest, rfl, hc, hscheme⟩
    refine ⟨c, scheme, rest.map slashed, ?_, hc, hscheme⟩
    rw [List.map_append, map_slashed_of_not_mem (hchars hc hscheme).2]
    rfl

@[simp] theorem hasScheme_withSlashes (link : Text) :
    hasScheme (withSlashes link) = true ↔ hasScheme link = true := by
  have hrest := endsSegment_dropWhile link
  rw [withSlashes, hasScheme_append hrest, hasScheme_map_slashed, ← hasScheme_append hrest,
    List.takeWhile_append_dropWhile]

theorem startsWith_withSlashes {link : Text} (h : link.startsWith "//" = true) :
    (withSlashes link).startsWith "//" = true := by
  obtain ⟨rest, rfl⟩ := List.isPrefixOf_iff_prefix.mp h
  rfl

theorem isExternal_withSlashes_iff (link : Text) :
    isExternal (withSlashes link) = true ↔
      (withSlashes link).startsWith "//" = true ∨ isExternal link = true := by
  rw [isExternal, isExternal, Bool.or_eq_true, Bool.or_eq_true, hasScheme_withSlashes]
  constructor
  · exact Or.imp_right .inr
  · rintro (h | h | h)
    · exact .inl h
    · exact .inl (startsWith_withSlashes h)
    · exact .inr h

theorem isExternal_of_withSlashes {link : Text} (h : isExternal (withSlashes link) = false) :
    isExternal link = false := by
  rw [← Bool.not_eq_true] at h ⊢
  exact fun hlink => h ((isExternal_withSlashes_iff link).mpr (.inr hlink))

theorem ofText?_withSlashes {link : Text} (h : isExternal (withSlashes link) = false) :
    ofText? (withSlashes link) = ofText? link := by
  obtain ⟨htake, hdrop⟩ := span_withSlashes link
  ext ⟨path, suffix⟩
  rw [ofText?_eq_some_iff_of_site h, ofText?_eq_some_iff_of_site (isExternal_of_withSlashes h),
    htake, hdrop, List.map_map, Ne, List.map_eq_nil_iff]
  have hagain : slashed ∘ slashed = slashed := funext slashed_slashed
  rw [hagain]

theorem withSlashes_of_none {link : Text} (hsite : isExternal link = false)
    (h : ofText? link = none) : withSlashes link = link := by
  have hpath : link.takeWhile (!isSuffixStart ·) = [] := by
    by_contra hne
    rw [(ofText?_eq_some_iff_of_site hsite).mpr ⟨hne, rfl, rfl⟩] at h
    cases h
  conv_rhs => rw [← List.takeWhile_append_dropWhile (p := (!isSuffixStart ·)) (l := link)]
  rw [withSlashes, hpath, List.map_nil]

theorem onPage_external {link : Text} (h : isExternal link = true) (page : Placement)
    (base : LinkBase) : onPage page base link = link :=
  onPage_of_none (by simp [ofText?, h])

/-- Backslashes of a path are another way to write its slashes, unless the link with slashes is
external: then it has a scheme, as the link with backslashes has too, or it starts with two
slashes. External links are left as they are, with their backslashes. -/
theorem onPage_withSlashes (page : Placement) (base : LinkBase) (link : Text) :
    (isExternal (withSlashes link) = true ↔
      (withSlashes link).startsWith "//" = true ∨ isExternal link = true) ∧
    (isExternal (withSlashes link) = false →
      onPage page base link = onPage page base (withSlashes link)) ∧
    (isExternal link = true → onPage page base link = link ∧
      onPage page base (withSlashes link) = withSlashes link) := by
  have hiff := isExternal_withSlashes_iff link
  refine ⟨hiff, ?_, ?_⟩
  · intro h
    have hparts := ofText?_withSlashes h
    cases hlink : ofText? link with
    | none => rw [withSlashes_of_none (isExternal_of_withSlashes h) hlink]
    | some parts => rw [onPage_eq hlink, onPage_eq (hparts.trans hlink)]
  · intro h
    exact ⟨onPage_external h page base, onPage_external (hiff.mpr (.inr h)) page base⟩

theorem onPage_withSlashes_logo :
    let page : Placement := { url := "guide/" }
    withSlashes "..\\img\\logo.png?a\\b" = "../img/logo.png?a\\b" ∧
      isExternal (withSlashes "..\\img\\logo.png?a\\b") = false ∧
      onPage page .document "..\\img\\logo.png?a\\b" =
        onPage page .document (withSlashes "..\\img\\logo.png?a\\b") ∧
      isExternal "C:\\img\\logo.png" = true ∧
      onPage page .document "C:\\img\\logo.png" = "C:\\img\\logo.png" := by
  intro page
  have hsite : isExternal (withSlashes "..\\img\\logo.png?a\\b") = false := by decide
  have hexternal : isExternal "C:\\img\\logo.png" = true := by decide
  exact ⟨by decide, hsite, (onPage_withSlashes page .document _).2.1 hsite, hexternal,
    ((onPage_withSlashes page .document _).2.2 hexternal).1⟩

/-- Links with a scheme keep their backslashes, and two backslashes at the start do not make a
link external as two slashes do. -/
theorem onPage_backslashes_kept :
    let page : Placement := { url := "guide/" }
    let logo : Text := "https:\\\\example.com\\logo.png"
    let lib : Text := "\\\\cdn\\lib.js"
    onPage page .siteRoot logo = logo ∧
      onPage page .siteRoot (withSlashes logo) = "https://example.com/logo.png" ∧
      onPage page .siteRoot logo ≠ onPage page .siteRoot (withSlashes logo) ∧
      onPage page .siteRoot lib = "../cdn/lib.js" ∧
      onPage page .siteRoot (withSlashes lib) = "//cdn/lib.js" ∧
      onPage page .siteRoot lib ≠ onPage page .siteRoot (withSlashes lib) := by
  decide

end StaticSite.Link
