import StaticSite.Proofs.Link.Characters

/-! Links that start from the page itself. Rewriting them keeps where they
lead, and a link that has been rewritten for a page is settled: it is such a
link, and rewriting it again changes nothing. -/

namespace StaticSite

namespace SitePath

theorem relative_congr {a b : Text} (hr : resolve a = resolve b)
    (he : a.endsWith "/" = true ↔ b.endsWith "/" = true) (page : Text) :
    relative a page = relative b page := by
  simp only [relative, hr, he]

end SitePath

namespace Link

open SitePath

theorem path_ne_nil {link path suffix : Text} (h : ofText? link = some ⟨path, suffix⟩) :
    path ≠ [] := by
  obtain ⟨_, hpath, rfl, _⟩ := ofText?_eq_some_iff.mp h
  simpa using hpath

theorem path_chars {link path suffix : Text} (h : ofText? link = some ⟨path, suffix⟩) :
    ∀ c ∈ path, isSuffixStart c = false ∧ c ≠ '\\' := by
  obtain ⟨_, _, rfl, _⟩ := ofText?_eq_some_iff.mp h
  have hall : (link.takeWhile (!isSuffixStart ·)).all (!isSuffixStart ·) = true := List.all_takeWhile
  intro c hc
  obtain ⟨d, hd, rfl⟩ := List.mem_map.mp hc
  have hplain := List.all_eq_true.mp hall d hd
  by_cases hback : d = '\\'
  · rw [slashed, if_pos hback]
    decide
  · rw [slashed, if_neg hback]
    exact ⟨by simpa using hplain, hback⟩

section

variable (url : Text) (base : LinkBase) {link path suffix : Text}

theorem pathOn_chars (h : ofText? link = some ⟨path, suffix⟩) :
    ∀ c ∈ pathOn { url := url } (target { url := url } base path),
      isSuffixStart c = false ∧ c ≠ '\\' := by
  intro c hc
  rcases mem_pathOn hc with hc | rfl | rfl
  · exact path_chars h c hc
  · decide
  · decide

/-- The path of a rewritten link ends where the suffix begins. -/
theorem span_onPage (h : ofText? link = some ⟨path, suffix⟩) :
    (onPage { url := url } base link).takeWhile (!isSuffixStart ·) =
        pathOn { url := url } (target { url := url } base path) ∧
      (onPage { url := url } base link).dropWhile (!isSuffixStart ·) = suffix := by
  refine Text.span_iff.mpr ⟨onPage_eq h, ?_, ?_⟩
  · intro c hc
    have hplain := (pathOn_chars url base h c hc).1
    simp [hplain]
  · intro c hc
    have hstart := suffix_head h c hc
    simp [hstart]

theorem ofText?_onPage (h : ofText? link = some ⟨path, suffix⟩)
    (hsite : isExternal (onPage { url := url } base link) = false) :
    ofText? (onPage { url := url } base link) =
      some ⟨pathOn { url := url } (target { url := url } base path), suffix⟩ := by
  have hchars := pathOn_chars url base h
  have hne := pathOn_ne_nil { url := url } (target { url := url } base path)
  obtain ⟨htake, hdrop⟩ := span_onPage url base h
  have hplain := map_slashed_of_not_mem fun hback => (hchars _ hback).2 rfl
  rw [ofText?_eq_some_iff_of_site hsite, htake, hdrop, hplain]
  exact ⟨hne, rfl, rfl⟩

theorem endsWith_target (page : Placement) (base : LinkBase) (hpath : path ≠ []) :
    (target page base path).endsWith "/" = true ↔ path.endsWith "/" = true := by
  obtain ⟨c, t, rfl⟩ := List.exists_cons_of_ne_nil hpath
  rcases target_eq_or page base (c :: t) with he | he
  · rw [he]
  · simp [he]

/-- From a directory within the site, a relative path leads where its target leads. -/
theorem follow_target (hdir : levelsAbove (directory url) = 0) (hrel : ¬ path.startsWith "/") :
    follow [] (target { url := url } .document path) = follow (resolve (directory url)) path := by
  have hbase := follow_root (directory url)
  have htrim := Position.walk_dropEnds ⟨0, []⟩ (directory url)
  rw [hdir, follow] at hbase
  rw [hbase] at htrim
  by_cases hroot : Text.dropEnds Text.isSlash (directory url) = []
  · have htarget : target { url := url } .document path = path := by
      simp only [target, hrel, hroot]
      simp
    rw [hroot] at htrim
    have hplace : [] = resolve (directory url) := congrArg Position.place htrim
    rw [htarget, ← hplace]
  · have htarget : target { url := url } .document path =
        Text.dropEnds Text.isSlash (directory url) ++ '/' :: path := by
      simp only [target, hrel, hroot]
      simp
    rw [htarget, follow, Text.splitOn_append_cons, Position.walk_append, htrim]
    rfl

theorem levelsAbove_target (hdir : levelsAbove (directory url) = 0)
    (hrel : ¬ path.startsWith "/") {above : Nat} {place : List Text}
    (h : follow (resolve (directory url)) path = ⟨above, place⟩) :
    levelsAbove (target { url := url } .document path) = above ∧
      resolve (target { url := url } .document path) = place := by
  have htarget := follow_target url hdir hrel
  rw [follow_root, h] at htarget
  exact ⟨congrArg Position.above htarget, congrArg Position.place htarget⟩

/-- What is written on a page for a destination is its own spelling there. -/
theorem pathOn_relative (hdir : levelsAbove (directory url) = 0) (destination : Text) :
    pathOn { url := url } (target { url := url } .document (relative destination url)) =
      relative destination url := by
  have hhead : ¬ (relative destination url).startsWith "/" := by
    simpa using head?_relative_ne destination url
  have hwalk := walk_directory_relative destination url
  obtain ⟨hlevels, hplace⟩ := levelsAbove_target url hdir hhead hwalk
  have hends := endsWith_target { url := url } .document (relative_ne_nil destination url)
  rw [pathOn_inside _ (.inr hlevels)]
  exact relative_congr hplace (hends.trans (endsWith_relative destination url)) url

/-- On a page whose directory is within the site, a relative link that stays within the site
leads where it led before, keeps its suffix, and stays one to a directory if it was; and every
link that stays within the site is written in such a way that it is not changed again. -/
theorem onPage_settles (hdir : levelsAbove (directory url) = 0) (link : Text) :
    let page : Placement := { url := url }
    (∀ path suffix, ofText? link = some ⟨path, suffix⟩ → ¬ path.startsWith "/" →
      levelsAbove (target page .document path) = 0 →
      ∃ q : Text, (onPage page .document link).takeWhile (!isSuffixStart ·) = q ∧
        (onPage page .document link).dropWhile (!isSuffixStart ·) = suffix ∧
        (q.endsWith "/" ↔ path.endsWith "/") ∧
        follow (resolve (directory url)) q = follow (resolve (directory url)) path) ∧
    ∀ base, (∀ path suffix, ofText? link = some ⟨path, suffix⟩ →
        (target page base path).startsWith "/" ∨ levelsAbove (target page base path) = 0) →
      onPage page .document (onPage page base link) = onPage page base link := by
  intro page
  constructor
  · intro path suffix hlink hrel hinside
    obtain ⟨htake, hdrop⟩ := span_onPage url .document hlink
    have hpath : pathOn page (target page .document path) =
        relative (target page .document path) url := pathOn_inside page (.inr hinside)
    refine ⟨_, htake, hdrop, ?_, ?_⟩
    · have hends := endsWith_target page .document (path_ne_nil hlink)
      rw [hpath]
      exact (endsWith_relative _ url).trans hends
    · have hroot := follow_root (target page .document path)
      rw [hinside, follow_target url hdir hrel] at hroot
      rw [hpath, hroot]
      exact walk_directory_relative _ url
  · intro base hinside
    cases hlink : ofText? link with
    | none =>
      rw [onPage_of_none hlink, onPage_of_none hlink]
    | some parts =>
      obtain ⟨path, suffix⟩ := parts
      by_cases hsite : isExternal (onPage page base link) = true
      · -- a link that became external is left as it is
        have hnone : ofText? (onPage page base link) = none := by
          simp [ofText?, hsite]
        exact onPage_of_none hnone
      · have hagain := ofText?_onPage url base hlink (Bool.not_eq_true _ ▸ hsite)
        have hpath : pathOn page (target page base path) =
            relative (target page base path) url := pathOn_inside page (hinside path suffix hlink)
        rw [onPage_eq hagain, onPage_eq hlink, hpath]
        exact congrArg (· ++ suffix) (pathOn_relative url hdir _)

end

/-- A page below a name with a dot, a link with a backslash, and one that is written as a scheme. -/
theorem onPage_settles_version :
    let page : Placement := { url := "guide//v1.0/" }
    levelsAbove (directory page.url) = 0 ∧
      ofText? "..\\faq/./?v=2#top" = some ⟨"../faq/./", "?v=2#top"⟩ ∧
      ¬ Text.startsWith "../faq/./" "/" ∧ levelsAbove (target page .document "../faq/./") = 0 ∧
      (∃ q : Text, (onPage page .document "..\\faq/./?v=2#top").takeWhile (!isSuffixStart ·) = q ∧
        q.endsWith "/" ∧ follow (resolve (directory page.url)) q = ⟨0, ["guide", "faq"]⟩) ∧
      ofText? "/guide/v1.0/chapter:1.html" = some ⟨"/guide/v1.0/chapter:1.html", []⟩ ∧
      isExternal (onPage page .siteRoot "/guide/v1.0/chapter:1.html") = true ∧
      onPage page .document (onPage page .siteRoot "/guide/v1.0/chapter:1.html") =
        onPage page .siteRoot "/guide/v1.0/chapter:1.html" := by
  intro page
  have hdir : levelsAbove (directory page.url) = 0 := by decide
  have hfaq : ofText? "..\\faq/./?v=2#top" = some ⟨"../faq/./", "?v=2#top"⟩ := rfl
  have hrel : ¬ Text.startsWith "../faq/./" "/" := by decide
  have hinside : levelsAbove (target page .document "../faq/./") = 0 := by decide
  have hchapter : ofText? "/guide/v1.0/chapter:1.html" =
      some ⟨"/guide/v1.0/chapter:1.html", []⟩ := rfl
  obtain ⟨q, hq, _, hends, hfollow⟩ := (onPage_settles page.url hdir _).1 _ _ hfaq hrel hinside
  have hsettled := (onPage_settles page.url hdir "/guide/v1.0/chapter:1.html").2 .siteRoot
  refine ⟨hdir, hfaq, hrel, hinside, ⟨q, hq, hends.mpr (by decide), ?_⟩, hchapter, by decide, ?_⟩
  · rw [hfollow]
    decide
  · apply hsettled
    intro path suffix hlink
    obtain ⟨rfl, rfl⟩ := Link.mk.inj (Option.some.inj (hchapter.symm.trans hlink))
    exact .inl rfl

end Link

end StaticSite
