import StaticSite.Page.Basic
import StaticSite.Proofs.Link.Scheme
import StaticSite.Proofs.SitePath.Normal

/-! Links of pages as they are written at the pages' URLs: where they arrive,
and which of them read as links to another site. Links to sources never leave
the site, also those that mean a source outside of it. -/

namespace StaticSite.Page

open Link SitePath

theorem leadsToSource_eq {link path suffix : Text} (h : ofText? link = some ⟨path, suffix⟩) :
    leadsToSource link = isMarkdown path := by
  obtain ⟨_, _, rfl, _⟩ := ofText?_eq_some_iff.mp h
  rw [isMarkdown_map_slashed, leadsToSource]

theorem resolveLink_source {p : Page} {link path suffix : Text}
    (hlink : ofText? link = some ⟨path, suffix⟩) (hsource : leadsToSource link = true) :
    p.resolveLink link =
      relative (if SitePath.url (p.sourceOf path) p.style = [] then "/"
        else SitePath.url (p.sourceOf path) p.style) p.url ++ suffix := by
  simp only [resolveLink, hsource, if_true, hlink]

theorem resolveLink_other {p : Page} {link : Text} (h : ¬ leadsToSource link = true) :
    p.resolveLink link = onPage p.placement .document link := by
  rw [resolveLink, if_neg h]

theorem directory_ofFrontMatter (source : Text) (d : FrontMatter) (style : UrlStyle) :
    ∃ place, IsPlace place ∧ (ofFrontMatter source d style).directory = Text.joinWith '/' place := by
  cases hs : Text.splitLast? '/' (normalize source) with
  | none => exact ⟨[], by simp [IsPlace], by simp only [directory, ofFrontMatter, hs]; rfl⟩
  | some parts =>
    obtain ⟨dir, name⟩ := parts
    have hdir : (ofFrontMatter source d style).directory = dir := by
      simp only [directory, ofFrontMatter, hs]
    rw [hdir]
    obtain ⟨hpath, hname⟩ := Text.splitLast?_eq_some_iff.mp hs
    have hroot : resolve source ≠ [] := by
      intro he
      simp [normalize_of_root he] at hpath
    have hsplit := splitOn_normalize hroot
    rw [hpath, Text.splitOn_append_cons, Text.splitOn_of_not_mem hname] at hsplit
    refine ⟨Text.splitOn '/' dir, ?_, (Text.joinWith_splitOn '/' dir).symm⟩
    have hplace := resolve_isPlace source
    -- a trailing slash makes the name empty and the directory the whole place
    by_cases htrail : source.endsWith "/" = true
    · rw [if_pos htrail] at hsplit
      rw [List.append_inj_left' hsplit rfl]
      exact hplace
    · rw [if_neg htrail, List.append_nil] at hsplit
      rw [← hsplit] at hplace
      exact hplace.sublist (List.sublist_append_left _ _)

/-- A page reads the paths of its links from the same directory in both readings. -/
theorem target_placement (source : Text) (d : FrontMatter) (style : UrlStyle) (path : Text) :
    target (ofFrontMatter source d style).placement .document path =
      (ofFrontMatter source d style).sourceOf path := by
  obtain ⟨place, hplace, hdir⟩ := directory_ofFrontMatter source d style
  have htrim : Text.dropEnds Text.isSlash (ofFrontMatter source d style).directory =
      (ofFrontMatter source d style).directory := by
    rw [hdir]
    exact Text.dropEnds_isSlash (Text.head?_joinWith_ne hplace.fields)
      (Text.getLast?_joinWith_ne hplace.fields)
  by_cases hslash : path.startsWith "/" = true
  · rw [target, if_neg fun h => h.2 hslash, sourceOf, if_pos (.inl hslash)]
  · rw [target, if_pos ⟨rfl, hslash⟩]
    change (if Text.dropEnds Text.isSlash (ofFrontMatter source d style).directory = [] then path
      else Text.dropEnds Text.isSlash (ofFrontMatter source d style).directory ++ "/" ++ path) = _
    simp only [htrim, sourceOf, hslash, Bool.false_eq_true, false_or]

theorem isExternal_resolveLink_iff {link : Text} (hsite : isExternal link = false) (p : Page) :
    isExternal (p.resolveLink link) = true ↔
      ∃ path suffix, ofText? link = some ⟨path, suffix⟩ ∧
        if leadsToSource link then Exposed p.url (SitePath.url (p.sourceOf path) p.style)
        else
          ((target p.placement .document path).startsWith "/" ∨
            levelsAbove (target p.placement .document path) = 0) ∧
          Exposed p.url (target p.placement .document path) := by
  by_cases hsource : leadsToSource link = true
  · cases hlink : ofText? link with
    | none =>
      have hsame : p.resolveLink link = link := by
        simp only [resolveLink, hsource, if_true, hlink]
      rw [hsame, hsite]
      simp
    | some parts =>
      obtain ⟨path, suffix⟩ := parts
      rw [resolveLink_source hlink hsource,
        isExternal_relative_iff _ p.url (endsSegment_suffix hlink), Exposed, resolve_slash_of_nil]
      simp only [if_pos hsource]
      rw [← hlink]
      exact (exists_parts_iff hlink fun path =>
        Exposed p.url (SitePath.url (p.sourceOf path) p.style)).symm
  · rw [resolveLink_other hsource, isExternal_onPage_iff hsite p.placement .document]
    simp only [if_neg hsource]
    exact Iff.rfl

/-- Rewriting makes an external link of a site link exactly when the way from
the page to the target starts with a name that reads as a scheme. -/
theorem isExternal_rewritten_iff {link : Text} (hsite : isExternal link = false) :
    (∀ (page : Placement) (base : LinkBase), isExternal (onPage page base link) = true ↔
      ∃ path suffix, ofText? link = some ⟨path, suffix⟩ ∧
        ((target page base path).startsWith "/" ∨ levelsAbove (target page base path) = 0) ∧
        Exposed page.url (target page base path)) ∧
    ∀ p : Page, isExternal (p.resolveLink link) = true ↔
      ∃ path suffix, ofText? link = some ⟨path, suffix⟩ ∧
        if leadsToSource link then Exposed p.url (SitePath.url (p.sourceOf path) p.style)
        else
          ((target p.placement .document path).startsWith "/" ∨
            levelsAbove (target p.placement .document path) = 0) ∧
          Exposed p.url (target p.placement .document path) :=
  ⟨isExternal_onPage_iff hsite, isExternal_resolveLink_iff hsite⟩

theorem isExternal_rewritten_chapter :
    isExternal "./chapter:1.html" = false ∧
      isExternal (onPage { url := "index.html" } .siteRoot "./chapter:1.html") = true ∧
      isExternal (onPage { url := "guide/" } .siteRoot "./chapter:1.html") = false := by
  have hsite : isExternal "./chapter:1.html" = false := rfl
  have hlink : ofText? "./chapter:1.html" = some ⟨"./chapter:1.html", []⟩ := rfl
  have hiff := (isExternal_rewritten_iff hsite).1
  refine ⟨hsite, (hiff _ _).mpr ⟨_, _, hlink, .inr (by decide), "chapter:1.html", [], ?_⟩, ?_⟩
  · decide
  · rw [Bool.eq_false_iff, Ne, hiff]
    rintro ⟨path, suffix, he, _, name, rest, hdest, _⟩
    obtain ⟨rfl, rfl⟩ := Link.mk.inj (Option.some.inj (hlink.symm.trans he))
    have hfirst : some ("chapter:1.html" : Text) = some "guide" := congrArg List.head? hdest
    exact absurd hfirst (by decide)

/-- The two ways in which a page at the root writes an external link. -/
theorem rewritten_colon_external :
    isExternal "./chapter:1.html" = false ∧
      onPage { url := "index.html" } .siteRoot "./chapter:1.html" = "chapter:1.html" ∧
      isExternal "chapter:1.html" = true ∧
      isExternal "./chapter:1.md" = false ∧
      (ofFrontMatter "index.md" ⟨[], []⟩ .file).resolveLink "./chapter:1.md" = "chapter:1.html" := by
  decide

/-- Where a path of a link leads: to the URL of a source, or to another file. -/
def destination (p : Page) (path : Text) : Text :=
  if isMarkdown path then SitePath.url (p.sourceOf path) p.style
  else normalize (p.sourceOf path)

@[simp] theorem url_ofFrontMatter (source : Text) (d : FrontMatter) (style : UrlStyle) :
    (ofFrontMatter source d style).url = SitePath.url source style := by
  change SitePath.url (normalize source) style = SitePath.url source style
  simp [SitePath.url]

/-- A site link of a page arrives, from the page's URL, at the destination of
its path. For a source this is the URL of the page that is made from it. -/
theorem resolveLink_arrives (source : Text) (d : FrontMatter) (style : UrlStyle)
    {link path suffix : Text} (hlink : ofText? link = some ⟨path, suffix⟩) :
    let p := ofFrontMatter source d style
    (isMarkdown path ∨ (p.sourceOf path).startsWith "/" ∨ levelsAbove (p.sourceOf path) = 0) →
      (∃ q, p.resolveLink link = q ++ suffix ∧
        normalize (Text.joinWith '/' (resolve (SitePath.directory p.url)) ++ '/' :: q) =
          normalize (p.destination path)) ∧
      (isMarkdown path → ∀ d', (ofFrontMatter (p.sourceOf path) d' style).url =
        p.destination path) := by
  intro p hinside
  have hleads := leadsToSource_eq hlink
  by_cases hsource : isMarkdown path = true
  · rw [hsource] at hleads
    have hdest : p.destination path = SitePath.url (p.sourceOf path) p.style := if_pos hsource
    refine ⟨⟨_, resolveLink_source hlink hleads, ?_⟩, fun _ d' => ?_⟩
    · rw [normalize_directory_relative, normalize_slash_of_nil, hdest]
    · rw [hdest]
      exact url_ofFrontMatter (p.sourceOf path) d' style
  · have hother : ¬ leadsToSource link = true := by rwa [hleads]
    have hdest : p.destination path = normalize (p.sourceOf path) := if_neg hsource
    have hspelled : p.resolveLink link = relative (p.sourceOf path) p.url ++ suffix := by
      rw [resolveLink_other hother, onPage_eq hlink, target_placement,
        pathOn_inside _ (hinside.resolve_left hsource)]
      rfl
    refine ⟨⟨_, hspelled, ?_⟩, fun h => absurd h hsource⟩
    rw [normalize_directory_relative, hdest, normalize_normalize]

theorem resolveLink_arrives_readme :
    let p := ofFrontMatter "guide/install.md" ⟨[], []⟩ .directory
    ofText? "..\\api\\README.md#top" = some ⟨"../api/README.md", "#top"⟩ ∧
      isMarkdown "../api/README.md" = true ∧
      ∃ q, p.resolveLink "..\\api\\README.md#top" = q ++ "#top" ∧
        normalize ("guide/install" ++ '/' :: q) = "api/" := by
  intro p
  have hlink : ofText? "..\\api\\README.md#top" = some ⟨"../api/README.md", "#top"⟩ := rfl
  have hsource : isMarkdown "../api/README.md" = true := rfl
  obtain ⟨q, hq, harrives⟩ :=
    (resolveLink_arrives "guide/install.md" ⟨[], []⟩ .directory hlink (.inl hsource)).1
  have hdest : normalize (p.destination "../api/README.md") = "api/" := by decide
  exact ⟨hlink, hsource, q, hq, harrives.trans hdest⟩

/-- A link to a source arrives at the URL of a source of the site. If it means a source some
levels above the root, then it is the source that is left without these levels, so the link
leaves the site as far as it should only if it should not leave it at all. -/
theorem follow_resolveLink_source (p : Page) {link path suffix : Text}
    (hlink : ofText? link = some ⟨path, suffix⟩) (hsource : isMarkdown path = true) :
    let k := levelsAbove (p.sourceOf path)
    let dir := resolve (SitePath.directory p.url)
    let kept := normalize (p.sourceOf path)
    follow [] (p.sourceOf path) = ⟨k, resolve kept⟩ ∧
      ∃ q, p.resolveLink link = q ++ suffix ∧
        follow dir q = ⟨0, resolve (SitePath.url kept p.style)⟩ ∧
        ((follow dir q).above = k ↔ k = 0) := by
  intro k dir kept
  have hmeant : follow [] (p.sourceOf path) = ⟨k, resolve kept⟩ := by
    rw [follow_root, resolve_normalize]
  have hkept : SitePath.url (p.sourceOf path) p.style = SitePath.url kept p.style :=
    (url_ofFrontMatter (p.sourceOf path) ⟨[], []⟩ p.style).symm
  have hspelled := resolveLink_source (p := p) hlink ((leadsToSource_eq hlink).trans hsource)
  have harrived : follow dir (relative (if SitePath.url kept p.style = [] then "/"
      else SitePath.url kept p.style) p.url) = ⟨0, resolve (SitePath.url kept p.style)⟩ := by
    rw [follow, walk_directory_relative, resolve_slash_of_nil]
  rw [hkept] at hspelled
  refine ⟨hmeant, _, hspelled, harrived, ?_⟩
  rw [harrived]
  exact eq_comm

theorem follow_resolveLink_source_about :
    let p := ofFrontMatter "guide/install.md" ⟨[], []⟩ .file
    ofText? "../../../about.md#team" = some ⟨"../../../about.md", "#team"⟩ ∧
      isMarkdown "../../../about.md" = true ∧
      levelsAbove (p.sourceOf "../../../about.md") = 2 ∧
      ∃ q, p.resolveLink "../../../about.md#team" = q ++ "#team" ∧
        follow ["guide"] q = ⟨0, ["about.html"]⟩ ∧ (follow ["guide"] q).above ≠ 2 := by
  intro p
  have hlink : ofText? "../../../about.md#team" = some ⟨"../../../about.md", "#team"⟩ := rfl
  have hsource : isMarkdown "../../../about.md" = true := rfl
  have hlevels : levelsAbove (p.sourceOf "../../../about.md") = 2 := by decide
  have hdest : resolve (SitePath.url (normalize (p.sourceOf "../../../about.md")) p.style) =
      [("about.html" : Text)] := by decide
  obtain ⟨_, q, hq, harrived, hiff⟩ := follow_resolveLink_source p hlink hsource
  rw [hdest] at harrived
  rw [hlevels] at hiff
  exact ⟨hlink, hsource, hlevels, q, hq, harrived, fun h => nomatch hiff.mp h⟩

/-- From `guide/install/`, a link to the `about` beside the site leads to the one of the site. -/
theorem resolveLink_about_beside_site :
    let p := ofFrontMatter "guide/install.md" ⟨[], []⟩ .directory
    levelsAbove p.url = 0 ∧
      ofText? "../../about.md" = some ⟨"../../about.md", []⟩ ∧
      isMarkdown "../../about.md" = true ∧ ¬ Text.startsWith "../../about.md" "/" ∧
      levelsAbove (p.sourceOf "../../about.md") = 1 ∧
      p.resolveLink "../../about.md" = "../../about/" ∧
      follow (resolve (SitePath.directory p.url)) "../../about/" = ⟨0, ["about"]⟩ := by
  decide

end StaticSite.Page
