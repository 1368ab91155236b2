import StaticSite.Link.Basic
import StaticSite.Proofs.SitePath.Relative

/-! Links that lead out of the site. The levels above the root are written in
front of a way that was found below the root, so they end outside as far as
the target only if that way starts by leaving the page's whole directory. -/

namespace StaticSite.Link

open SitePath

theorem splitOn_up : Text.splitOn '/' ".." = [(".." : Text)] := rfl

theorem splitOn_ups (n : Nat) (t : Text) :
    Text.splitOn '/' ((List.replicate n ("../" : Text)).flatten ++ t) =
      List.replicate n (".." : Text) ++ Text.splitOn '/' t := by
  induction n with
  | zero => simp
  | succ n ih =>
    have hcons := Text.splitOn_append_cons '/' ".."
      ((List.replicate n ("../" : Text)).flatten ++ t)
    rw [ih, splitOn_up] at hcons
    exact hcons

/-- However the levels are put in front, they are steps up before the relative path. -/
theorem walk_climbing (p : Position) (levels : Nat) (relative : Text) :
    p.walk (Text.splitOn '/' (climbing levels relative)) =
      p.walk (List.replicate levels (".." : Text) ++ Text.splitOn '/' relative) := by
  by_cases hzero : levels = 0
  · simp [climbing, hzero]
  · by_cases hdot : relative = "."
    · obtain ⟨n, rfl⟩ : ∃ n, levels = n + 1 := ⟨levels - 1, by omega⟩
      have hstay : ∀ s ∈ Text.splitOn '/' ".", s = [] ∨ s = "." := by decide
      rw [climbing, if_neg hzero, if_pos hdot, splitOn_ups, hdot, splitOn_up, Nat.add_sub_cancel,
        ← List.replicate_succ', Position.walk_append, Position.walk_stay _ hstay]
    · by_cases hdir : relative = "./"
      · have hups := splitOn_ups levels []
        have hend : ∀ s ∈ Text.splitOn '/' [], s = [] ∨ s = "." := by decide
        have hstay : ∀ s ∈ Text.splitOn '/' "./", s = [] ∨ s = "." := by decide
        rw [List.append_nil] at hups
        rw [climbing, if_neg hzero, if_neg hdot, if_pos hdir, hups, hdir, Position.walk_append,
          Position.walk_append, Position.walk_stay _ hend, Position.walk_stay _ hstay]
      · simp only [climbing, if_neg hzero, if_neg hdot, if_neg hdir, splitOn_ups]

theorem walk_pathOn (page : Placement) {target : Text} (h : ¬ target.startsWith "/") :
    follow (resolve (directory page.url)) (pathOn page target) =
      Position.walk ⟨0, resolve (directory page.url)⟩
        (List.replicate (levelsAbove target) (".." : Text) ++
          between (resolve (directory page.url)) (resolve target)) := by
  simp only [follow, pathOn, if_neg h]
  rw [walk_climbing, Position.walk_append, walk_relative, ← Position.walk_append]

theorem onPage_of_none {page : Placement} {base : LinkBase} {link : Text}
    (h : ofText? link = none) : onPage page base link = link := by
  simp only [onPage, h]

theorem onPage_eq {page : Placement} {base : LinkBase} {link path suffix : Text}
    (h : ofText? link = some ⟨path, suffix⟩) :
    onPage page base link = pathOn page (target page base path) ++ suffix := by
  simp only [onPage, h]

/-- A link that leads `k` levels out of the site keeps its meaning on a page
exactly when its target and the page's directory differ in their first names.
Otherwise each name that they share takes one step up away. -/
theorem follow_onPage_outside {page : Placement} {base : LinkBase} {link path suffix : Text}
    (hlink : ofText? link = some ⟨path, suffix⟩)
    (hrel : ¬ (target page base path).startsWith "/")
    (hout : 0 < levelsAbove (target page base path)) :
    let k := levelsAbove (target page base path)
    let dest := resolve (target page base path)
    let dir := resolve (directory page.url)
    follow [] (target page base path) = ⟨k, dest⟩ ∧
      ∃ q, onPage page base link = q ++ suffix ∧
        follow dir q = ⟨k - common dir dest,
          dir.take (common dir dest - k) ++ dest.drop (common dir dest)⟩ ∧
        (follow dir q = ⟨k, dest⟩ ↔ ∀ s, dir.head? = some s → dest.head? ≠ some s) := by
  intro k dest dir
  have hland := walk_pathOn page hrel
  rw [walk_ups_between _ _ (resolve_isPlace (target page base path))] at hland
  refine ⟨follow_root _, pathOn page (target page base path), onPage_eq hlink, hland, ?_⟩
  rw [hland, ← common_eq_zero_iff]
  constructor
  · intro he
    have habove : k - common dir dest = k := congrArg Position.above he
    change 0 < k at hout
    omega
  · intro hc
    change common dir dest = 0 at hc
    simp [k, dest, dir, hc]

theorem follow_onPage_outside_about :
    let page : Placement := { url := "about/" }
    ofText? "../some/dir/?v=2" = some ⟨"../some/dir/", "?v=2"⟩ ∧
      ¬ (target page .siteRoot "../some/dir/").startsWith "/" ∧
      0 < levelsAbove (target page .siteRoot "../some/dir/") ∧
      ∃ q, onPage page .siteRoot "../some/dir/?v=2" = q ++ "?v=2" ∧
        follow (resolve (directory page.url)) q = ⟨1, ["some", "dir"]⟩ := by
  have hlink : ofText? "../some/dir/?v=2" = some ⟨"../some/dir/", "?v=2"⟩ := rfl
  obtain ⟨_, q, hq, _, hiff⟩ :=
    @follow_onPage_outside { url := "about/" } .siteRoot _ _ _ hlink (by decide) (by decide)
  have hfirst := (common_eq_zero_iff (resolve (directory "about/"))
    (resolve "../some/dir/")).mp rfl
  exact ⟨hlink, by decide, by decide, q, hq, hiff.mpr hfirst⟩

/-- From `guide/`, a link to the `guide` beside the site stays within the site. -/
theorem onPage_guide_beside_site :
    let page : Placement := { url := "guide/" }
    levelsAbove (directory page.url) = 0 ∧
      ofText? "../guide/logo.png" = some ⟨"../guide/logo.png", []⟩ ∧
      follow [] (target page .siteRoot "../guide/logo.png") = ⟨1, ["guide", "logo.png"]⟩ ∧
      onPage page .siteRoot "../guide/logo.png" = "../logo.png" ∧
      follow (resolve (directory page.url)) "../logo.png" = ⟨0, ["logo.png"]⟩ := by
  decide

end StaticSite.Link
