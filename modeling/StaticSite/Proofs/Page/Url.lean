import StaticSite.Page.Url
import StaticSite.Proofs.SitePath.Normal

/-! URLs of source files. The path of a source is made normal before its ending
is cut off, so its URL is normal as long as what is left of the last name still
is a name, or gets an ending again. -/

namespace StaticSite.SitePath

/-- A Markdown file, by the place of its directory and by its name without the ending. -/
def IsSource (source : Text) (dir : List Text) (name : Text) : Prop :=
  ¬ source.endsWith "/" ∧ ∃ ending ∈ markdownEndings, resolve source = dir ++ [name ++ ending]

theorem markdownEndings_form : ∀ e ∈ markdownEndings, '/' ∉ e ∧ e = '.' :: e.tail ∧ '.' ∉ e.tail := by
  decide

/-- The ending begins with the last dot. -/
theorem splitLast?_ending {ending : Text} (h : ending ∈ markdownEndings) (stem : Text) :
    Text.splitLast? '.' (stem ++ ending) = some (stem, ending.tail) := by
  obtain ⟨_, hdot, hlast⟩ := markdownEndings_form ending h
  rw [Text.splitLast?_eq_some_iff, ← hdot]
  exact ⟨rfl, hlast⟩

theorem IsSource.isPlace_dir {source name : Text} {dir : List Text} (h : IsSource source dir name) :
    IsPlace dir := by
  obtain ⟨_, ending, _, hresolve⟩ := h
  have hplace := resolve_isPlace source
  rw [hresolve] at hplace
  exact hplace.sublist (List.sublist_append_left _ _)

theorem IsSource.no_slash {source name : Text} {dir : List Text} (h : IsSource source dir name) :
    '/' ∉ name := by
  obtain ⟨_, ending, _, hresolve⟩ := h
  have hfile := resolve_isPlace source (name ++ ending) (by simp [hresolve])
  exact fun hm => hfile.no_slash (List.mem_append_left _ hm)

theorem IsSource.fields {source name : Text} {dir : List Text} (h : IsSource source dir name) :
    ∀ f ∈ dir ++ [name], '/' ∉ f := by
  intro f hf
  rcases List.mem_append.mp hf with hf | hf
  · exact (h.isPlace_dir f hf).no_slash
  · exact List.mem_singleton.mp hf ▸ h.no_slash

theorem normalize_file {source file : Text} {dir : List Text} (hdir : ¬ source.endsWith "/")
    (h : resolve source = dir ++ [file]) : normalize source = Text.joinWith '/' (dir ++ [file]) := by
  rw [normalize_eq, h, if_neg fun hand => hdir hand.1, List.append_nil]

theorem endsWith_joinWith_concat {tail : Text} (h : '/' ∉ tail) (dir : List Text) (file : Text) :
    (Text.joinWith '/' (dir ++ [file])).endsWith tail = true ↔ file.endsWith tail = true := by
  by_cases hdir : dir = []
  · subst hdir
    rfl
  · rw [Text.joinWith_concat hdir, Text.endsWith_append_cons h]

theorem isMarkdown_normalize_iff {source : Text} :
    isMarkdown (normalize source) = true ↔ ∃ dir name, IsSource source dir name := by
  rw [isMarkdown, List.any_eq_true]
  constructor
  · rintro ⟨ending, hending, hends⟩
    obtain ⟨hslash, hdot, _⟩ := markdownEndings_form ending hending
    have hnotDir : ¬ (source.endsWith "/" = true ∧ resolve source ≠ []) := by
      intro hdir
      rw [normalize_eq, if_pos hdir, Text.endsWith_append_cons hslash, Text.endsWith_iff,
        List.suffix_nil] at hends
      rw [hends] at hdot
      cases hdot
    have hroot : resolve source ≠ [] := by
      intro hroot
      rw [normalize_of_root hroot, Text.endsWith_iff, List.suffix_nil] at hends
      rw [hends] at hdot
      cases hdot
    have hdir : ¬ source.endsWith "/" = true := fun hdir => hnotDir ⟨hdir, hroot⟩
    have hresolve := (List.dropLast_concat_getLast hroot).symm
    rw [normalize_file hdir hresolve, endsWith_joinWith_concat hslash, Text.endsWith_iff] at hends
    obtain ⟨name, hname⟩ := hends
    rw [← hname] at hresolve
    exact ⟨(resolve source).dropLast, name, hdir, ending, hending, hresolve⟩
  · rintro ⟨dir, name, hdir, ending, hending, hresolve⟩
    refine ⟨ending, hending, ?_⟩
    rw [normalize_file hdir hresolve,
      endsWith_joinWith_concat (markdownEndings_form ending hending).1, Text.endsWith_iff]
    exact List.suffix_append name ending

theorem url_of_isSource {source name : Text} {dir : List Text} (h : IsSource source dir name)
    (style : UrlStyle) : url source style = urlOfStem (Text.joinWith '/' (dir ++ [name])) style := by
  have hmarkdown := isMarkdown_normalize_iff.mpr ⟨dir, name, h⟩
  obtain ⟨hdir, ending, hending, hresolve⟩ := h
  have hsplit := splitLast?_ending hending (Text.joinWith '/' (dir ++ [name]))
  rw [Text.joinWith_concat_append, ← normalize_file hdir hresolve] at hsplit
  simp only [url, if_pos hmarkdown, hsplit]

theorem url_of_not_source {source : Text} (h : ¬ ∃ dir name, IsSource source dir name)
    (style : UrlStyle) : url source style = normalize source := by
  rw [← isMarkdown_normalize_iff] at h
  simp only [url, if_neg h]

theorem splitLast?_joinWith_concat {name : Text} (h : '/' ∉ name) (dir : List Text) :
    (Text.splitLast? '/' (Text.joinWith '/' (dir ++ [name]))).getD
      ([], Text.joinWith '/' (dir ++ [name])) = (Text.joinWith '/' dir, name) := by
  by_cases hdir : dir = []
  · subst hdir
    have hnone : Text.splitLast? '/' (Text.joinWith '/' ([] ++ [name])) = none :=
      Text.splitLast?_eq_none_iff.mpr h
    rw [hnone]
    rfl
  · rw [Text.splitLast?_eq_some_iff.mpr ⟨Text.joinWith_concat hdir name, h⟩]
    rfl

theorem url_directory {source name : Text} {dir : List Text} (h : IsSource source dir name) :
    url source .directory =
      if isIndexName name then (if dir = [] then [] else Text.joinWith '/' dir ++ ['/'])
      else Text.joinWith '/' (dir ++ [name]) ++ ['/'] := by
  have hnil := joinWith_place_eq_nil_iff h.isPlace_dir
  rw [url_of_isSource h, urlOfStem]
  simp only [splitLast?_joinWith_concat h.no_slash]
  cases hindex : isIndexName name with
  | true => simp only [if_true, hnil]; rfl
  | false => rfl

theorem url_file {source name : Text} {dir : List Text} (h : IsSource source dir name) :
    url source .file =
      Text.joinWith '/' (dir ++ [if isIndexName name then ("index.html" : Text) else name ++ ".html"]) := by
  have hnil := joinWith_place_eq_nil_iff h.isPlace_dir
  rw [url_of_isSource h, urlOfStem]
  simp only [splitLast?_joinWith_concat h.no_slash]
  cases hindex : isIndexName name with
  | true =>
    by_cases hdir : dir = []
    · subst hdir
      rfl
    · simp only [if_true, hnil, if_neg hdir, Text.joinWith_concat hdir]
      rfl
  | false => exact Text.joinWith_concat_append '/' dir name ".html"

theorem isName_of_isIndexName {name : Text} (h : isIndexName name = true) : IsName name := by
  rw [isIndexName, Bool.or_eq_true, beq_iff_eq, beq_iff_eq] at h
  rcases h with rfl | rfl
  · rw [isName_iff (by decide)]
    decide
  · rw [isName_iff (by decide)]
    decide

theorem isName_html {name : Text} (h : '/' ∉ name) : IsName (name ++ ".html") := by
  have hslash : '/' ∉ name ++ ".html" := by simpa using h
  have hlength : 5 ≤ (name ++ ".html").length := by simp
  rw [isName_iff hslash]
  intro hm
  have hshort : ∀ t ∈ ([[], ".", ".."] : List Text), t.length < 5 := by decide
  have := hshort _ hm
  omega

theorem IsPlace.concat {place : List Text} (h : IsPlace place) {name : Text} (hname : IsName name) :
    IsPlace (place ++ [name]) :=
  h.append (by simpa [IsPlace] using hname)

theorem splitOn_joinWith_slash {fields : List Text} (hne : fields ≠ [])
    (h : ∀ f ∈ fields, '/' ∉ f) :
    Text.splitOn '/' (Text.joinWith '/' fields ++ ['/']) = fields ++ [[]] := by
  simp [Text.splitOn_joinWith hne h]

/-- A path of fields and a slash behind them is normal only if the fields are names. -/
theorem isPlace_of_normalize_eq {fields : List Text} (hne : fields ≠ [])
    (hfields : ∀ f ∈ fields, '/' ∉ f)
    (h : normalize (Text.joinWith '/' fields ++ ['/']) = Text.joinWith '/' fields ++ ['/']) :
    IsPlace fields := by
  obtain ⟨place, hplace, hjoined | ⟨hplaceNe, hslashed⟩⟩ := normalize_eq_self_iff.mp h
  · have hlast := Text.getLast?_joinWith_ne hplace.fields
    rw [← hjoined] at hlast
    simp at hlast
  · have hsplit := splitOn_joinWith_slash hne hfields
    rw [hslashed, splitOn_joinWith_slash hplaceNe fun f hf => (hplace f hf).no_slash] at hsplit
    rw [← List.append_inj_left' hsplit rfl]
    exact hplace

theorem normalize_url_directory_iff {source name : Text} {dir : List Text}
    (h : IsSource source dir name) :
    normalize (url source .directory) = url source .directory ↔ IsName name := by
  rw [url_directory h]
  cases hindex : isIndexName name with
  | true =>
    refine iff_of_true ?_ (isName_of_isIndexName hindex)
    by_cases hdir : dir = []
    · simp only [if_true, if_pos hdir]
      rfl
    · simp only [if_true, if_neg hdir]
      exact normalize_joinWith_slash h.isPlace_dir hdir
  | false =>
    constructor
    · intro hnormal
      exact isPlace_of_normalize_eq (by simp) h.fields hnormal name (by simp)
    · intro hname
      exact normalize_joinWith_slash (h.isPlace_dir.concat hname) (by simp)

theorem normalize_url_file {source name : Text} {dir : List Text} (h : IsSource source dir name) :
    normalize (url source .file) = url source .file := by
  rw [url_file h]
  apply normalize_joinWith
  have hindex : '/' ∉ ("index" : Text) := by decide
  have hindexFile : IsName "index.html" := isName_html hindex
  cases hindex : isIndexName name with
  | true => exact h.isPlace_dir.concat hindexFile
  | false => exact h.isPlace_dir.concat (isName_html h.no_slash)

theorem follow_url_directory {source name : Text} {dir : List Text} (h : IsSource source dir name)
    (hname : ¬ IsName name) : follow [] (url source .directory) = Position.step ⟨0, dir⟩ name := by
  have hindex : ¬ isIndexName name = true := fun hindex => hname (isName_of_isIndexName hindex)
  rw [url_directory h, if_neg hindex, follow, splitOn_joinWith_slash (by simp) h.fields,
    Position.walk_append, Position.walk_append, Position.walk_names _ h.isPlace_dir]
  simp

/-- The URL of a source is a normal path, of names only and below the root, unless it is that
of a page directory whose name is empty or a dot segment. Such a URL leads where that segment
leads from the directory of the source. -/
theorem normalize_url_iff (source : Text) (style : UrlStyle) :
    let u := url source style
    (normalize u = u ↔ ¬ (style = .directory ∧
      ∃ dir name, IsSource source dir name ∧ name ∈ ([[], ".", ".."] : List Text))) ∧
    (normalize u = u → ∃ place, IsPlace place ∧
      (u = Text.joinWith '/' place ∨ place ≠ [] ∧ u = Text.joinWith '/' place ++ "/")) ∧
    (style = .directory → ∀ dir name, IsSource source dir name →
      name ∈ ([[], ".", ".."] : List Text) → follow [] u = Position.step ⟨0, dir⟩ name) := by
  intro u
  refine ⟨?_, normalize_eq_self_iff.mp, ?_⟩
  · by_cases hsource : ∃ dir name, IsSource source dir name
    · obtain ⟨dir, name, h⟩ := hsource
      cases style with
      | file => exact iff_of_true (normalize_url_file h) fun hdir => nomatch hdir.1
      | directory =>
        rw [normalize_url_directory_iff h]
        constructor
        · rintro hname ⟨_, dir', name', h', hdots⟩
          rw [← normalize_url_directory_iff h, normalize_url_directory_iff h'] at hname
          exact (isName_iff h'.no_slash).mp hname hdots
        · intro hnone
          rw [isName_iff h.no_slash]
          exact fun hdots => hnone ⟨rfl, dir, name, h, hdots⟩
    · have hother : u = normalize source := url_of_not_source hsource style
      rw [hother, normalize_normalize]
      refine iff_of_true rfl ?_
      rintro ⟨_, dir, name, h, _⟩
      exact hsource ⟨dir, name, h⟩
  · rintro rfl dir name h hdots
    exact follow_url_directory h fun hname => (isName_iff h.no_slash).mp hname hdots

theorem normalize_url_beside_guide :
    IsSource "guide/...md" ["guide"] ".." ∧
      normalize (url "guide/...md" .directory) ≠ url "guide/...md" .directory ∧
      follow [] (url "guide/...md" .directory) = ⟨0, []⟩ ∧
      normalize (url "guide/...md" .file) = url "guide/...md" .file := by
  have hsource : IsSource "guide/...md" ["guide"] ".." := ⟨by decide, ".md", by decide, by decide⟩
  have hdirectory := normalize_url_iff "guide/...md" .directory
  have hfile := normalize_url_iff "guide/...md" .file
  refine ⟨hsource, ?_, hdirectory.2.2 rfl _ _ hsource (by decide), ?_⟩
  · rw [Ne, hdirectory.1]
    exact fun hnone => hnone ⟨rfl, _, _, hsource, by decide⟩
  · exact hfile.1.mpr fun hdir => nomatch hdir.1

/-- The page of a file whose name is two dots and the ending lies outside the site. -/
theorem url_outside_site :
    url "...md" .directory = "../" ∧ levelsAbove "../" = 1 ∧ normalize "../" = [] := by
  decide

end StaticSite.SitePath
