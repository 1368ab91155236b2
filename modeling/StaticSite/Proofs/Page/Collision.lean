import StaticSite.Proofs.Page.Url

/-! Sources with one URL. A URL keeps the path of its source except for the
ending and the name of an index page, so two URLs are the same where nothing
else tells the sources apart. -/

namespace StaticSite.SitePath

/-- The path of a name in a directory. The root is the directory with the empty path. -/
def under (dir name : Text) : Text := if dir = [] then name else dir ++ '/' :: name

def lastSegment (path : Text) : Text :=
  (Text.splitOn '/' path).getLast (Text.splitOn_ne_nil '/' path)

/-- A Markdown file, by its path without the ending. -/
def HasStem (source stem : Text) : Prop := ∃ ending ∈ markdownEndings, source = stem ++ ending

/-- A Markdown file that stands for a directory. -/
def IsIndexOf (source dir : Text) : Prop :=
  ∃ name, isIndexName name = true ∧ HasStem source (under dir name)

theorem splitLast?_under {name : Text} (h : '/' ∉ name) (dir : Text) :
    (Text.splitLast? '/' (under dir name)).getD ([], under dir name) = (dir, name) := by
  by_cases hdir : dir = []
  · have hnone := Text.splitLast?_eq_none_iff.mpr h
    simp [under, hdir, hnone]
  · have hsplit := Text.splitLast?_eq_some_iff.mpr ⟨(rfl : dir ++ '/' :: name = _), h⟩
    simp [under, hdir, hsplit]

theorem under_inj {dir dir' name name' : Text} (h : '/' ∉ name) (h' : '/' ∉ name') :
    under dir name = under dir' name' ↔ dir = dir' ∧ name = name' := by
  constructor
  · intro he
    have hsplit := splitLast?_under h dir
    rw [he, splitLast?_under h' dir'] at hsplit
    obtain ⟨rfl, rfl⟩ := Prod.mk.inj hsplit
    exact ⟨rfl, rfl⟩
  · rintro ⟨rfl, rfl⟩
    rfl

theorem lastSegment_under {name : Text} (h : '/' ∉ name) (dir : Text) :
    lastSegment (under dir name) = name := by
  have hname := Text.splitOn_of_not_mem h
  by_cases hdir : dir = []
  · simp [lastSegment, under, hdir, hname]
  · simp [lastSegment, under, hdir, hname]

theorem joinWith_concat_eq_under {place : List Text} (h : IsPlace place) (name : Text) :
    Text.joinWith '/' (place ++ [name]) = under (Text.joinWith '/' place) name := by
  have hnil := joinWith_place_eq_nil_iff h
  by_cases hplace : place = []
  · subst hplace
    rfl
  · have hne : Text.joinWith '/' place ≠ [] := fun he => hplace (hnil.mp he)
    rw [Text.joinWith_concat hplace, under, if_neg hne]

theorem HasStem.unique {source stem stem' : Text} (h : HasStem source stem)
    (h' : HasStem source stem') : stem = stem' := by
  obtain ⟨ending, hending, rfl⟩ := h
  obtain ⟨ending', hending', he⟩ := h'
  have hsplit := splitLast?_ending hending stem
  rw [he, splitLast?_ending hending'] at hsplit
  exact (Prod.mk.inj (Option.some.inj hsplit)).1.symm

section Parts

variable {p q dir dir' name name' : Text}

theorem not_mem_of_isIndexName (h : isIndexName name = true) : '/' ∉ name :=
  (isName_of_isIndexName h).no_slash

theorem isIndexOf_iff (hname : '/' ∉ name) (h : HasStem p (under dir name)) {d : Text} :
    IsIndexOf p d ↔ isIndexName name = true ∧ d = dir := by
  constructor
  · rintro ⟨index, hindex, hstem⟩
    have he := hstem.unique h
    obtain ⟨rfl, rfl⟩ := (under_inj (not_mem_of_isIndexName hindex) hname).mp he
    exact ⟨hindex, rfl⟩
  · rintro ⟨hindex, rfl⟩
    exact ⟨name, hindex, h⟩

theorem exists_hasStem_iff (hname : '/' ∉ name) (hname' : '/' ∉ name')
    (hp : HasStem p (under dir name)) (hq : HasStem q (under dir' name')) :
    (∃ stem, HasStem p stem ∧ HasStem q stem) ↔ dir = dir' ∧ name = name' := by
  rw [← under_inj hname hname']
  constructor
  · rintro ⟨stem, hps, hqs⟩
    exact (hp.unique hps).trans (hqs.unique hq)
  · intro he
    exact ⟨under dir name, hp, he ▸ hq⟩

theorem exists_isIndexOf_iff (hname : '/' ∉ name) (hname' : '/' ∉ name')
    (hp : HasStem p (under dir name)) (hq : HasStem q (under dir' name')) :
    (∃ d, IsIndexOf p d ∧ IsIndexOf q d) ↔
      dir = dir' ∧ isIndexName name = true ∧ isIndexName name' = true := by
  simp only [isIndexOf_iff hname hp, isIndexOf_iff hname' hq]
  constructor
  · rintro ⟨d, ⟨hindex, rfl⟩, hindex', rfl⟩
    exact ⟨rfl, hindex, hindex'⟩
  · rintro ⟨rfl, hindex, hindex'⟩
    exact ⟨dir, ⟨hindex, rfl⟩, hindex', rfl⟩

/-- A file of the first name is a page beside the directory that the other one is the index of. -/
theorem exists_beside_iff (hname : '/' ∉ name) (hname' : '/' ∉ name')
    (hp : HasStem p (under dir name)) (hq : HasStem q (under dir' name')) :
    (∃ d, d ≠ [] ∧ isIndexName (lastSegment d) = false ∧ HasStem p d ∧ IsIndexOf q d) ↔
      dir' ≠ [] ∧ isIndexName name = false ∧ isIndexName name' = true ∧ under dir name = dir' := by
  simp only [isIndexOf_iff hname' hq]
  constructor
  · rintro ⟨d, hne, hlast, hd, hindex, rfl⟩
    have he := hp.unique hd
    rw [← he, lastSegment_under hname] at hlast
    exact ⟨hne, hlast, hindex, he⟩
  · rintro ⟨hne, hlast, hindex, rfl⟩
    exact ⟨under dir name, hne, by rwa [lastSegment_under hname], hp, hindex, rfl⟩

theorem urlOfStem_directory (hname : '/' ∉ name) (dir : Text) :
    urlOfStem (under dir name) .directory =
      if isIndexName name then (if dir = [] then [] else dir ++ ['/'])
      else under dir name ++ ['/'] := by
  simp only [urlOfStem, splitLast?_under hname]
  cases isIndexName name <;> rfl

theorem slashed_inj :
    (if dir = [] then [] else dir ++ ['/']) = (if dir' = [] then [] else dir' ++ ['/']) ↔
      dir = dir' := by
  by_cases hdir : dir = []
  · by_cases hdir' : dir' = []
    · simp [hdir, hdir']
    · simp [hdir, hdir', Ne.symm hdir']
  · by_cases hdir' : dir' = []
    · simp [hdir, hdir']
    · simp [hdir, hdir']

theorem slashed_eq_iff {t : Text} :
    (if dir = [] then [] else dir ++ ['/']) = t ++ ['/'] ↔ dir ≠ [] ∧ t = dir := by
  by_cases hdir : dir = []
  · simp [hdir]
  · simp [hdir, eq_comm]

/-- The name of the file that a source is written to, without `.html`. -/
def writtenName (name : Text) : Text := if isIndexName name then "index" else name

theorem writtenName_eq_iff :
    writtenName name = writtenName name' ↔
      name = name' ∨ isIndexName name = true ∧ isIndexName name' = true := by
  have hindex : ∀ n : Text, isIndexName n = false → n ≠ "index" := by
    rintro n hn rfl
    cases hn
  cases hname : isIndexName name with
  | true =>
    cases hname' : isIndexName name' with
    | true => simp [writtenName, hname, hname']
    | false =>
      have hne : name ≠ name' := by
        rintro rfl
        simp [hname] at hname'
      simpa [writtenName, hname, hname', hne] using (hindex name' hname').symm
  | false =>
    cases hname' : isIndexName name' with
    | true =>
      have hne : name ≠ name' := by
        rintro rfl
        simp [hname] at hname'
      simpa [writtenName, hname, hname', hne] using hindex name hname
    | false => simp [writtenName, hname, hname']

theorem not_mem_writtenName (hname : '/' ∉ name) : '/' ∉ writtenName name ++ ".html" := by
  rw [writtenName]
  cases isIndexName name with
  | true =>
    rw [if_pos rfl]
    decide
  | false => simpa using hname

theorem urlOfStem_file (hname : '/' ∉ name) (dir : Text) :
    urlOfStem (under dir name) .file = under dir (writtenName name ++ ".html") := by
  simp only [urlOfStem, splitLast?_under hname, writtenName]
  cases isIndexName name with
  | true => rfl
  | false =>
    by_cases hdir : dir = []
    · simp [under, hdir]
    · simp [under, hdir]

theorem urlOfStem_directory_eq_iff (hname : '/' ∉ name) (hname' : '/' ∉ name') :
    urlOfStem (under dir name) .directory = urlOfStem (under dir' name') .directory ↔
      (dir = dir' ∧ name = name') ∨
      (dir = dir' ∧ isIndexName name = true ∧ isIndexName name' = true) ∨
      (dir' ≠ [] ∧ isIndexName name = false ∧ isIndexName name' = true ∧ under dir name = dir') ∨
      dir ≠ [] ∧ isIndexName name' = false ∧ isIndexName name = true ∧ under dir' name' = dir := by
  have hother : isIndexName name ≠ isIndexName name' → ¬ name = name' := by
    rintro hne rfl
    exact hne rfl
  rw [urlOfStem_directory hname, urlOfStem_directory hname']
  cases hindex : isIndexName name with
  | true =>
    cases hindex' : isIndexName name' with
    | true =>
      have hsame : dir = dir' ∧ name = name' → dir = dir' := And.left
      simp [slashed_inj, or_iff_right_of_imp hsame]
    | false =>
      have hne : ¬ name = name' := hother (by simp [hindex, hindex'])
      simp [slashed_eq_iff, hne, eq_comm]
  | false =>
    cases hindex' : isIndexName name' with
    | true =>
      have hne : ¬ name = name' := hother (by simp [hindex, hindex'])
      have hslashed := @slashed_eq_iff dir' (under dir name)
      rw [eq_comm] at hslashed
      simp [hslashed, hne]
    | false => simp [under_inj hname hname']

theorem urlOfStem_file_eq_iff (hname : '/' ∉ name) (hname' : '/' ∉ name') :
    urlOfStem (under dir name) .file = urlOfStem (under dir' name') .file ↔
      (dir = dir' ∧ name = name') ∨
        dir = dir' ∧ isIndexName name = true ∧ isIndexName name' = true := by
  rw [urlOfStem_file hname, urlOfStem_file hname',
    under_inj (not_mem_writtenName hname) (not_mem_writtenName hname'), List.append_left_inj,
    writtenName_eq_iff, and_or_left]

end Parts

theorem exists_name {source : Text} (hnormal : normalize source = source)
    (hmarkdown : isMarkdown source = true) : ∃ dir name, '/' ∉ name ∧
      HasStem source (under dir name) ∧ ∀ style, url source style = urlOfStem (under dir name) style := by
  rw [← hnormal, isMarkdown_normalize_iff] at hmarkdown
  obtain ⟨place, name, hsource⟩ := hmarkdown
  have hunder := joinWith_concat_eq_under hsource.isPlace_dir name
  have hurl := url_of_isSource hsource
  rw [hunder] at hurl
  refine ⟨_, name, hsource.no_slash, ?_, hurl⟩
  obtain ⟨hdir, ending, hending, hresolve⟩ := hsource
  have hfile := normalize_file hdir hresolve
  rw [hnormal, ← Text.joinWith_concat_append, hunder] at hfile
  exact ⟨ending, hending, hfile⟩

/-- Two normal paths of Markdown files have one URL if and only if they differ in nothing but the
ending, or both stand for the same directory, or, for pages in directories of their own, one stands
for the directory that is called like the other one. -/
theorem url_eq_url_iff {p q : Text} (hp : normalize p = p) (hq : normalize q = q)
    (hpm : isMarkdown p = true) (hqm : isMarkdown q = true) (style : UrlStyle) :
    url p style = url q style ↔
      (∃ stem, HasStem p stem ∧ HasStem q stem) ∨
      (∃ dir, IsIndexOf p dir ∧ IsIndexOf q dir) ∨
      style = .directory ∧ ∃ d, d ≠ [] ∧ isIndexName (lastSegment d) = false ∧
        (HasStem p d ∧ IsIndexOf q d ∨ HasStem q d ∧ IsIndexOf p d) := by
  obtain ⟨dir, name, hname, hstem, hurl⟩ := exists_name hp hpm
  obtain ⟨dir', name', hname', hstem', hurl'⟩ := exists_name hq hqm
  simp only [and_or_left, exists_or]
  rw [hurl, hurl', exists_hasStem_iff hname hname' hstem hstem',
    exists_isIndexOf_iff hname hname' hstem hstem', exists_beside_iff hname hname' hstem hstem',
    exists_beside_iff hname' hname hstem' hstem]
  cases style with
  | directory =>
    rw [urlOfStem_directory_eq_iff hname hname']
    simp
  | file =>
    rw [urlOfStem_file_eq_iff hname hname']
    simp

theorem url_eq_url_iff_version :
    let page : Text := "docs/v1.2.md"
    let index : Text := "docs/v1.2/README.markdown"
    normalize page = page ∧ normalize index = index ∧ isMarkdown page = true ∧
      isMarkdown index = true ∧ url page .directory = url index .directory ∧
      url page .directory = "docs/v1.2/" ∧ url page .file ≠ url index .file := by
  intro page index
  have hpage : normalize page = page := by decide
  have hindex : normalize index = index := by decide
  have hstem : HasStem page "docs/v1.2" := ⟨".md", by decide, rfl⟩
  have hindexOf : IsIndexOf index "docs/v1.2" := ⟨"README", by decide, ".markdown", by decide, rfl⟩
  refine ⟨hpage, hindex, by decide, by decide, ?_, by decide, by decide⟩
  rw [url_eq_url_iff hpage hindex (by decide) (by decide)]
  exact .inr (.inr ⟨rfl, "docs/v1.2", by decide, by decide, .inl ⟨hstem, hindexOf⟩⟩)

end StaticSite.SitePath
