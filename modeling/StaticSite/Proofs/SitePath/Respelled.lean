import Mathlib.Data.List.Basic
import Mathlib.Logic.Relation
import StaticSite.Proofs.SitePath.Place

/-! Other spellings of a path. Slashes may be put in front, and at any slash
within the path there may be a detour that leads nowhere. The last field is
kept, and it tells directories from documents, so relative spellings are the
same for all of them. -/

namespace StaticSite.SitePath

/-- What may stand between two slashes that mean one. -/
inductive Detour : Text → Prop
  | nothing : Detour []
  | dot : Detour "."
  | name {name : Text} (h : IsName name) : Detour (name ++ "/..")

/-- One more slash in front, or a detour at one of the slashes. -/
inductive Respelling : Text → Text → Prop
  | slash (path : Text) : Respelling path ('/' :: path)
  | detour {detour : Text} (h : Detour detour) (before after : Text) :
      Respelling (before ++ '/' :: after) (before ++ '/' :: detour ++ '/' :: after)

theorem walk_name_up {name : Text} (h : IsName name) (place : List Text) :
    walk place [name, ".."] = place := by
  rw [walk_cons, walk_cons, walk_nil, step_name h, step_up, List.dropLast_concat]

theorem Detour.walk {detour : Text} (h : Detour detour) (place : List Text) :
    walk place (Text.splitOn '/' detour) = place := by
  cases h with
  | nothing => simp
  | dot => simp [Text.splitOn, step]
  | @name name hname =>
    have hsplit : Text.splitOn '/' (name ++ '/' :: "..") = [name, ".."] := by
      rw [Text.splitOn_append_cons, Text.splitOn_of_not_mem hname.no_slash]
      rfl
    exact (congrArg (SitePath.walk place) hsplit).trans (walk_name_up hname place)

/-- The new fields lead nowhere, and the last field stays behind them. -/
theorem Respelling.exists_fields {path path' : Text} (h : Respelling path path') :
    ∃ before idle after, Text.splitOn '/' path = before ++ after ∧
      Text.splitOn '/' path' = before ++ idle ++ after ∧ after ≠ [] ∧
      ∀ place, walk place idle = place := by
  cases h with
  | slash =>
    exact ⟨[], [[]], Text.splitOn '/' path, rfl, rfl, Text.splitOn_ne_nil '/' path, step_nil⟩
  | @detour detour hdetour before after =>
    refine ⟨Text.splitOn '/' before, Text.splitOn '/' detour, Text.splitOn '/' after,
      Text.splitOn_append_cons '/' before after, ?_, Text.splitOn_ne_nil '/' after, hdetour.walk⟩
    simp

theorem walk_idle {idle : List Text} (h : ∀ place, walk place idle = place)
    (before after : List Text) : walk [] (before ++ idle ++ after) = walk [] (before ++ after) := by
  simp [h]

theorem Respelling.resolve_eq {path path' : Text} (h : Respelling path path') :
    resolve path' = resolve path := by
  obtain ⟨before, idle, after, hpath, hpath', _, hidle⟩ := h.exists_fields
  rw [resolve, resolve, hpath, hpath', walk_idle hidle]

/-- The fields of a page path that lead to its directory. -/
def folders (fields : List Text) : List Text :=
  if (fields.getLastD []).contains '.' then fields.dropLast else fields

theorem folders_concat (fields : List Text) (last : Text) :
    folders (fields ++ [last]) = fields ++ if last.contains '.' then [] else [last] := by
  rw [folders, List.getLastD_concat, List.dropLast_concat]
  by_cases h : last.contains '.' = true
  · rw [if_pos h, if_pos h, List.append_nil]
  · rw [if_neg h, if_neg h]

theorem folders_append (before : List Text) {after : List Text} (h : after ≠ []) :
    folders (before ++ after) = before ++ folders after := by
  obtain ⟨fields, last, rfl⟩ := (List.eq_nil_or_concat after).resolve_left h
  rw [List.concat_eq_append, ← List.append_assoc, folders_concat, folders_concat,
    List.append_assoc]

theorem resolve_directory_of_head {page : Text} (h : page.head? ≠ some '/') :
    resolve (directory page) = walk [] (folders (Text.splitOn '/' page)) := by
  have hdrop : Text.dropStart Text.isSlash page = page := by
    cases page with
    | nil => rfl
    | cons c page =>
      have hc : ¬ Text.isSlash c = true := by simpa using h
      exact List.dropWhile_cons_of_neg hc
  cases hs : Text.splitLast? '/' page with
  | none =>
    have hplain := Text.splitOn_of_not_mem (Text.splitLast?_eq_none_iff.mp hs)
    have hfolders := folders_concat [] page
    rw [List.nil_append, List.nil_append] at hfolders
    simp only [directory, hdrop, hs]
    rw [hplain, hfolders]
    by_cases hdot : page.contains '.' = true
    · rw [if_pos hdot, if_pos hdot]
      rfl
    · rw [if_neg hdot, if_neg hdot, resolve, hplain]
  | some parts =>
    obtain ⟨dir, name⟩ := parts
    obtain ⟨rfl, hname⟩ := Text.splitLast?_eq_some_iff.mp hs
    have hsplit : Text.splitOn '/' (dir ++ '/' :: name) = Text.splitOn '/' dir ++ [name] := by
      rw [Text.splitOn_append_cons, Text.splitOn_of_not_mem hname]
    simp only [directory, hdrop, hs]
    rw [hsplit, folders_concat]
    by_cases hdot : name.contains '.' = true
    · rw [if_pos hdot, if_pos hdot, List.append_nil, resolve]
    · rw [if_neg hdot, if_neg hdot, resolve, hsplit]

/-- The slashes in front, which are not part of the directory, are fields that lead nowhere. -/
theorem resolve_directory (page : Text) :
    resolve (directory page) = walk [] (folders (Text.splitOn '/' page)) := by
  induction page with
  | nil => rfl
  | cons c page ih =>
    by_cases hc : c = '/'
    · have hfields : Text.splitOn '/' ('/' :: page) = [[]] ++ Text.splitOn '/' page := rfl
      have hdir : directory ('/' :: page) = directory page := rfl
      rw [hc, hdir, ih, hfields, folders_append _ (Text.splitOn_ne_nil '/' page)]
      rfl
    · exact resolve_directory_of_head (by simpa using hc)

theorem Respelling.resolve_directory_eq {page page' : Text} (h : Respelling page page') :
    resolve (directory page') = resolve (directory page) := by
  obtain ⟨before, idle, after, hpage, hpage', hafter, hidle⟩ := h.exists_fields
  rw [resolve_directory, resolve_directory, hpage, hpage', folders_append _ hafter,
    folders_append _ hafter, walk_idle hidle]

theorem Respelling.ne_nil {path path' : Text} (h : Respelling path path') : path' ≠ [] := by
  cases h with
  | slash => exact List.cons_ne_nil '/' path
  | detour hdetour before after => simp

theorem Respelling.endsWith_iff {path path' : Text} (h : Respelling path path') (hne : path ≠ []) :
    path'.endsWith "/" = true ↔ path.endsWith "/" = true := by
  rw [Text.endsWith_slash, Text.endsWith_slash]
  cases h with
  | slash =>
    obtain ⟨c, t, rfl⟩ := List.exists_cons_of_ne_nil hne
    rw [List.getLast?_cons_cons]
  | detour hdetour before after => rw [List.getLast?_append_cons, List.getLast?_append_cons]

theorem relative_respelling_page {page page' : Text} (h : Respelling page page') (target : Text) :
    relative target page' = relative target page := by
  simp only [relative, h.resolve_directory_eq]

theorem relative_respelling_target {target target' : Text} (h : Respelling target target')
    (hne : target ≠ []) (page : Text) : relative target' page = relative target page := by
  simp only [relative, h.resolve_eq, h.endsWith_iff hne]

/-- However a page and a target that is not empty are spelled, the relative spelling is the same. -/
theorem relative_respelled {target target' page page' : Text} (hne : target ≠ [])
    (htarget : Relation.ReflTransGen Respelling target target')
    (hpage : Relation.ReflTransGen Respelling page page') :
    relative target' page' = relative target page := by
  have hpages : ∀ t, relative t page' = relative t page := by
    intro t
    induction hpage with
    | refl => rfl
    | tail _ hstep ih => rw [relative_respelling_page hstep, ih]
  have htargets : target' ≠ [] ∧ relative target' page = relative target page := by
    induction htarget with
    | refl => exact ⟨hne, rfl⟩
    | tail _ hstep ih =>
      have hsame := relative_respelling_target hstep ih.1 page
      exact ⟨hstep.ne_nil, hsame.trans ih.2⟩
  rw [hpages, htargets.2]

/-- A directory and a document, each with a slash in front and detours at the first and the last
slash, some of them by names with dots. -/
theorem relative_respelled_theme :
    let target : Text := "css/theme/"
    let page : Text := "guide/install.html"
    let target' : Text := "/v1.0/../css/theme/./"
    let page' : Text := "//guide/v1.0/../install.html"
    target ≠ [] ∧ Relation.ReflTransGen Respelling target target' ∧
      Relation.ReflTransGen Respelling page page' ∧
      relative target' page' = relative target page ∧ relative target page = "../css/theme/" := by
  intro target page target' page'
  have hname : IsName "v1.0" := ⟨by decide, by decide, by decide, by decide⟩
  have htarget : Relation.ReflTransGen Respelling target target' :=
    .tail (.tail (.single (.slash target)) (.detour (.name hname) [] target))
      (.detour .dot "/v1.0/../css/theme" [])
  have hpage : Relation.ReflTransGen Respelling page page' :=
    .tail (.tail (.single (.slash page)) (.detour .nothing [] page))
      (.detour (.name hname) "//guide" "install.html")
  have hne : target ≠ [] := by decide
  exact ⟨hne, htarget, hpage, relative_respelled hne htarget hpage, by decide⟩

end StaticSite.SitePath
