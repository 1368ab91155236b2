import StaticSite.Page.Reading
import StaticSite.Proofs.SitePath.Normal

/-! Normalized paths on a disk. Seen from a directory they are names that lead
down from it, so no page is read from outside the directory of the sources. -/

namespace StaticSite

namespace Path

open SitePath (IsPlace normalize resolve)

/-- The names of a path as it is written, dot segments among them. -/
def names (path : Text) : List Text := (Text.splitOn '/' path).filter (· ≠ [])

/-- As it is written, a path starts from a directory and only leads down from there. -/
structure IsBelow (dir path : Text) : Prop where
  isAbsolute : Path.isAbsolute path = Path.isAbsolute dir
  names : ∃ place, IsPlace place ∧ names path = names dir ++ place

@[simp] theorem names_nil : names [] = [] := rfl

@[simp] theorem names_append_slash (a b : Text) : names (a ++ '/' :: b) = names a ++ names b := by
  simp [names]

@[simp] theorem names_normalize (path : Text) : names (normalize path) = resolve path := by
  by_cases h : resolve path = []
  · rw [SitePath.normalize_of_root h, h, names_nil]
  · have hplain : (resolve path).filter (· ≠ []) = resolve path :=
      List.filter_eq_self.mpr fun s hs => by simpa using (SitePath.resolve_isPlace path s hs).ne_nil
    have hend : (if path.endsWith "/" then [([] : Text)] else []).filter (· ≠ []) = [] := by
      split <;> rfl
    rw [names, SitePath.splitOn_normalize h, List.filter_append, hplain, hend, List.append_nil]

theorem isAbsolute_append {a : Text} (h : a ≠ []) (b : Text) :
    isAbsolute (a ++ b) = isAbsolute a := by
  obtain ⟨c, t, rfl⟩ := List.exists_cons_of_ne_nil h
  rw [Bool.eq_iff_iff, isAbsolute, isAbsolute]
  simp

@[simp] theorem not_isAbsolute_normalize (path : Text) : ¬ isAbsolute (normalize path) = true :=
  (SitePath.isCanonical_normalize path).relative

theorem names_join (dir path : Text) :
    names (join dir (normalize path)) = names dir ++ resolve path := by
  rw [join, if_neg (not_isAbsolute_normalize path), ← names_normalize path]
  by_cases hdir : dir = [] ∨ dir.endsWith "/" = true
  · rw [if_pos hdir]
    rcases hdir with rfl | hslash
    · rfl
    · -- the slash that ends the directory stands between the two
      obtain ⟨d, rfl⟩ := List.getLast?_eq_some_iff.mp ((Text.endsWith_slash dir).mp hslash)
      have hd : names (d ++ ['/']) = names d := by simp
      rw [hd, List.append_assoc]
      exact names_append_slash d _
  · rw [if_neg hdir, List.append_assoc]
    exact names_append_slash dir _

theorem isAbsolute_join (dir path : Text) :
    isAbsolute (join dir (normalize path)) = isAbsolute dir := by
  rw [join, if_neg (not_isAbsolute_normalize path)]
  by_cases hnil : dir = []
  · rw [if_pos (.inl hnil), hnil]
    exact Bool.eq_false_iff.mpr (not_isAbsolute_normalize path)
  · split
    · exact isAbsolute_append hnil _
    · rw [List.append_assoc, isAbsolute_append hnil]

theorem isBelow_join (dir path : Text) : IsBelow dir (join dir (normalize path)) :=
  ⟨isAbsolute_join dir path, resolve path, SitePath.resolve_isPlace path, names_join dir path⟩

end Path

namespace Page

/-- The page that comes of what a disk answers for its source. -/
def ofAnswer (env : Environment) (docs source : Text) (style : UrlStyle)
    (answer : Except FileFault Text) : Except PageError Page :=
  (answer.map (ofText (Registry.reading env) source · style)).mapError
    (PageError.ofFault (Path.join docs (SitePath.normalize source)))

theorem read_eq (disk : Disk) (env : Environment) (docs source : Text) (style : UrlStyle) :
    read disk env docs source style =
      ofAnswer env docs source style (disk.text (Path.join docs (SitePath.normalize source))) := by
  rw [read]
  cases disk.text (Path.join docs (SitePath.normalize source)) with
  | ok text => rfl
  | error fault => rfl

end Page

namespace SitePath

/-- Normalizing gives the canonical form of a path, and leaves just the paths of that form as they
are, so a second time changes nothing. In front of a further path a path counts only for its
canonical form. A page is what comes of the answer of the disk for one file, and that file lies
below the directory of the sources. -/
theorem normalize_laws (path : Text) :
    IsCanonical (normalize path) ∧
    (normalize path = path ↔ IsCanonical path) ∧
    normalize (normalize path) = normalize path ∧
    (∀ rest, normalize (path ++ "/" ++ rest) = normalize (normalize path ++ "/" ++ rest)) ∧
    ∀ docs env style, Path.IsBelow docs (Path.join docs (normalize path)) ∧
      ∀ disk, Page.read disk env docs path style =
        Page.ofAnswer env docs path style (disk.text (Path.join docs (normalize path))) := by
  refine ⟨isCanonical_normalize path, ?_, normalize_normalize path, ?_, ?_⟩
  · rw [normalize_eq_self_iff, isCanonical_iff]
  · intro rest
    simpa using normalize_append_slash path rest
  · intro docs env style
    exact ⟨Path.isBelow_join docs path, fun disk => Page.read_eq disk env docs path style⟩

end SitePath

end StaticSite
