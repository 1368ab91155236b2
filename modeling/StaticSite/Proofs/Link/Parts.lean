import StaticSite.Link.Basic
import StaticSite.Page.Url
import StaticSite.Proofs.Text.Separated

/-! Links taken apart. The path is what stands before the first question mark
or number sign, with slashes for backslashes, and the suffix is the rest. -/

namespace StaticSite.Link

theorem ofText?_eq_some_iff {link path suffix : Text} :
    ofText? link = some ⟨path, suffix⟩ ↔
      (link ≠ [] ∧ ¬ link.startsWith "#" ∧ isExternal link = false) ∧
        link.takeWhile (!isSuffixStart ·) ≠ [] ∧
        path = (link.takeWhile (!isSuffixStart ·)).map slashed ∧
        suffix = link.dropWhile (!isSuffixStart ·) := by
  have hsite : (link ≠ [] ∧ ¬ link.startsWith "#" ∧ isExternal link = false) ↔
      ¬ (link = [] ∨ link.startsWith "#" ∨ isExternal link) := by
    rw [not_or, not_or, Bool.not_eq_true (isExternal link)]
  rw [ofText?, hsite]
  by_cases h : link = [] ∨ link.startsWith "#" ∨ isExternal link
  · rw [if_pos h]
    constructor
    · intro he
      cases he
    · intro he
      exact absurd h he.1
  · rw [if_neg h]
    by_cases hpath : link.takeWhile (!isSuffixStart ·) = []
    · simp [hpath]
    · simp only [if_neg hpath, Option.some.injEq, Link.mk.injEq]
      constructor
      · rintro ⟨rfl, rfl⟩
        exact ⟨h, hpath, rfl, rfl⟩
      · rintro ⟨_, _, rfl, rfl⟩
        exact ⟨rfl, rfl⟩

theorem not_empty_of_path {link : Text} (h : link.takeWhile (!isSuffixStart ·) ≠ []) :
    link ≠ [] ∧ ¬ link.startsWith "#" := by
  refine ⟨?_, ?_⟩
  · rintro rfl
    exact h rfl
  · intro hstart
    obtain ⟨rest, rfl⟩ := List.isPrefixOf_iff_prefix.mp hstart
    exact h rfl

theorem ofText?_eq_some_iff_of_site {link path suffix : Text} (hsite : isExternal link = false) :
    ofText? link = some ⟨path, suffix⟩ ↔ link.takeWhile (!isSuffixStart ·) ≠ [] ∧
      path = (link.takeWhile (!isSuffixStart ·)).map slashed ∧
      suffix = link.dropWhile (!isSuffixStart ·) := by
  rw [ofText?_eq_some_iff]
  constructor
  · rintro ⟨_, hparts⟩
    exact hparts
  · intro hparts
    have hlink := not_empty_of_path hparts.1
    exact ⟨⟨hlink.1, hlink.2, hsite⟩, hparts⟩

theorem exists_parts_iff {link path suffix : Text} (h : ofText? link = some ⟨path, suffix⟩)
    (P : Text → Prop) :
    (∃ path' suffix', ofText? link = some ⟨path', suffix'⟩ ∧ P path') ↔ P path := by
  constructor
  · rintro ⟨path', suffix', he, hp⟩
    obtain ⟨rfl, rfl⟩ := Link.mk.inj (Option.some.inj (h.symm.trans he))
    exact hp
  · intro hp
    exact ⟨path, suffix, h, hp⟩

/-- Texts that may follow a segment: they start with a slash or a suffix, if at all. -/
def EndsSegment (t : Text) : Prop := ∀ c, t.head? = some c → c = '/' ∨ isSuffixStart c = true

theorem EndsSegment.append {a b : Text} (ha : EndsSegment a) (hb : EndsSegment b) :
    EndsSegment (a ++ b) := by
  intro c hc
  cases a with
  | nil => exact hb c hc
  | cons d a => exact ha c hc

theorem isSuffixStart_of_head {link : Text} {c : Char}
    (h : (link.dropWhile (!isSuffixStart ·)).head? = some c) : isSuffixStart c = true := by
  have hhead := List.head?_dropWhile_not (!isSuffixStart ·) link
  rw [h] at hhead
  simpa using hhead

theorem endsSegment_dropWhile (link : Text) : EndsSegment (link.dropWhile (!isSuffixStart ·)) :=
  fun _ hc => .inr (isSuffixStart_of_head hc)

theorem suffix_head {link path suffix : Text} (h : ofText? link = some ⟨path, suffix⟩) :
    ∀ c, suffix.head? = some c → isSuffixStart c = true := by
  obtain ⟨_, _, _, rfl⟩ := ofText?_eq_some_iff.mp h
  exact fun _ => isSuffixStart_of_head

theorem endsSegment_suffix {link path suffix : Text} (h : ofText? link = some ⟨path, suffix⟩) :
    EndsSegment suffix :=
  fun c hc => .inr (suffix_head h c hc)

theorem map_slashed_of_not_mem {t : Text} (h : '\\' ∉ t) : t.map slashed = t := by
  have hkept : ∀ c ∈ t, slashed c = id c := fun c hc => if_neg fun he : c = '\\' => h (he ▸ hc)
  rw [List.map_congr_left hkept, List.map_id]

theorem map_slashed_of_no_slash {t : Text} (h : '/' ∉ t.map slashed) : t.map slashed = t :=
  map_slashed_of_not_mem fun hc => h (List.mem_map.mpr ⟨'\\', hc, rfl⟩)

theorem endsWith_map_slashed {tail : Text} (hslash : '/' ∉ tail) (hback : '\\' ∉ tail) (t : Text) :
    Text.endsWith (t.map slashed) tail = t.endsWith tail := by
  have hiff : tail <:+ t.map slashed ↔ tail <:+ t := by
    rw [List.suffix_map_iff]
    constructor
    · rintro ⟨s, hs, rfl⟩
      rwa [map_slashed_of_no_slash hslash]
    · intro h
      exact ⟨tail, h, (map_slashed_of_not_mem hback).symm⟩
  rw [Text.endsWith, Text.endsWith, Bool.eq_iff_iff, List.isSuffixOf_iff_suffix,
    List.isSuffixOf_iff_suffix, hiff]

theorem isMarkdown_map_slashed (t : Text) :
    SitePath.isMarkdown (t.map slashed) = SitePath.isMarkdown t := by
  -- endings have no slashes of either kind
  have hends : ∀ e ∈ SitePath.markdownEndings, '/' ∉ e ∧ '\\' ∉ e := by decide
  rw [Bool.eq_iff_iff, SitePath.isMarkdown, SitePath.isMarkdown, List.any_eq_true,
    List.any_eq_true]
  constructor
  · rintro ⟨e, he, h⟩
    rw [endsWith_map_slashed (hends e he).1 (hends e he).2] at h
    exact ⟨e, he, h⟩
  · rintro ⟨e, he, h⟩
    rw [← endsWith_map_slashed (hends e he).1 (hends e he).2] at h
    exact ⟨e, he, h⟩

end StaticSite.Link
