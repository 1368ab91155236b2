import StaticSite.Proofs.Link.Backslashes
import StaticSite.Proofs.Link.Settled

/-! Links that are left as they are, by how they begin, and the two parts of
all other links. A colon only ends a scheme if everything before it belongs to
one, so it does not matter that it is searched for in the whole link. -/

namespace StaticSite.Link

/-- A letter, then letters, digits, plus and minus signs and dots. -/
inductive IsScheme : Text → Prop
  | letter {c : Char} (h : c.isAlpha) : IsScheme [c]
  | concat {s : Text} {c : Char} (hs : IsScheme s) (hc : c.isAlphanum ∨ c ∈ ['+', '-', '.']) :
      IsScheme (s ++ [c])

/-- Texts that begin as no link to a place of the site does. -/
inductive Refused : Text → Prop
  | empty : Refused []
  | fragment (t : Text) : Refused ('#' :: t)
  | query (t : Text) : Refused ('?' :: t)
  | host (t : Text) : Refused ('/' :: '/' :: t)
  | scheme {s : Text} (hs : IsScheme s) (t : Text) : Refused (s ++ ':' :: t)

theorem isScheme_iff (s : Text) :
    IsScheme s ↔
      ∃ c rest, s = c :: rest ∧ c.isAlpha = true ∧ ∀ d ∈ rest, isSchemeChar d = true := by
  have hchar : ∀ d : Char, isSchemeChar d = true ↔ d.isAlphanum ∨ d ∈ ['+', '-', '.'] := by
    intro d
    simp [isSchemeChar, or_assoc]
  constructor
  · intro h
    induction h with
    | letter h => exact ⟨_, [], rfl, h, by simp⟩
    | @concat s d hs hd ih =>
      obtain ⟨c, rest, rfl, hc, hrest⟩ := ih
      refine ⟨c, rest ++ [d], rfl, hc, ?_⟩
      intro x hx
      rcases List.mem_append.mp hx with hx | hx
      · exact hrest x hx
      · rw [List.mem_singleton.mp hx]
        exact (hchar d).mpr hd
  · rintro ⟨c, rest, rfl, hc, hrest⟩
    induction rest using List.reverseRecOn with
    | nil => exact .letter hc
    | append_singleton rest d ih =>
      have hs := ih fun x hx => hrest x (List.mem_append_left _ hx)
      exact .concat hs ((hchar d).mp (hrest d (by simp)))

theorem hasScheme_iff_isScheme (link : Text) :
    hasScheme link = true ↔ ∃ s t, link = s ++ ':' :: t ∧ IsScheme s := by
  rw [hasScheme_iff]
  constructor
  · rintro ⟨c, rest, t, rfl, hc, hrest⟩
    exact ⟨c :: rest, t, rfl, (isScheme_iff _).mpr ⟨c, rest, rfl, hc, hrest⟩⟩
  · rintro ⟨s, t, rfl, hs⟩
    obtain ⟨c, rest, rfl, hc, hrest⟩ := (isScheme_iff s).mp hs
    exact ⟨c, rest, t, rfl, hc, hrest⟩

theorem isExternal_iff (link : Text) :
    isExternal link = true ↔
      (∃ t, link = '/' :: '/' :: t) ∨ ∃ s t, link = s ++ ':' :: t ∧ IsScheme s := by
  rw [isExternal, Bool.or_eq_true, hasScheme_iff_isScheme, Text.startsWith,
    List.isPrefixOf_iff_prefix]
  constructor
  · rintro (⟨t, rfl⟩ | h)
    · exact .inl ⟨t, rfl⟩
    · exact .inr h
  · rintro (⟨t, rfl⟩ | h)
    · exact .inl ⟨t, rfl⟩
    · exact .inr h

@[simp] theorem isSuffixStart_iff (c : Char) : isSuffixStart c = true ↔ c = '?' ∨ c = '#' := by
  simp [isSuffixStart]

/-- Links without a path are nothing, or a suffix and nothing else. -/
theorem takeWhile_eq_nil_iff (link : Text) :
    link.takeWhile (!isSuffixStart ·) = [] ↔
      link = [] ∨ (∃ t, link = '#' :: t) ∨ ∃ t, link = '?' :: t := by
  cases link with
  | nil => simp
  | cons c t =>
    by_cases hc : isSuffixStart c = true
    · rcases (isSuffixStart_iff c).mp hc with rfl | rfl <;> simp [hc]
    · have hne := (isSuffixStart_iff c).not.mp hc
      rw [not_or] at hne
      simp [hc, hne.1, hne.2]

theorem refused_iff (link : Text) :
    Refused link ↔ isExternal link = true ∨ link.takeWhile (!isSuffixStart ·) = [] := by
  rw [isExternal_iff, takeWhile_eq_nil_iff]
  constructor
  · intro h
    cases h with
    | empty => exact .inr (.inl rfl)
    | fragment t => exact .inr (.inr (.inl ⟨t, rfl⟩))
    | query t => exact .inr (.inr (.inr ⟨t, rfl⟩))
    | host t => exact .inl (.inl ⟨t, rfl⟩)
    | scheme hs t => exact .inl (.inr ⟨_, t, rfl, hs⟩)
  · rintro ((⟨t, rfl⟩ | ⟨s, t, rfl, hs⟩) | rfl | ⟨t, rfl⟩ | ⟨t, rfl⟩)
    · exact .host t
    · exact .scheme hs t
    · exact .empty
    · exact .fragment t
    · exact .query t

/-- A link with a slash for each backslash that is read before its suffix starts. -/
def turnSlashes : Text → Text
  | [] => []
  | c :: t =>
    if c = '?' ∨ c = '#' then c :: t
    else if c = '\\' then '/' :: turnSlashes t
    else c :: turnSlashes t

theorem withSlashes_cons_of_start {c : Char} (h : isSuffixStart c = true) (t : Text) :
    withSlashes (c :: t) = c :: t := by
  simp [withSlashes, h]

theorem withSlashes_cons_of_not_start {c : Char} (h : ¬ isSuffixStart c = true) (t : Text) :
    withSlashes (c :: t) = slashed c :: withSlashes t := by
  simp [withSlashes, h]

theorem turnSlashes_eq (link : Text) : turnSlashes link = withSlashes link := by
  induction link with
  | nil => rfl
  | cons c t ih =>
    by_cases hstart : isSuffixStart c = true
    · rw [turnSlashes, if_pos ((isSuffixStart_iff c).mp hstart), withSlashes_cons_of_start hstart]
    · rw [turnSlashes, if_neg ((isSuffixStart_iff c).not.mp hstart), ih,
        withSlashes_cons_of_not_start hstart]
      by_cases hback : c = '\\'
      · rw [if_pos hback, slashed, if_pos hback]
      · rw [if_neg hback, slashed_of_ne hback]

/-- A path and a suffix that are together a link with slashes for the backslashes of its path. -/
structure IsSplit (link path suffix : Text) : Prop where
  path_ne_nil : path ≠ []
  path_chars : ∀ c ∈ path, c ≠ '?' ∧ c ≠ '#' ∧ c ≠ '\\'
  suffix_start : suffix = [] ∨ suffix.startsWith "?" ∨ suffix.startsWith "#"
  joined : path ++ suffix = turnSlashes link

section

variable {link path suffix : Text}

theorem IsSplit.not_isSuffixStart (h : IsSplit link path suffix) :
    ∀ c ∈ path, (!isSuffixStart c) = true := by
  intro c hc
  have hplain := h.path_chars c hc
  simp [isSuffixStart, hplain.1, hplain.2.1]

theorem IsSplit.isSuffixStart_of_head (h : IsSplit link path suffix) :
    ∀ c, suffix.head? = some c → (!isSuffixStart c) = false := by
  intro c hc
  rcases h.suffix_start with rfl | hstart | hstart
  · cases hc
  all_goals
    obtain ⟨t, rfl⟩ := List.isPrefixOf_iff_prefix.mp hstart
    obtain rfl := Option.some.inj hc
    decide

theorem IsSplit.unique {path' suffix' : Text} (h : IsSplit link path suffix)
    (h' : IsSplit link path' suffix') : path = path' ∧ suffix = suffix' :=
  Text.append_inj_of_span h.not_isSuffixStart h'.not_isSuffixStart h.isSuffixStart_of_head
    h'.isSuffixStart_of_head (h.joined.trans h'.joined.symm)

theorem not_refused (h : ofText? link = some ⟨path, suffix⟩) : ¬ Refused link := by
  obtain ⟨⟨_, _, hsite⟩, hpath, _⟩ := ofText?_eq_some_iff.mp h
  rw [refused_iff, hsite]
  simpa using hpath

theorem exists_parts (h : ¬ Refused link) : ∃ path suffix, ofText? link = some ⟨path, suffix⟩ := by
  rw [refused_iff, not_or, Bool.not_eq_true] at h
  exact ⟨_, _, (ofText?_eq_some_iff_of_site h.1).mpr ⟨h.2, rfl, rfl⟩⟩

theorem isSplit_parts (h : ofText? link = some ⟨path, suffix⟩) : IsSplit link path suffix := by
  refine ⟨path_ne_nil h, ?_, ?_, ?_⟩
  · intro c hc
    obtain ⟨hplain, hback⟩ := path_chars h c hc
    have hstart := (isSuffixStart_iff c).not.mp (Bool.not_eq_true _ ▸ hplain)
    rw [not_or] at hstart
    exact ⟨hstart.1, hstart.2, hback⟩
  · cases suffix with
    | nil => exact .inl rfl
    | cons c t =>
      rcases (isSuffixStart_iff c).mp (suffix_head h c rfl) with rfl | rfl
      · exact .inr (.inl rfl)
      · exact .inr (.inr rfl)
  · obtain ⟨_, _, rfl, rfl⟩ := ofText?_eq_some_iff.mp h
    exact (turnSlashes_eq link).symm

end

/-- Taking a link apart refuses nothing but the texts that the grammar refuses, and of all others
it gives the one path and suffix that they are, so nothing of them is lost. -/
theorem ofText?_grammar (link : Text) :
    (ofText? link = none ↔ Refused link) ∧
      ∀ path suffix, ofText? link = some ⟨path, suffix⟩ ↔
        ¬ Refused link ∧ IsSplit link path suffix := by
  constructor
  · constructor
    · intro hnone
      by_contra hlink
      obtain ⟨path, suffix, hsome⟩ := exists_parts hlink
      rw [hnone] at hsome
      cases hsome
    · intro hlink
      rw [Option.eq_none_iff_forall_ne_some]
      intro parts hsome
      exact not_refused hsome hlink
  · intro path suffix
    constructor
    · intro h
      exact ⟨not_refused h, isSplit_parts h⟩
    · rintro ⟨hlink, hsplit⟩
      obtain ⟨path', suffix', h⟩ := exists_parts hlink
      obtain ⟨rfl, rfl⟩ := (isSplit_parts h).unique hsplit
      exact h

-- only the backslashes of the path are replaced, and these colons end no scheme
example : ofText? "guide\\page:1?a\\b:c" = some ⟨"guide/page:1", "?a\\b:c"⟩ := by decide

end StaticSite.Link
