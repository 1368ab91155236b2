import StaticSite.Text.Basic

/-! Texts as fields between separators. Splitting and joining undo each other
on fields without separators, and joined fields start and end as those do. A
span is the longest start of a text that passes a test, and what is left. -/

namespace StaticSite.Text

theorem splitOn_eq (sep : Char) (t : Text) : splitOn sep t = List.splitOn sep t := by
  induction t with
  | nil => rfl
  | cons c t ih =>
    rw [splitOn, List.splitOn_cons_eq_if_modifyHead, ih]
    by_cases h : c = sep
    · simp [h]
    · cases hs : List.splitOn sep t with
      | nil => exact absurd hs (List.splitOn_ne_nil sep t)
      | cons field fields => simp [h]

theorem joinWith_eq (sep : Char) (fields : List Text) :
    joinWith sep fields = [sep].intercalate fields := by
  induction fields with
  | nil => rfl
  | cons field fields ih =>
    cases fields with
    | nil => simp
    | cons g fields =>
      rw [joinWith_cons_cons, ih, List.intercalate_cons_cons, List.append_assoc,
        List.singleton_append]

theorem joinWith_concat {sep : Char} {fields : List Text} (h : fields ≠ []) (field : Text) :
    joinWith sep (fields ++ [field]) = joinWith sep fields ++ sep :: field := by
  induction fields with
  | nil => exact absurd rfl h
  | cons f fields ih =>
    cases fields with
    | nil => rfl
    | cons g fields => simpa using ih (by simp)

/-- Joined fields end with what is written behind the last of them. -/
theorem joinWith_concat_append (sep : Char) (fields : List Text) (field tail : Text) :
    joinWith sep (fields ++ [field]) ++ tail = joinWith sep (fields ++ [field ++ tail]) := by
  by_cases h : fields = []
  · subst h
    rfl
  · rw [joinWith_concat h, joinWith_concat h, List.append_assoc, List.cons_append]

@[simp] theorem splitOn_append_cons (sep : Char) (s t : Text) :
    splitOn sep (s ++ sep :: t) = splitOn sep s ++ splitOn sep t := by
  simp only [splitOn_eq, List.splitOn_append_cons_self]

theorem splitOn_of_not_mem {sep : Char} {t : Text} (h : sep ∉ t) : splitOn sep t = [t] := by
  rw [splitOn_eq, List.splitOn_eq_singleton h]

theorem splitOn_joinWith {sep : Char} {fields : List Text} (hne : fields ≠ [])
    (h : ∀ f ∈ fields, sep ∉ f) : splitOn sep (joinWith sep fields) = fields := by
  rw [splitOn_eq, joinWith_eq]
  exact List.splitOn_intercalate sep h hne

theorem not_mem_of_mem_splitOn {sep : Char} {t field : Text} (h : field ∈ splitOn sep t) :
    sep ∉ field := by
  induction t generalizing field with
  | nil =>
    have hf : field = [] := by simpa using h
    simp [hf]
  | cons c t ih =>
    rw [splitOn] at h
    by_cases hc : c = sep
    · rw [if_pos hc] at h
      rcases List.mem_cons.mp h with rfl | h
      · simp
      · exact ih h
    · rw [if_neg hc] at h
      cases hs : splitOn sep t with
      | nil => simp at hs
      | cons first fields =>
        simp only [hs] at h ih
        rcases List.mem_cons.mp h with rfl | h
        · have hfirst : sep ∉ first := ih (by simp)
          simp [Ne.symm hc, hfirst]
        · exact ih (by simp [h])

theorem mem_joinWith {sep c : Char} {fields : List Text} (h : c ∈ joinWith sep fields) :
    c = sep ∨ ∃ f ∈ fields, c ∈ f := by
  induction fields with
  | nil => simp at h
  | cons f fields ih =>
    cases fields with
    | nil => exact .inr ⟨f, List.mem_cons_self, h⟩
    | cons g fields =>
      rw [joinWith_cons_cons, List.mem_append, List.mem_cons] at h
      rcases h with hf | hsep | hrest
      · exact .inr ⟨f, List.mem_cons_self, hf⟩
      · exact .inl hsep
      · rcases ih hrest with hsep | ⟨x, hx, hc⟩
        · exact .inl hsep
        · exact .inr ⟨x, List.mem_cons_of_mem f hx, hc⟩

theorem mem_of_mem_splitOn {sep c : Char} {t field : Text} (h : field ∈ splitOn sep t)
    (hc : c ∈ field) : c ∈ t := by
  induction t generalizing field with
  | nil =>
    rw [List.mem_singleton.mp h] at hc
    cases hc
  | cons d t ih =>
    rw [splitOn] at h
    by_cases hd : d = sep
    · rw [if_pos hd] at h
      rcases List.mem_cons.mp h with rfl | h
      · cases hc
      · exact List.mem_cons_of_mem d (ih h hc)
    · rw [if_neg hd] at h
      cases hs : splitOn sep t with
      | nil => simp at hs
      | cons first fields =>
        simp only [hs] at h ih
        rcases List.mem_cons.mp h with rfl | h
        · rcases List.mem_cons.mp hc with rfl | hc
          · exact List.mem_cons_self
          · exact List.mem_cons_of_mem d (ih List.mem_cons_self hc)
        · exact List.mem_cons_of_mem d (ih (List.mem_cons_of_mem first h) hc)

theorem joinWith_eq_nil_iff {sep : Char} {fields : List Text} (h : ∀ f ∈ fields, f ≠ []) :
    joinWith sep fields = [] ↔ fields = [] := by
  cases fields with
  | nil => simp
  | cons f fields =>
    have hf : f ≠ [] := h f (by simp)
    cases fields with
    | nil => simpa using hf
    | cons g fields => simp

theorem head?_joinWith_ne {sep : Char} {fields : List Text} (h : ∀ f ∈ fields, f ≠ [] ∧ sep ∉ f) :
    (joinWith sep fields).head? ≠ some sep := by
  cases fields with
  | nil => simp
  | cons f fields =>
    obtain ⟨hf, hsep⟩ := h f (by simp)
    obtain ⟨c, t, rfl⟩ := List.exists_cons_of_ne_nil hf
    have hc : c ≠ sep := fun hc => hsep (by simp [hc])
    cases fields with
    | nil => simpa using hc
    | cons g fields => simpa using hc

theorem getLast?_joinWith_ne {sep : Char} {fields : List Text}
    (h : ∀ f ∈ fields, f ≠ [] ∧ sep ∉ f) : (joinWith sep fields).getLast? ≠ some sep := by
  induction fields with
  | nil => simp
  | cons f fields ih =>
    obtain ⟨hf, hsep⟩ := h f (by simp)
    cases fields with
    | nil =>
      intro hl
      exact hsep (List.mem_of_getLast? hl)
    | cons g fields =>
      have hrest := ih (fun x hx => h x (List.mem_cons_of_mem f hx))
      have hne : joinWith sep (g :: fields) ≠ [] := by
        rw [Ne, joinWith_eq_nil_iff fun x hx => (h x (List.mem_cons_of_mem f hx)).1]
        simp
      obtain ⟨c, t, ht⟩ := List.exists_cons_of_ne_nil hne
      rw [ht] at hrest
      simpa [ht] using hrest

@[simp] theorem splitLast?_eq_none_iff {sep : Char} {t : Text} :
    splitLast? sep t = none ↔ sep ∉ t := by
  induction t with
  | nil => simp [splitLast?]
  | cons c t ih =>
    rw [splitLast?]
    cases hs : splitLast? sep t with
    | none =>
      have ht : sep ∉ t := ih.mp hs
      by_cases hc : c = sep
      · simp [hc]
      · simp [hc, Ne.symm hc, ht]
    | some parts =>
      have ht : sep ∈ t := by
        by_cases h : sep ∈ t
        · exact h
        · simp [ih.mpr h] at hs
      simp [ht]

theorem splitLast?_eq_some_iff {sep : Char} {t before after : Text} :
    splitLast? sep t = some (before, after) ↔ t = before ++ sep :: after ∧ sep ∉ after := by
  constructor
  · intro h
    induction t generalizing before with
    | nil => simp [splitLast?] at h
    | cons c t ih =>
      rw [splitLast?] at h
      cases hs : splitLast? sep t with
      | none =>
        have ht : sep ∉ t := splitLast?_eq_none_iff.mp hs
        simp only [hs, Option.ite_none_right_eq_some, Option.some.injEq, Prod.mk.injEq] at h
        obtain ⟨hc, rfl, rfl⟩ := h
        exact ⟨by simp [hc], ht⟩
      | some parts =>
        obtain ⟨b, a⟩ := parts
        simp only [hs, Option.some.injEq, Prod.mk.injEq] at h
        obtain ⟨rfl, rfl⟩ := h
        obtain ⟨ht, hsep⟩ := ih hs
        exact ⟨by simp [ht], hsep⟩
  · rintro ⟨rfl, h⟩
    induction before with
    | nil => simp [splitLast?, splitLast?_eq_none_iff.mpr h]
    | cons c before ih => simp [splitLast?, ih]

theorem splitFirst?_eq_some_iff {sep : Char} {t before after : Text} :
    splitFirst? sep t = some (before, after) ↔ t = before ++ sep :: after ∧ sep ∉ before := by
  constructor
  · intro h
    induction t generalizing before with
    | nil => simp [splitFirst?] at h
    | cons c t ih =>
      rw [splitFirst?] at h
      by_cases hc : c = sep
      · simp only [hc, if_true, Option.some.injEq, Prod.mk.injEq] at h
        obtain ⟨rfl, rfl⟩ := h
        simp [hc]
      · rw [if_neg hc] at h
        obtain ⟨⟨b, a⟩, hs, he⟩ := Option.map_eq_some_iff.mp h
        simp only [Prod.mk.injEq] at he
        obtain ⟨rfl, rfl⟩ := he
        obtain ⟨ht, hsep⟩ := ih hs
        exact ⟨by simp [ht], by simp [Ne.symm hc, hsep]⟩
  · rintro ⟨rfl, h⟩
    induction before with
    | nil => simp [splitFirst?]
    | cons c before ih =>
      have hc : c ≠ sep := fun he => h (by simp [he])
      have hbefore : sep ∉ before := fun he => h (by simp [he])
      simp [splitFirst?, hc, ih hbefore]

/-- What follows the first of some joined fields is nothing or starts with a separator. -/
theorem exists_joinWith_cons (sep : Char) (f : Text) (fields : List Text) :
    ∃ r, joinWith sep (f :: fields) = f ++ r ∧ ∀ c, r.head? = some c → c = sep := by
  cases fields with
  | nil => exact ⟨[], by simp, by simp⟩
  | cons g fields => exact ⟨sep :: joinWith sep (g :: fields), rfl, by simp [eq_comm]⟩

theorem endsWith_iff {t tail : Text} : t.endsWith tail = true ↔ tail <:+ t := by
  rw [endsWith, List.isSuffixOf_iff_suffix]

/-- A tail without separators is one of the last field. -/
theorem endsWith_append_cons {sep : Char} {tail : Text} (h : sep ∉ tail) (s t : Text) :
    (s ++ sep :: t).endsWith tail = true ↔ t.endsWith tail = true := by
  rw [endsWith_iff, endsWith_iff]
  constructor
  · intro htail
    have hlast : sep :: t <:+ s ++ sep :: t := List.suffix_append s (sep :: t)
    rcases List.suffix_or_suffix_of_suffix htail hlast with hs | hs
    · rcases List.suffix_cons_iff.mp hs with rfl | hs
      · exact absurd List.mem_cons_self h
      · exact hs
    · exact absurd (hs.subset List.mem_cons_self) h
  · intro htail
    exact htail.trans ((List.suffix_cons sep t).trans (List.suffix_append s (sep :: t)))

-- On the way up `simp` would have spelled out the literals of these two as lists already.
@[simp ↓] theorem startsWith_slash (t : Text) : t.startsWith "/" = true ↔ t.head? = some '/' := by
  simp [startsWith, List.singleton_prefix_iff_head?_eq_some]

@[simp ↓] theorem endsWith_slash (t : Text) : t.endsWith "/" = true ↔ t.getLast? = some '/' := by
  simp [endsWith, List.singleton_suffix_iff_getLast?_eq_some]

/-- Fields without slashes are joined to a text that has none at its end. -/
theorem not_endsWith_joinWith {fields : List Text} (h : ∀ f ∈ fields, f ≠ [] ∧ '/' ∉ f) :
    ¬ (joinWith '/' fields).endsWith "/" = true := by
  simpa using getLast?_joinWith_ne h

theorem dropEnds_isSlash {t : Text} (hfirst : t.head? ≠ some '/') (hlast : t.getLast? ≠ some '/') :
    dropEnds isSlash t = t := by
  have hdrop : ∀ s : Text, s.head? ≠ some '/' → s.dropWhile isSlash = s := by
    intro s hs
    cases s with
    | nil => rfl
    | cons c s =>
      have hc : isSlash c = false := by simpa [isSlash] using hs
      rw [List.dropWhile_cons_of_neg (by simp [hc])]
  have hrev : t.reverse.head? ≠ some '/' := by rwa [List.head?_reverse]
  rw [dropEnds, dropStart, hdrop t hfirst, dropEnd, hdrop t.reverse hrev, List.reverse_reverse]

theorem span_iff {p : Char → Bool} {t a b : Text} :
    t.takeWhile p = a ∧ t.dropWhile p = b ↔
      t = a ++ b ∧ (∀ c ∈ a, p c = true) ∧ ∀ c, b.head? = some c → p c = false := by
  constructor
  · rintro ⟨rfl, rfl⟩
    refine ⟨List.takeWhile_append_dropWhile.symm, ?_, ?_⟩
    · exact List.all_eq_true.mp List.all_takeWhile
    · intro c hc
      have hhead := List.head?_dropWhile_not p t
      rw [hc] at hhead
      simpa using hhead
  · rintro ⟨rfl, ha, hb⟩
    have hrest : b.takeWhile p = [] ∧ b.dropWhile p = b := by
      cases b with
      | nil => simp
      | cons c b => simp [hb c rfl]
    rw [List.takeWhile_append_of_pos ha, List.dropWhile_append_of_pos ha, hrest.1, hrest.2]
    simp

theorem append_inj_of_span {p : Char → Bool} {a b a' b' : Text} (ha : ∀ c ∈ a, p c = true)
    (ha' : ∀ c ∈ a', p c = true) (hb : ∀ c, b.head? = some c → p c = false)
    (hb' : ∀ c, b'.head? = some c → p c = false) (h : a ++ b = a' ++ b') : a = a' ∧ b = b' := by
  obtain ⟨htake, hdrop⟩ := span_iff.mpr ⟨rfl, ha, hb⟩
  obtain ⟨htake', hdrop'⟩ := span_iff.mpr ⟨h, ha', hb'⟩
  exact ⟨htake.symm.trans htake', hdrop.symm.trans hdrop'⟩

theorem not_mem_takeWhile_ne (m : Char) (t : Text) : m ∉ t.takeWhile (· ≠ m) := by
  intro hm
  obtain ⟨_, hne, _⟩ := span_iff.mp ⟨(rfl : t.takeWhile (· ≠ m) = _), rfl⟩
  simpa using hne m hm

theorem span_ne {m : Char} {t : Text} (h : m ∉ t) (rest : Text) :
    (t ++ m :: rest).takeWhile (· ≠ m) = t ∧ (t ++ m :: rest).dropWhile (· ≠ m) = m :: rest := by
  refine span_iff.mpr ⟨rfl, ?_, ?_⟩
  · intro c hc
    simpa using fun he : c = m => h (he ▸ hc)
  · simp

end StaticSite.Text
