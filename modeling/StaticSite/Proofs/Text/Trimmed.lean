import Mathlib.Data.List.DropRight
import StaticSite.Text.Blank

/-! Texts without their last characters, and trimmed texts. -/

namespace StaticSite.Text

theorem dropEnd_eq (p : Char → Bool) (t : Text) : dropEnd p t = t.rdropWhile p := rfl

theorem dropEnd_concat_append {p : Char → Bool} {c : Char} (hc : p c = false) (u r : Text) :
    dropEnd p (u ++ [c] ++ r) = u ++ [c] ++ dropEnd p r := by
  have hkept : ¬ p c = true := by rw [hc]; exact Bool.false_ne_true
  induction r using List.reverseRecOn with
  | nil =>
    rw [List.append_nil, dropEnd_eq, List.rdropWhile_concat_neg p u c hkept]
    exact (List.append_nil _).symm
  | append_singleton r d ih =>
    rw [← List.append_assoc]
    by_cases hd : p d = true
    · rw [dropEnd_eq, List.rdropWhile_concat_pos p _ d hd, ← dropEnd_eq, ih,
        dropEnd_eq p (r ++ [d]), List.rdropWhile_concat_pos p r d hd, ← dropEnd_eq]
    · rw [dropEnd_eq, List.rdropWhile_concat_neg p _ d hd, dropEnd_eq,
        List.rdropWhile_concat_neg p r d hd, List.append_assoc]

theorem dropEnd_append {p : Char → Bool} {r : Text} (h : ∀ c ∈ r, p c = true) (t : Text) :
    dropEnd p (t ++ r) = dropEnd p t := by
  have hr : ∀ c ∈ r.reverse, p c = true := fun c hc => h c (List.mem_reverse.mp hc)
  rw [dropEnd, List.reverse_append, List.dropWhile_append_of_pos hr, dropEnd]

theorem dropEnd_of_not_mem {c : Char} {t : Text} (h : c ∉ t) : dropEnd (· == c) t = t := by
  rw [dropEnd_eq, List.rdropWhile_eq_self_iff]
  intro hne hlast
  exact h (beq_iff_eq.mp hlast ▸ List.getLast_mem hne)

theorem all_dropEnd_iff {p q : Char → Bool} (h : ∀ c, p c = true → q c = true) (t : Text) :
    (dropEnd p t).all q = true ↔ t.all q = true := by
  have ht : dropEnd p t ++ t.rtakeWhile p = t := List.rdropWhile_append_rtakeWhile ..
  have htail : (t.rtakeWhile p).all q = true :=
    List.all_eq_true.mpr fun c hc => h c (List.mem_rtakeWhile_imp hc)
  conv_rhs => rw [← ht, List.all_append, htail, Bool.and_true]

theorem trim_cons_of_blank {c : Char} (hc : isBlank c = true) (t : Text) :
    trim (c :: t) = trim t := by
  simp [trim, dropEnds, dropStart, hc]

@[simp] theorem trim_eq_nil_iff {t : Text} : trim t = [] ↔ isBlankText t = true := by
  rw [trim, dropEnds, dropStart, dropEnd_eq, List.rdropWhile_eq_nil_iff, isBlankText,
    List.all_eq_true]
  constructor
  · intro h c hc
    rw [← List.takeWhile_append_dropWhile (p := isBlank) (l := t), List.mem_append] at hc
    rcases hc with hc | hc
    · exact List.mem_takeWhile_imp hc
    · exact h c hc
  · intro h c hc
    exact h c ((List.dropWhile_suffix _).subset hc)

theorem trim_append_of_blank {r : Text} (h : isBlankText r = true) (t : Text) :
    trim (t ++ r) = trim t := by
  have hr : ∀ c ∈ r, isBlank c = true := List.all_eq_true.mp h
  by_cases ht : isBlankText t = true
  · have hboth : isBlankText (t ++ r) = true := by
      rw [isBlankText, List.all_append, Bool.and_eq_true]
      exact ⟨ht, h⟩
    rw [trim_eq_nil_iff.mpr hboth, trim_eq_nil_iff.mpr ht]
  · have hstart : dropStart isBlank (t ++ r) = dropStart isBlank t ++ r := by
      have hne : ¬ (t.dropWhile isBlank).isEmpty = true := by
        rw [List.isEmpty_iff, List.dropWhile_eq_nil_iff]
        exact fun hall => ht (List.all_eq_true.mpr hall)
      rw [dropStart, List.dropWhile_append, if_neg hne, dropStart]
    rw [trim, dropEnds, hstart, dropEnd_append hr, trim, dropEnds]

/-- A trimmed text is trimmed at both ends. -/
theorem ends_of_trim_eq {t : Text} (h : trim t = t) :
    (∀ c, t.head? = some c → isBlank c = false) ∧
      ∀ c, t.getLast? = some c → isBlank c = false := by
  have hstart : dropStart isBlank t = t := by
    have hlength : (trim t).length ≤ (dropStart isBlank t).length :=
      (List.rdropWhile_prefix ..).length_le
    rw [h] at hlength
    exact (List.dropWhile_suffix _).eq_of_length_le hlength
  have hend : dropEnd isBlank t = t := by
    rw [trim, dropEnds, hstart] at h
    exact h
  refine ⟨?_, ?_⟩
  · intro c hc
    have hhead := List.head?_dropWhile_not isBlank t
    rw [dropStart] at hstart
    rw [hstart, hc] at hhead
    simpa using hhead
  · intro c hc
    have hlast := List.rdropWhile_eq_self_iff.mp hend (by rintro rfl; cases hc)
    rw [List.getLast?_eq_some_getLast (by rintro rfl; cases hc)] at hc
    rw [Option.some.inj hc] at hlast
    simpa using hlast

end StaticSite.Text
