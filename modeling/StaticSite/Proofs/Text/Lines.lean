import StaticSite.Proofs.Text.Separated
import StaticSite.Text.Blank
import StaticSite.Text.Lines

/-! Texts and their lines. Every line but the last one ends with the only line
feed that it has, and the lines determine the text. Carriage returns before the
line feeds leave the lines where they are. -/

namespace StaticSite.Text

/-- A line that has its line feed. -/
def EndsLine (line : Text) : Prop := ∃ u, line = u ++ ['\n'] ∧ '\n' ∉ u

theorem lines_append_cons {u : Text} (h : '\n' ∉ u) (t : Text) :
    lines (u ++ '\n' :: t) = (u ++ ['\n']) :: lines t := by
  induction u with
  | nil => simp
  | cons c u ih =>
    rw [List.mem_cons, not_or] at h
    rw [List.cons_append, lines, if_neg (Ne.symm h.1), ih h.2]
    rfl

theorem lines_of_not_mem {u : Text} (hne : u ≠ []) (h : '\n' ∉ u) : lines u = [u] := by
  induction u with
  | nil => exact absurd rfl hne
  | cons c u ih =>
    rw [List.mem_cons, not_or] at h
    rw [lines, if_neg (Ne.symm h.1)]
    by_cases hu : u = []
    · rw [hu, lines]
    · rw [ih hu h.2]

theorem lines_flatten_append {ls : List Text} (h : ∀ l ∈ ls, EndsLine l) (t : Text) :
    lines (ls.flatten ++ t) = ls ++ lines t := by
  induction ls with
  | nil => rfl
  | cons l ls ih =>
    rw [List.forall_mem_cons] at h
    obtain ⟨⟨u, rfl, hu⟩, hrest⟩ := h
    have hassoc : ((u ++ ['\n']) :: ls).flatten ++ t = u ++ '\n' :: (ls.flatten ++ t) := by simp
    rw [hassoc, lines_append_cons hu, ih hrest, List.cons_append]

theorem lines_eq_cons_iff {t line : Text} {after : List Text} :
    lines t = line :: after ↔ t = line ++ after.flatten ∧ lines after.flatten = after ∧
      (EndsLine line ∨ line ≠ [] ∧ '\n' ∉ line ∧ after = []) := by
  constructor
  · intro h
    by_cases hmem : '\n' ∈ t
    · obtain ⟨u, rest, rfl, hu⟩ := List.eq_append_cons_of_mem hmem
      rw [lines_append_cons hu] at h
      obtain ⟨rfl, rfl⟩ := List.cons.inj h
      rw [flatten_lines]
      exact ⟨by simp, rfl, .inl ⟨u, rfl, hu⟩⟩
    · have hne : t ≠ [] := by
        rintro rfl
        cases h
      rw [lines_of_not_mem hne hmem] at h
      obtain ⟨rfl, rfl⟩ := List.cons.inj h
      exact ⟨by simp, rfl, .inr ⟨hne, hmem, rfl⟩⟩
  · rintro ⟨rfl, hafter, ⟨u, rfl, hu⟩ | ⟨hne, hmem, rfl⟩⟩
    · have hassoc : (u ++ ['\n']) ++ after.flatten = u ++ '\n' :: after.flatten := by simp
      rw [hassoc, lines_append_cons hu, hafter]
    · rw [List.flatten_nil, List.append_nil, lines_of_not_mem hne hmem]

theorem mem_lines {t line : Text} (h : line ∈ lines t) : EndsLine line ∨ '\n' ∉ line := by
  induction hls : lines t generalizing t with
  | nil =>
    rw [hls] at h
    cases h
  | cons first after ih =>
    obtain ⟨_, hafter, hfirst⟩ := lines_eq_cons_iff.mp hls
    rw [hls] at h
    rcases List.mem_cons.mp h with rfl | h
    · exact hfirst.imp_right fun hlast => hlast.2.1
    · exact ih (by rwa [hafter]) hafter

theorem lines_cons_of_ne {c : Char} (hc : c ≠ '\n') {t line : Text} {after : List Text}
    (h : lines t = line :: after) : lines (c :: t) = (c :: line) :: after := by
  rw [lines, if_neg hc, h]

/-- A text as it is saved with a carriage return before every line feed. -/
def withReturns (t : Text) : Text := t.flatMap fun c => if c = '\n' then ['\r', '\n'] else [c]

@[simp] theorem withReturns_nil : withReturns [] = [] := rfl

@[simp] theorem withReturns_cons_feed (t : Text) :
    withReturns ('\n' :: t) = '\r' :: '\n' :: withReturns t := rfl

@[simp] theorem withReturns_cons_of_ne {c : Char} (h : c ≠ '\n') (t : Text) :
    withReturns (c :: t) = c :: withReturns t := by
  rw [withReturns, List.flatMap_cons, if_neg h, List.singleton_append, withReturns]

theorem withReturns_of_not_mem {t : Text} (h : '\n' ∉ t) : withReturns t = t := by
  induction t with
  | nil => rfl
  | cons c t ih =>
    rw [List.mem_cons, not_or] at h
    rw [withReturns_cons_of_ne (Ne.symm h.1), ih h.2]

theorem withReturns_line {u : Text} (h : '\n' ∉ u) :
    withReturns (u ++ ['\n']) = u ++ ['\r', '\n'] := by
  rw [withReturns, List.flatMap_append, ← withReturns, withReturns_of_not_mem h]
  rfl

@[simp] theorem withReturns_flatten (ls : List Text) :
    withReturns ls.flatten = (ls.map withReturns).flatten := by
  rw [withReturns, List.flatMap_def, List.map_flatten, List.flatten_flatten, List.map_map]
  rfl

@[simp] theorem isBlankText_withReturns (t : Text) :
    isBlankText (withReturns t) = isBlankText t := by
  have hchar (c : Char) : (if c = '\n' then ['\r', '\n'] else [c]).all isBlank = isBlank c := by
    split
    · rename_i hc
      subst hc
      rfl
    · simp
  rw [isBlankText, withReturns, List.all_flatMap, isBlankText]
  simp only [hchar]

theorem dropStart_withReturns (t : Text) :
    dropStart isLineEnd (withReturns t) = withReturns (dropStart isLineEnd t) := by
  induction t with
  | nil => rfl
  | cons c t ih =>
    rw [dropStart, dropStart] at ih ⊢
    by_cases hfeed : c = '\n'
    · simpa [hfeed] using ih
    · rw [withReturns_cons_of_ne hfeed]
      by_cases hc : isLineEnd c = true
      · rw [List.dropWhile_cons_of_pos hc, List.dropWhile_cons_of_pos hc, ih]
      · rw [List.dropWhile_cons_of_neg hc, List.dropWhile_cons_of_neg hc,
          withReturns_cons_of_ne hfeed]

@[simp] theorem lines_withReturns (t : Text) :
    lines (withReturns t) = (lines t).map withReturns := by
  induction t with
  | nil => rfl
  | cons c t ih =>
    by_cases hc : c = '\n'
    · subst hc
      have hreturn : '\n' ∉ ['\r'] := by decide
      have hline := lines_append_cons hreturn (withReturns t)
      rw [withReturns_cons_feed, lines_cons_feed, List.map_cons, ← ih]
      exact hline
    · rw [withReturns_cons_of_ne hc, lines, if_neg hc, ih, lines, if_neg hc]
      cases lines t with
      | nil => simp [hc]
      | cons line after => simp [hc]

theorem stripStart?_eq_some_iff {t head rest : Text} :
    stripStart? t head = some rest ↔ t = head ++ rest := by
  induction head generalizing t with
  | nil => simp [stripStart?, eq_comm]
  | cons d head ih =>
    cases t with
    | nil => simp [stripStart?]
    | cons c t =>
      rw [stripStart?]
      by_cases hc : c = d
      · simp [hc, ih]
      · simp [hc]

theorem afterLineEnd?_eq_some_iff {t rest : Text} :
    afterLineEnd? t = some rest ↔ ∃ ending ∈ (["\n", "\r\n"] : List Text), t = ending ++ rest := by
  rw [afterLineEnd?.eq_def]
  split
  · simp [eq_comm]
  · simp [eq_comm]
  · rename_i hfeed hreturn
    constructor
    · intro h
      cases h
    · rintro ⟨ending, hending, rfl⟩
      simp only [List.mem_cons, List.not_mem_nil, or_false] at hending
      rcases hending with rfl | rfl
      · exact absurd rfl (hfeed rest)
      · exact absurd rfl (hreturn rest)

end StaticSite.Text
