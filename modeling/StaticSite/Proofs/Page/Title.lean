import StaticSite.Page.Basic
import StaticSite.Proofs.Text.Lines
import StaticSite.Proofs.Text.Trimmed

/-! Titles that pages take from their headings. A heading of blanks counts from
two blanks on, and in a text with carriage returns from one blank on, so it is
the title if no heading with a text comes before it. -/

namespace StaticSite.Page

/-- The rest of a main heading after its first blank, with the line feed. -/
def headingRest? : Text → Option Text
  | '#' :: blank :: t => if Text.isSpaceOrTab blank then some t else none
  | _ => none

/-- The text of a main heading that has any. -/
def headingText? (line : Text) : Option Text :=
  (headingRest? line).bind fun t => if Text.isBlankText t then none else some (Text.trim t)

/-- A main heading of two or more blanks and nothing else. -/
def isBlankHeading (line : Text) : Bool :=
  (headingRest? line).any fun t => Text.isBlankText t && t != [] && t != ("\n" : Text)

/-- A main heading of one blank, before a line feed. -/
def isBareHeading (line : Text) : Bool := headingRest? line == some ("\n" : Text)

/-- A line of this form comes before all main headings that have a text. -/
def ComesFirst (form : Text → Bool) (ls : List Text) : Prop :=
  ∃ before line after, ls = before ++ line :: after ∧ form line = true ∧
    ∀ l ∈ before, headingText? l = none

theorem headingRest?_eq_some_iff {line t : Text} :
    headingRest? line = some t ↔
      ∃ blank, Text.isSpaceOrTab blank = true ∧ line = '#' :: blank :: t := by
  constructor
  · intro h
    rw [headingRest?.eq_def] at h
    split at h
    · rename_i blank rest
      obtain ⟨hblank, rfl⟩ := Option.ite_none_right_eq_some.mp h |>.imp_right Option.some.inj
      exact ⟨blank, hblank, rfl⟩
    · cases h
  · rintro ⟨blank, hblank, rfl⟩
    rw [headingRest?, if_pos hblank]

@[simp] theorem headingText?_ne_nil (line : Text) : headingText? line ≠ some [] := by
  rw [headingText?, Ne, Option.bind_eq_some_iff]
  rintro ⟨t, _, ht⟩
  by_cases hblank : Text.isBlankText t = true
  · rw [if_pos hblank] at ht
    cases ht
  · rw [if_neg hblank, Option.some.injEq, Text.trim_eq_nil_iff] at ht
    exact hblank ht

theorem heading?_start {blank : Char} (h : Text.isSpaceOrTab blank = true) (t : Text) :
    heading? ('#' :: blank :: t) =
      let text := Text.dropEnd (· == '\n') t
      if text = [] then none else some (Text.trim text) := by
  have hfeed : (blank == '\n') = false := by
    rw [beq_eq_false_iff_ne]
    rintro rfl
    cases h
  have hdrop : Text.dropEnd (· == '\n') ('#' :: blank :: t) =
      '#' :: blank :: Text.dropEnd (· == '\n') t :=
    Text.dropEnd_concat_append (p := (· == '\n')) hfeed ['#'] t
  rw [heading?, hdrop]
  cases Text.dropEnd (· == '\n') t with
  | nil => rfl
  | cons c text => simp [h]

theorem heading?_eq_none {line : Text} (h : headingRest? line = none) : heading? line = none := by
  rw [heading?]
  split
  · rename_i blank c t hdrop
    have hline : line = '#' :: blank :: (c :: t ++ line.rtakeWhile (· == '\n')) := by
      have hparts := List.rdropWhile_append_rtakeWhile (p := (· == '\n')) (l := line)
      rw [← Text.dropEnd_eq, hdrop] at hparts
      exact hparts.symm
    by_cases hblank : Text.isSpaceOrTab blank = true
    · rw [headingRest?_eq_some_iff.mpr ⟨blank, hblank, hline⟩] at h
      cases h
    · rw [if_neg hblank]
  · rfl

theorem heading_of_trim {text t : Text} (h : Text.trim text = Text.trim t) :
    (if text = [] then none else some (Text.trim text)) =
      if Text.isBlankText t = true ∧ text ≠ [] then some []
      else if Text.isBlankText t then none else some (Text.trim t) := by
  by_cases htext : text = []
  · have hblank : Text.isBlankText t = true := by
      rw [← Text.trim_eq_nil_iff, ← h, htext]
      rfl
    rw [if_pos htext, if_neg (fun hand => hand.2 htext), if_pos hblank]
  · rw [if_neg htext, h]
    by_cases hblank : Text.isBlankText t = true
    · rw [if_pos ⟨hblank, htext⟩, Text.trim_eq_nil_iff.mpr hblank]
    · rw [if_neg (fun hand => hblank hand.1), if_neg hblank]

/-- The rest of a heading is what stands on the line, with the line feed if there is one. -/
theorem exists_rest {line t : Text} (h : Text.EndsLine line ∨ '\n' ∉ line)
    (hrest : headingRest? line = some t) : ∃ u, '\n' ∉ u ∧ (t = u ++ ['\n'] ∨ t = u) := by
  obtain ⟨blank, hblank, rfl⟩ := headingRest?_eq_some_iff.mp hrest
  rcases h with ⟨u, hu, hfeed⟩ | hfeed
  · cases u with
    | nil => cases hu
    | cons c u =>
      cases u with
      | nil =>
        obtain ⟨_, rfl, rfl⟩ : '#' = c ∧ blank = '\n' ∧ t = [] := by simpa using hu
        cases hblank
      | cons d u =>
        obtain ⟨rfl, rfl, rfl⟩ : '#' = c ∧ blank = d ∧ t = u ++ ['\n'] := by simpa using hu
        exact ⟨u, fun hm => hfeed (by simp [hm]), .inl rfl⟩
  · exact ⟨t, fun hm => hfeed (by simp [hm]), .inr rfl⟩

theorem text_of_rest {line t : Text} (h : Text.EndsLine line ∨ '\n' ∉ line)
    (hrest : headingRest? line = some t) :
    let text := Text.dropEnd (· == '\n') t
    Text.trim text = Text.trim t ∧ (text = [] ↔ t = [] ∨ t = ("\n" : Text)) := by
  obtain ⟨u, hu, rfl | rfl⟩ := exists_rest h hrest
  · dsimp only
    rw [Text.dropEnd_append (by simp), Text.dropEnd_of_not_mem hu,
      Text.trim_append_of_blank (by decide)]
    simp
  · dsimp only
    rw [Text.dropEnd_of_not_mem hu]
    refine ⟨rfl, or_iff_left ?_ |>.symm⟩
    rintro rfl
    exact hu (by simp)

theorem text_of_rest_withReturns {line t : Text} (h : Text.EndsLine line ∨ '\n' ∉ line)
    (hrest : headingRest? line = some t) :
    let text := Text.dropEnd (· == '\n') (Text.withReturns t)
    Text.trim text = Text.trim t ∧ (text = [] ↔ t = []) := by
  obtain ⟨u, hu, rfl | rfl⟩ := exists_rest h hrest
  · have hreturn : '\n' ∉ u ++ ['\r'] := by simpa using hu
    have hline : u ++ ['\r', '\n'] = (u ++ ['\r']) ++ ['\n'] := by simp
    dsimp only
    rw [Text.withReturns_line hu, hline, Text.dropEnd_append (by simp),
      Text.dropEnd_of_not_mem hreturn, Text.trim_append_of_blank (by decide),
      Text.trim_append_of_blank (by decide)]
    simp
  · dsimp only
    rw [Text.withReturns_of_not_mem hu, Text.dropEnd_of_not_mem hu]
    exact ⟨rfl, Iff.rfl⟩

theorem heading?_line {line : Text} (h : Text.EndsLine line ∨ '\n' ∉ line) :
    heading? line = if isBlankHeading line then some [] else headingText? line := by
  cases hrest : headingRest? line with
  | none => simp [heading?_eq_none hrest, isBlankHeading, headingText?, hrest]
  | some t =>
    obtain ⟨blank, hblank, rfl⟩ := headingRest?_eq_some_iff.mp hrest
    obtain ⟨htrim, hempty⟩ := text_of_rest h hrest
    rw [heading?_start hblank, heading_of_trim htrim]
    simp [isBlankHeading, headingText?, hrest, hempty, and_assoc]

theorem withReturns_start {blank : Char} (h : Text.isSpaceOrTab blank = true) (t : Text) :
    Text.withReturns ('#' :: blank :: t) = '#' :: blank :: Text.withReturns t := by
  have hfeed : blank ≠ '\n' := by
    rintro rfl
    cases h
  rw [Text.withReturns_cons_of_ne (by decide), Text.withReturns_cons_of_ne hfeed]

theorem headingRest?_withReturns_eq_none {line : Text} (h : headingRest? line = none) :
    headingRest? (Text.withReturns line) = none := by
  rw [Option.eq_none_iff_forall_ne_some]
  intro t ht
  obtain ⟨blank, hblank, hline⟩ := headingRest?_eq_some_iff.mp ht
  cases line with
  | nil => cases hline
  | cons c line =>
    by_cases hc : c = '\n'
    · simp [hc] at hline
    · obtain ⟨rfl, hline⟩ : c = '#' ∧ Text.withReturns line = blank :: t := by
        simpa [hc] using hline
      cases line with
      | nil => cases hline
      | cons d line =>
        by_cases hd : d = '\n'
        · obtain ⟨rfl, _⟩ : '\r' = blank ∧ '\n' :: Text.withReturns line = t := by
            simpa [hd] using hline
          cases hblank
        · obtain ⟨rfl, _⟩ : d = blank ∧ Text.withReturns line = t := by
            simpa [hd] using hline
          rw [headingRest?, if_pos hblank] at h
          cases h

theorem heading?_withReturns {line : Text} (h : Text.EndsLine line ∨ '\n' ∉ line) :
    heading? (Text.withReturns line) =
      if isBlankHeading line || isBareHeading line then some [] else headingText? line := by
  cases hrest : headingRest? line with
  | none =>
    have hsaved := heading?_eq_none (headingRest?_withReturns_eq_none hrest)
    simp [hsaved, isBlankHeading, isBareHeading, headingText?, hrest]
  | some t =>
    obtain ⟨blank, hblank, rfl⟩ := headingRest?_eq_some_iff.mp hrest
    obtain ⟨htrim, hempty⟩ := text_of_rest_withReturns h hrest
    rw [withReturns_start hblank, heading?_start hblank, heading_of_trim htrim]
    have hform : (isBlankHeading ('#' :: blank :: t) || isBareHeading ('#' :: blank :: t)) = true ↔
        Text.isBlankText t = true ∧ Text.dropEnd (· == '\n') (Text.withReturns t) ≠ [] := by
      rw [Ne, hempty, isBlankHeading, isBareHeading, hrest]
      by_cases hbare : t = ['\n']
      · subst hbare
        decide
      · simp [hbare]
    simp only [hform, headingText?, hrest, Option.bind_some]

theorem comesFirst_cons {form : Text → Bool} {line : Text} {ls : List Text} :
    ComesFirst form (line :: ls) ↔
      form line = true ∨ headingText? line = none ∧ ComesFirst form ls := by
  constructor
  · rintro ⟨before, first, after, heq, hform, hbefore⟩
    cases before with
    | nil =>
      obtain ⟨rfl, _⟩ := List.cons.inj heq
      exact .inl hform
    | cons l before =>
      obtain ⟨rfl, hrest⟩ := List.cons.inj heq
      rw [List.forall_mem_cons] at hbefore
      exact .inr ⟨hbefore.1, before, first, after, hrest, hform, hbefore.2⟩
  · rintro (hform | ⟨hnone, before, first, after, rfl, hform, hbefore⟩)
    · exact ⟨[], line, ls, rfl, hform, by simp⟩
    · exact ⟨line :: before, first, after, rfl, hform, List.forall_mem_cons.mpr ⟨hnone, hbefore⟩⟩

theorem comesFirst_or {form other : Text → Bool} {ls : List Text} :
    ComesFirst (fun l => form l || other l) ls ↔ ComesFirst form ls ∨ ComesFirst other ls := by
  constructor
  · rintro ⟨before, line, after, heq, hline, hbefore⟩
    rcases Bool.or_eq_true_iff.mp hline with hline | hline
    · exact .inl ⟨before, line, after, heq, hline, hbefore⟩
    · exact .inr ⟨before, line, after, heq, hline, hbefore⟩
  · rintro (⟨before, line, after, heq, hline, hbefore⟩ | ⟨before, line, after, heq, hline, hbefore⟩)
    · exact ⟨before, line, after, heq, by simp [hline], hbefore⟩
    · exact ⟨before, line, after, heq, by simp [hline], hbefore⟩

theorem findSome?_headingText?_ne_nil (ls : List Text) : ls.findSome? headingText? ≠ some [] := by
  intro h
  obtain ⟨line, _, hline⟩ := List.exists_of_findSome?_eq_some h
  exact headingText?_ne_nil line hline

/-- Lines of a form that counts although it has no text are the title if one comes first. -/
theorem findSome?_heading {f : Text → Option Text} {form : Text → Bool} {ls : List Text}
    (h : ∀ l ∈ ls, f l = if form l then some [] else headingText? l) :
    (ComesFirst form ls → ls.findSome? f = some []) ∧
      (¬ ComesFirst form ls → ls.findSome? f = ls.findSome? headingText?) := by
  induction ls with
  | nil => exact ⟨fun ⟨_, _, _, hnil, _⟩ => by simp at hnil, fun _ => rfl⟩
  | cons line ls ih =>
    rw [List.forall_mem_cons] at h
    rw [comesFirst_cons, List.findSome?_cons, List.findSome?_cons, h.1]
    by_cases hform : form line = true
    · simp [hform]
    · rw [if_neg hform]
      cases hline : headingText? line with
      | none => simpa [hform] using ih h.2
      | some text => simp [hform]

/-- The title of a page without one in its metadata is the text of its first main heading that
has any, unless a blank heading comes first: then it is empty. Saved with carriage returns, the
page keeps its title unless a bare heading comes first. -/
theorem title?_heading_iff {p : Page} (h : (p.metadata.get? "title").bind Value.text? = none) :
    let ls := Text.lines p.markdown
    let saved := { p with markdown := Text.withReturns p.markdown }
    (p.title? = ls.findSome? headingText? ↔ ¬ ComesFirst isBlankHeading ls) ∧
      (p.title? = some [] ↔ ComesFirst isBlankHeading ls) ∧
      (saved.title? = p.title? ↔ p.title? = some [] ∨ ¬ ComesFirst isBareHeading ls) := by
  intro ls saved
  have hpage : p.title? = ls.findSome? heading? := by rw [title?, h, Option.none_or]
  have hsaved : saved.title? = ls.findSome? (heading? ∘ Text.withReturns) := by
    rw [title?, h, Option.none_or, Text.lines_withReturns, List.findSome?_map]
  have hblank := findSome?_heading fun l (hl : l ∈ ls) => heading?_line (Text.mem_lines hl)
  have hboth := findSome?_heading fun l (hl : l ∈ ls) => heading?_withReturns (Text.mem_lines hl)
  have htext := findSome?_headingText?_ne_nil ls
  rw [← hpage] at hblank
  -- A blank heading in front empties both titles; without one only a bare heading tells them apart.
  by_cases hfirst : ComesFirst isBlankHeading ls
  · have hempty : p.title? = some [] := hblank.1 hfirst
    have hsame : saved.title? = some [] := hsaved.trans (hboth.1 (comesFirst_or.mpr (.inl hfirst)))
    exact ⟨iff_of_false (fun he => htext (he.symm.trans hempty)) (not_not.mpr hfirst),
      iff_of_true hempty hfirst, iff_of_true (hsame.trans hempty.symm) (.inl hempty)⟩
  · have hright : p.title? = ls.findSome? headingText? := hblank.2 hfirst
    have hne : p.title? ≠ some [] := fun he => htext (hright.symm.trans he)
    refine ⟨iff_of_true hright hfirst, iff_of_false hne hfirst, ?_⟩
    rw [or_iff_right hne]
    by_cases hbare : ComesFirst isBareHeading ls
    · have hother : saved.title? = some [] :=
        hsaved.trans (hboth.1 (comesFirst_or.mpr (.inr hbare)))
      exact iff_of_false (fun he => hne (he.symm.trans hother)) (not_not.mpr hbare)
    · have hnone : ¬ ComesFirst (fun l => isBlankHeading l || isBareHeading l) ls := fun hor =>
        (comesFirst_or.mp hor).elim hfirst hbare
      exact iff_of_true (hsaved.trans ((hboth.2 hnone).trans hright.symm)) hbare

theorem title?_heading_iff_real :
    let p : Page := ⟨"a.md", .file, [], "# \n# Real title\n"⟩
    let saved := { p with markdown := Text.withReturns p.markdown }
    (p.metadata.get? "title").bind Value.text? = none ∧
      p.title? = (Text.lines p.markdown).findSome? headingText? ∧ saved.title? ≠ p.title? := by
  intro p saved
  have hmeta : (p.metadata.get? "title").bind Value.text? = none := rfl
  have hlines : Text.lines p.markdown = ["# \n", "# Real title\n"] := by decide
  have hbare : ComesFirst isBareHeading (Text.lines p.markdown) :=
    ⟨[], "# \n", ["# Real title\n"], hlines, by decide, by simp⟩
  have hreal : p.title? = some ("Real title" : Text) := by decide
  obtain ⟨hright, hempty, hsaved⟩ := title?_heading_iff hmeta
  have hne : p.title? ≠ some [] := by simp [hreal]
  refine ⟨hmeta, hright.mpr fun hblank => hne (hempty.mpr hblank), fun he => ?_⟩
  exact (hsaved.mp he).elim hne fun hnone => hnone hbare

/-- Two blanks are taken for a title, and with carriage returns a single one is. -/
theorem title?_blank_heading :
    let p : Page := ⟨"a.md", .file, [], "#  \n# Real title\n"⟩
    let q : Page := ⟨"a.md", .file, [], "# \n# Real title\n"⟩
    let saved : Page := { q with markdown := "# \r\n# Real title\r\n" }
    p.title? = some [] ∧
      (Text.lines p.markdown).findSome? headingText? = some ("Real title" : Text) ∧
      saved.markdown = Text.withReturns q.markdown ∧
      q.title? = some ("Real title" : Text) ∧ saved.title? = some [] := by
  decide

end StaticSite.Page
