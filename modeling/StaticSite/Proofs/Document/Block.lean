import StaticSite.Document.FrontMatter
import StaticSite.Proofs.Config.Texts
import StaticSite.Proofs.Text.Lines

/-! Blocks of metadata by lines. A block stands between the first line of a
text and the first closing line after the second; the search for marks behind
line feeds finds the same block. -/

namespace StaticSite.FrontMatter

open Text (lines EndsLine)

/-- A mark, then spaces or tabs, then an ending. -/
def IsMarkLine (marks endings : List Text) (line : Text) : Prop :=
  ∃ mark ∈ marks, ∃ blanks : Text, ∃ ending ∈ endings,
    line = mark ++ blanks ++ ending ∧ ∀ c ∈ blanks, c = ' ' ∨ c = '\t'

def IsOpening (line : Text) : Prop := IsMarkLine ["---"] ["\n", "\r\n"] line

def IsClosing (line : Text) : Prop := IsMarkLine ["---", "..."] ["", "\n", "\r\n"] line

/-- Lines up to the first closing line, which is not looked for before the second line. -/
def IsCut (ls inside after : List Text) : Prop :=
  ∃ closing, ls = inside ++ closing :: after ∧ IsClosing closing ∧
    inside ≠ [] ∧ ∀ line ∈ inside.tail, ¬ IsClosing line

/-- The lines of a block in a text, and the lines that follow it. -/
def IsBlock (t : Text) (inside after : List Text) : Prop :=
  ∃ opening rest, lines t = opening :: rest ∧ IsOpening opening ∧ IsCut rest inside after

theorem IsOpening.isClosing {line : Text} (h : IsOpening line) : IsClosing line := by
  obtain ⟨mark, hmark, blanks, ending, hending, hline⟩ := h
  rw [List.mem_singleton] at hmark
  exact ⟨mark, by simp [hmark], blanks, ending, List.mem_cons_of_mem _ hending, hline⟩

theorem feed_mem_of_ending {ending : Text} (h : ending ∈ (["\n", "\r\n"] : List Text)) :
    '\n' ∈ ending := by
  simp only [List.mem_cons, List.not_mem_nil, or_false] at h
  rcases h with rfl | rfl
  · decide
  · decide

theorem IsOpening.feed_mem {line : Text} (h : IsOpening line) : '\n' ∈ line := by
  obtain ⟨_, _, _, ending, hending, rfl, _⟩ := h
  exact List.mem_append_right _ (feed_mem_of_ending hending)

theorem feed_not_mem {mark blanks : Text} (hmark : mark ∈ (["---", "..."] : List Text))
    (hblanks : ∀ c ∈ blanks, c = ' ' ∨ c = '\t') : '\n' ∉ mark ++ blanks := by
  have hm : '\n' ∉ mark := by
    simp only [List.mem_cons, List.not_mem_nil, or_false] at hmark
    rcases hmark with rfl | rfl
    · decide
    · decide
  have hb : '\n' ∉ blanks := fun hc => absurd (hblanks _ hc) (by decide)
  simp [hm, hb]

theorem IsClosing.endsLine_or {line : Text} (h : IsClosing line) :
    EndsLine line ∨ line ≠ [] ∧ '\n' ∉ line := by
  obtain ⟨mark, hmark, blanks, ending, hending, rfl, hblanks⟩ := h
  have hfeed := feed_not_mem hmark hblanks
  have hne : mark ++ blanks ≠ [] := by
    simp only [List.mem_cons, List.not_mem_nil, or_false] at hmark
    rcases hmark with rfl | rfl <;> simp
  simp only [List.mem_cons, List.not_mem_nil, or_false] at hending
  rcases hending with rfl | rfl | rfl
  · exact .inr (by simpa using ⟨by simpa using hne, by simpa using hfeed⟩)
  · exact .inl ⟨mark ++ blanks, rfl, hfeed⟩
  · exact .inl ⟨mark ++ blanks ++ ['\r'], by simp, by simpa using hfeed⟩

/-- A closing line at the start of a text is its first line. -/
theorem IsClosing.exists_lines_iff {line t rest : Text} (h : IsClosing line) :
    t = line ++ rest ∧ ('\n' ∈ line ∨ rest = []) ↔
      ∃ after, lines t = line :: after ∧ rest = after.flatten := by
  constructor
  · rintro ⟨rfl, hrest⟩
    refine ⟨lines rest, ?_, (Text.flatten_lines rest).symm⟩
    rw [Text.lines_eq_cons_iff, Text.flatten_lines]
    refine ⟨rfl, rfl, h.endsLine_or.imp_right ?_⟩
    rintro ⟨hne, hfeed⟩
    exact ⟨hne, hfeed, by rw [hrest.resolve_left hfeed, lines]⟩
  · rintro ⟨after, hlines, rfl⟩
    obtain ⟨ht, _, ⟨u, rfl, _⟩ | ⟨_, _, rfl⟩⟩ := Text.lines_eq_cons_iff.mp hlines
    · exact ⟨ht, .inl (by simp)⟩
    · exact ⟨ht, .inr rfl⟩

theorem dropWhile_blanks_iff {t rest : Text}
    (hrest : ∀ c, rest.head? = some c → c ≠ ' ' ∧ c ≠ '\t') :
    t.dropWhile Text.isSpaceOrTab = rest ↔
      ∃ blanks, t = blanks ++ rest ∧ ∀ c ∈ blanks, c = ' ' ∨ c = '\t' := by
  constructor
  · intro hdrop
    obtain ⟨ht, hblanks, _⟩ :=
      Text.span_iff.mp ⟨(rfl : t.takeWhile Text.isSpaceOrTab = _), hdrop⟩
    exact ⟨_, ht, fun c hc => Text.isSpaceOrTab_iff.mp (hblanks c hc)⟩
  · rintro ⟨blanks, ht, hblanks⟩
    refine (Text.span_iff.mpr ⟨ht, fun c hc => Text.isSpaceOrTab_iff.mpr (hblanks c hc), ?_⟩).2
    intro c hc
    rw [Bool.eq_false_iff, Ne, Text.isSpaceOrTab_iff, not_or]
    exact hrest c hc

theorem afterLineEnd?_dropWhile_iff {t rest : Text} :
    Text.afterLineEnd? (t.dropWhile Text.isSpaceOrTab) = some rest ↔
      ∃ blanks, ∃ ending ∈ (["\n", "\r\n"] : List Text), t = blanks ++ ending ++ rest ∧
        ∀ c ∈ blanks, c = ' ' ∨ c = '\t' := by
  have hhead : ∀ ending ∈ (["\n", "\r\n"] : List Text), ∀ c,
      (ending ++ rest).head? = some c → c ≠ ' ' ∧ c ≠ '\t' := by
    intro ending hending c hc
    simp only [List.mem_cons, List.not_mem_nil, or_false] at hending
    rcases hending with rfl | rfl
    · obtain rfl : '\n' = c := Option.some.inj hc
      decide
    · obtain rfl : '\r' = c := Option.some.inj hc
      decide
  rw [Text.afterLineEnd?_eq_some_iff]
  constructor
  · rintro ⟨ending, hending, hdrop⟩
    obtain ⟨blanks, ht, hblanks⟩ := (dropWhile_blanks_iff (hhead ending hending)).mp hdrop
    exact ⟨blanks, ending, hending, by rw [ht, List.append_assoc], hblanks⟩
  · rintro ⟨blanks, ending, hending, ht, hblanks⟩
    refine ⟨ending, hending, (dropWhile_blanks_iff (hhead ending hending)).mpr ⟨blanks, ?_, hblanks⟩⟩
    rw [ht, List.append_assoc]

theorem afterOpening?_eq_some_iff {t rest : Text} :
    afterOpening? t = some rest ↔ ∃ line, IsOpening line ∧ t = line ++ rest := by
  rw [afterOpening?, Option.bind_eq_some_iff]
  constructor
  · rintro ⟨t, hstrip, hend⟩
    obtain rfl := Text.stripStart?_eq_some_iff.mp hstrip
    obtain ⟨blanks, ending, hending, rfl, hblanks⟩ := afterLineEnd?_dropWhile_iff.mp hend
    exact ⟨_, ⟨_, List.mem_cons_self, blanks, ending, hending, rfl, hblanks⟩, by simp⟩
  · rintro ⟨_, ⟨mark, hmark, blanks, ending, hending, rfl, hblanks⟩, rfl⟩
    obtain rfl := List.mem_singleton.mp hmark
    exact ⟨blanks ++ ending ++ rest, Text.stripStart?_eq_some_iff.mpr (by simp),
      afterLineEnd?_dropWhile_iff.mpr ⟨blanks, ending, hending, rfl, hblanks⟩⟩

theorem stripClosing_eq_some_iff {t rest : Text} :
    (Text.stripStart? t "---").or (Text.stripStart? t "...") = some rest ↔
      ∃ mark ∈ (["---", "..."] : List Text), t = mark ++ rest := by
  rw [Option.or_eq_some_iff]
  constructor
  · rintro (h | ⟨_, h⟩)
    · exact ⟨_, List.mem_cons_self, Text.stripStart?_eq_some_iff.mp h⟩
    · exact ⟨"...", by simp, Text.stripStart?_eq_some_iff.mp h⟩
  · rintro ⟨mark, hmark, rfl⟩
    simp only [List.mem_cons, List.not_mem_nil, or_false] at hmark
    rcases hmark with rfl | rfl
    · exact .inl (Text.stripStart?_eq_some_iff.mpr rfl)
    · exact .inr ⟨rfl, Text.stripStart?_eq_some_iff.mpr rfl⟩

/-- A line may end with the text only after a closing mark. -/
theorem afterClosing?_eq_some_iff {t rest : Text} :
    afterClosing? t = some rest ↔
      ∃ line, IsClosing line ∧ t = line ++ rest ∧ ('\n' ∈ line ∨ rest = []) := by
  rw [afterClosing?, Option.bind_eq_some_iff]
  constructor
  · rintro ⟨t, hstrip, h⟩
    obtain ⟨mark, hmark, rfl⟩ := stripClosing_eq_some_iff.mp hstrip
    split at h
    · rename_i hdrop
      obtain rfl := Option.some.inj h
      obtain ⟨blanks, ht, hblanks⟩ := (dropWhile_blanks_iff (by simp)).mp hdrop
      exact ⟨mark ++ t, ⟨mark, hmark, blanks, "", List.mem_cons_self, by simp [ht], hblanks⟩,
        by simp, .inr rfl⟩
    · obtain ⟨blanks, ending, hending, rfl, hblanks⟩ := afterLineEnd?_dropWhile_iff.mp h
      exact ⟨_, ⟨mark, hmark, blanks, ending, List.mem_cons_of_mem _ hending, rfl, hblanks⟩,
        by simp, .inl (List.mem_append_right _ (feed_mem_of_ending hending))⟩
  · rintro ⟨_, ⟨mark, hmark, blanks, ending, hending, rfl, hblanks⟩, rfl, hrest⟩
    refine ⟨blanks ++ ending ++ rest, stripClosing_eq_some_iff.mpr ⟨mark, hmark, by simp⟩, ?_⟩
    rcases List.mem_cons.mp hending with rfl | hending
    · have hfeed : '\n' ∉ mark ++ blanks ++ [] := by
        rw [List.append_nil]
        exact feed_not_mem hmark hblanks
      obtain rfl := hrest.resolve_left hfeed
      have hdrop : (blanks ++ [] ++ []).dropWhile Text.isSpaceOrTab = [] :=
        (dropWhile_blanks_iff (by simp)).mpr ⟨blanks, by simp, hblanks⟩
      split
      · rfl
      · rename_i hne
        exact absurd hdrop hne
    · have hend : Text.afterLineEnd?
          ((blanks ++ ending ++ rest).dropWhile Text.isSpaceOrTab) = some rest :=
        afterLineEnd?_dropWhile_iff.mpr ⟨blanks, ending, hending, rfl, hblanks⟩
      split
      · rename_i hdrop
        rw [hdrop] at hend
        cases hend
      · exact hend

theorem afterOpening?_iff_lines {t rest : Text} :
    afterOpening? t = some rest ↔
      ∃ opening after, lines t = opening :: after ∧ IsOpening opening ∧ rest = after.flatten := by
  rw [afterOpening?_eq_some_iff]
  constructor
  · rintro ⟨line, hline, ht⟩
    obtain ⟨after, hlines, hrest⟩ :=
      hline.isClosing.exists_lines_iff.mp ⟨ht, .inl hline.feed_mem⟩
    exact ⟨line, after, hlines, hline, hrest⟩
  · rintro ⟨line, after, hlines, hline, hrest⟩
    exact ⟨line, hline, (hline.isClosing.exists_lines_iff.mpr ⟨after, hlines, hrest⟩).1⟩

theorem afterClosing?_iff_lines {t rest : Text} :
    afterClosing? t = some rest ↔
      ∃ closing after, lines t = closing :: after ∧ IsClosing closing ∧ rest = after.flatten := by
  rw [afterClosing?_eq_some_iff]
  constructor
  · rintro ⟨line, hline, ht⟩
    obtain ⟨after, hlines, hrest⟩ := hline.exists_lines_iff.mp ht
    exact ⟨line, after, hlines, hline, hrest⟩
  · rintro ⟨line, after, hlines, hline, hrest⟩
    exact ⟨line, hline, hline.exists_lines_iff.mpr ⟨after, hlines, hrest⟩⟩

@[simp] theorem not_isCut_nil {inside after : List Text} : ¬ IsCut [] inside after := by
  rintro ⟨closing, h, _⟩
  simp at h

theorem isCut_cons_iff {line : Text} {ls inside after : List Text} :
    IsCut (line :: ls) inside after ↔
      (∃ closing, ls = closing :: after ∧ IsClosing closing ∧ inside = [line]) ∨
      ∃ inside', inside = line :: inside' ∧ IsCut ls inside' after ∧
        ∀ next, ls.head? = some next → ¬ IsClosing next := by
  constructor
  · rintro ⟨closing, h, hclosing, hne, htail⟩
    obtain ⟨l, inside, rfl⟩ := List.exists_cons_of_ne_nil hne
    obtain ⟨rfl, rfl⟩ := List.cons.inj h
    cases inside with
    | nil => exact .inl ⟨closing, rfl, hclosing, rfl⟩
    | cons next inside =>
      refine .inr ⟨next :: inside, rfl, ⟨closing, rfl, hclosing, by simp, ?_⟩, ?_⟩
      · exact fun l hl => htail l (List.mem_cons_of_mem next hl)
      · intro l hl
        rw [← Option.some.inj hl]
        exact htail next List.mem_cons_self
  · rintro (⟨closing, rfl, hclosing, rfl⟩ | ⟨inside, rfl, hcut, hnext⟩)
    · exact ⟨closing, rfl, hclosing, by simp, by simp⟩
    · obtain ⟨closing, rfl, hclosing, hne, htail⟩ := hcut
      refine ⟨closing, rfl, hclosing, by simp, ?_⟩
      obtain ⟨next, inside, rfl⟩ := List.exists_cons_of_ne_nil hne
      exact List.forall_mem_cons.mpr ⟨hnext next rfl, htail⟩

theorem IsCut.exists_cons {line : Text} {ls inside after : List Text}
    (h : IsCut (line :: ls) inside after) : ∃ inside', inside = line :: inside' := by
  rcases isCut_cons_iff.mp h with ⟨_, _, _, rfl⟩ | ⟨inside', rfl, _⟩
  · exact ⟨[], rfl⟩
  · exact ⟨inside', rfl⟩

theorem isCut_first_iff {line line' : Text} {ls inside after : List Text} :
    IsCut (line :: ls) (line :: inside) after ↔ IsCut (line' :: ls) (line' :: inside) after := by
  simp [isCut_cons_iff]

/-- The search passes over a first line, closing or not, and stops at the next closing one. -/
theorem takeBlock?_eq_some_iff {t block rest : Text} :
    takeBlock? t = some (block, rest) ↔ ∃ inside after,
      IsCut (lines t) inside after ∧ block = inside.flatten ∧ rest = after.flatten := by
  induction t generalizing block with
  | nil => simp [takeBlock?]
  | cons c t ih =>
    rw [takeBlock?]
    by_cases hc : c = '\n'
    · subst hc
      rw [if_pos rfl, lines, if_pos rfl]
      cases hclose : afterClosing? t with
      | some after =>
        obtain ⟨closing, after, hlines, hclosing, rfl⟩ := afterClosing?_iff_lines.mp hclose
        rw [hlines]
        constructor
        · intro h
          obtain ⟨rfl, rfl⟩ := Prod.mk.inj (Option.some.inj h)
          exact ⟨[['\n']], after, isCut_cons_iff.mpr (.inl ⟨closing, rfl, hclosing, rfl⟩), rfl, rfl⟩
        · rintro ⟨inside, after', hcut, rfl, rfl⟩
          rcases isCut_cons_iff.mp hcut with ⟨_, he, _, rfl⟩ | ⟨_, _, _, hnext⟩
          · rw [(List.cons.inj he).2]
            rfl
          · exact absurd hclosing (hnext closing rfl)
      | none =>
        have hnext : ∀ next, (lines t).head? = some next → ¬ IsClosing next := by
          intro next hhead hclosing
          obtain ⟨after, hlines⟩ := List.head?_eq_some_iff.mp hhead
          rw [afterClosing?_iff_lines.mpr ⟨next, after, hlines, hclosing, rfl⟩] at hclose
          cases hclose
        constructor
        · intro h
          obtain ⟨⟨_, _⟩, htake, he⟩ := Option.map_eq_some_iff.mp h
          obtain ⟨rfl, rfl⟩ := Prod.mk.inj he
          obtain ⟨inside, after, hcut, rfl, rfl⟩ := ih.mp htake
          exact ⟨['\n'] :: inside, after, isCut_cons_iff.mpr (.inr ⟨inside, rfl, hcut, hnext⟩),
            rfl, rfl⟩
        · rintro ⟨_, after, hcut, rfl, rfl⟩
          rcases isCut_cons_iff.mp hcut with ⟨closing, he, hclosing, _⟩ | ⟨inside, rfl, hcut, _⟩
          · exact absurd hclosing (hnext closing (by rw [he, List.head?_cons]))
          · dsimp only
            rw [ih.mpr ⟨inside, after, hcut, rfl, rfl⟩]
            rfl
    · rw [if_neg hc]
      cases hlines : lines t with
      | nil =>
        obtain rfl : t = [] := by rw [← Text.flatten_lines t, hlines, List.flatten_nil]
        simp [lines, hc, takeBlock?, isCut_cons_iff]
      | cons line ls =>
        rw [Text.lines_cons_of_ne hc hlines]
        rw [hlines] at ih
        constructor
        · intro h
          obtain ⟨⟨_, _⟩, htake, he⟩ := Option.map_eq_some_iff.mp h
          obtain ⟨rfl, rfl⟩ := Prod.mk.inj he
          obtain ⟨inside, after, hcut, rfl, rfl⟩ := ih.mp htake
          obtain ⟨inside, rfl⟩ := hcut.exists_cons
          exact ⟨(c :: line) :: inside, after, isCut_first_iff.mp hcut, rfl, rfl⟩
        · rintro ⟨_, after, hcut, rfl, rfl⟩
          obtain ⟨inside, rfl⟩ := hcut.exists_cons
          dsimp only
          rw [ih.mpr ⟨line :: inside, after, isCut_first_iff.mp hcut, rfl, rfl⟩]
          rfl

theorem block?_eq_some_iff {t block rest : Text} :
    block? t = some (block, rest) ↔
      ∃ inside after, IsBlock t inside after ∧ block = inside.flatten ∧ rest = after.flatten := by
  rw [block?, Option.bind_eq_some_iff]
  constructor
  · rintro ⟨_, hopen, htake⟩
    obtain ⟨opening, ls, hlines, hopening, rfl⟩ := afterOpening?_iff_lines.mp hopen
    obtain ⟨inside, after, hcut, hblock⟩ := takeBlock?_eq_some_iff.mp htake
    rw [(Text.lines_eq_cons_iff.mp hlines).2.1] at hcut
    exact ⟨inside, after, ⟨opening, ls, hlines, hopening, hcut⟩, hblock⟩
  · rintro ⟨inside, after, ⟨opening, ls, hlines, hopening, hcut⟩, hblock⟩
    rw [← (Text.lines_eq_cons_iff.mp hlines).2.1] at hcut
    exact ⟨_, afterOpening?_iff_lines.mpr ⟨opening, ls, hlines, hopening, rfl⟩,
      takeBlock?_eq_some_iff.mpr ⟨inside, after, hcut, hblock⟩⟩

theorem block?_eq_none_iff {t : Text} :
    block? t = none ↔ ¬ ∃ inside after, IsBlock t inside after := by
  rw [Option.eq_none_iff_forall_ne_some]
  constructor
  · rintro h ⟨inside, after, hblock⟩
    exact h _ (block?_eq_some_iff.mpr ⟨inside, after, hblock, rfl, rfl⟩)
  · rintro h ⟨block, rest⟩ hblock
    obtain ⟨inside, after, hblock, _⟩ := block?_eq_some_iff.mp hblock
    exact h ⟨inside, after, hblock⟩

theorem exists_isCut_iff {line : Text} {ls : List Text} :
    (∃ inside after, IsCut (line :: ls) inside after) ↔ ∃ closing ∈ ls, IsClosing closing := by
  induction ls generalizing line with
  | nil => simp [isCut_cons_iff]
  | cons next ls ih =>
    by_cases hnext : IsClosing next
    · constructor
      · exact fun _ => ⟨next, List.mem_cons_self, hnext⟩
      · exact fun _ => ⟨[line], ls, isCut_cons_iff.mpr (.inl ⟨next, rfl, hnext, rfl⟩)⟩
    · have hhead : ∀ l, (next :: ls).head? = some l → ¬ IsClosing l := by
        intro l hl
        rwa [← Option.some.inj hl]
      have hlater : (∃ closing ∈ next :: ls, IsClosing closing) ↔
          ∃ closing ∈ ls, IsClosing closing := by
        simp [hnext]
      rw [hlater, ← @ih next]
      constructor
      · rintro ⟨_, after, hcut⟩
        rcases isCut_cons_iff.mp hcut with ⟨closing, he, hclosing, _⟩ | ⟨inside, _, hcut, _⟩
        · exact absurd hclosing (hhead closing (by rw [he, List.head?_cons]))
        · exact ⟨inside, after, hcut⟩
      · rintro ⟨inside, after, hcut⟩
        exact ⟨line :: inside, after, isCut_cons_iff.mpr (.inr ⟨inside, rfl, hcut, hhead⟩)⟩

theorem ofBlock_of_mapping {registry : Registry} {block : Text} {metadata : Config}
    (h : registry.parse block "front matter" = .ok (.mapping metadata)) (t rest : Text) :
    ofBlock registry t block rest = ⟨metadata, rest.dropWhile Text.isLineEnd⟩ := by
  rw [ofBlock, h]
  rfl

theorem ofBlock_of_not_mapping {registry : Registry} {block : Text}
    (h : ∀ metadata, registry.parse block "front matter" ≠ .ok (.mapping metadata))
    (t rest : Text) :
    ofBlock registry t block rest = ⟨[], t⟩ := by
  rw [ofBlock]
  split
  · rename_i metadata he
    exact absurd he (h metadata)
  · rfl

/-- The metadata and the body of a text are those of its lines. Its first line must open a block
and one from the third on must close it; the lines between these two are read as a mapping, and
what follows is the body. A block that is no mapping stays in the text, and a text without a
block may have key lines. -/
theorem ofText_eq_of_lines (registry : Registry) (t : Text) :
    (∀ inside after, IsBlock t inside after →
      (∀ metadata, registry.parse inside.flatten "front matter" = .ok (.mapping metadata) →
        ofText registry t = ⟨metadata, after.flatten.dropWhile Text.isLineEnd⟩) ∧
      ((∀ metadata, registry.parse inside.flatten "front matter" ≠ .ok (.mapping metadata)) →
        ofText registry t = ⟨[], t⟩)) ∧
    ((¬ ∃ inside after, IsBlock t inside after) → ofText registry t = ofKeyLines t) ∧
    ((∃ inside after, IsBlock t inside after) ↔ ∃ opening second rest,
      lines t = opening :: second :: rest ∧ IsOpening opening ∧
        ∃ closing ∈ rest, IsClosing closing) := by
  refine ⟨?_, ?_, ?_⟩
  · intro inside after hblock
    have htext : ofText registry t = ofBlock registry t inside.flatten after.flatten := by
      rw [ofText, block?_eq_some_iff.mpr ⟨inside, after, hblock, rfl, rfl⟩]
    rw [htext]
    exact ⟨fun _ h => ofBlock_of_mapping h t _, fun h => ofBlock_of_not_mapping h t _⟩
  · intro hnone
    rw [ofText, block?_eq_none_iff.mpr hnone]
  · constructor
    · rintro ⟨inside, after, opening, ls, hlines, hopening, hcut⟩
      cases ls with
      | nil => exact absurd hcut not_isCut_nil
      | cons second rest =>
        exact ⟨opening, second, rest, hlines, hopening, exists_isCut_iff.mp ⟨inside, after, hcut⟩⟩
    · rintro ⟨opening, second, rest, hlines, hopening, hclosing⟩
      obtain ⟨inside, after, hcut⟩ := (@exists_isCut_iff second rest).mpr hclosing
      exact ⟨inside, after, opening, second :: rest, hlines, hopening, hcut⟩

theorem ofText_eq_of_lines_guide :
    let guide : Text := "---\t\ntitle: Guide\r\n... \n\n\nText"
    let empty : Text := "---\n\n---"
    let rule : Text := "---\n---\nText"
    (IsBlock guide ["title: Guide\r\n"] ["\n", "\n", "Text"] ∧
      ofText Registry.empty guide = ⟨[("title", .string "Guide")], "Text"⟩) ∧
    (IsBlock empty ["\n"] [] ∧ ofText Registry.empty empty = ⟨[], empty⟩) ∧
    ((¬ ∃ inside after, IsBlock rule inside after) ∧
      ofText Registry.empty rule = ofKeyLines rule) := by
  intro guide empty rule
  have hguide : IsBlock guide ["title: Guide\r\n"] ["\n", "\n", "Text"] :=
    ⟨_, _, rfl, ⟨"---", by simp, "\t", "\n", by simp, rfl, by simp⟩,
      _, rfl, ⟨"...", by simp, " ", "\n", by simp, rfl, by simp⟩, by simp, by simp⟩
  have hempty : IsBlock empty ["\n"] [] :=
    ⟨_, _, rfl, ⟨"---", by simp, [], "\n", by simp, rfl, by simp⟩,
      _, rfl, ⟨"---", by simp, [], "", by simp, rfl, by simp⟩, by simp, by simp⟩
  have hrule : ¬ ∃ inside after, IsBlock rule inside after := block?_eq_none_iff.mp (by decide)
  have htitle : Registry.empty.parse ["title: Guide\r\n".toList].flatten "front matter" =
      .ok (.mapping _) := Registry.parse_of_texts? [("title", "Guide")] (by decide +kernel)
  refine ⟨⟨hguide, ?_⟩, ⟨hempty, ?_⟩, ⟨hrule, ?_⟩⟩
  · exact ((ofText_eq_of_lines Registry.empty guide).1 _ _ hguide).1 _ htitle
  · exact ((ofText_eq_of_lines Registry.empty empty).1 _ _ hempty).2 nofun
  · exact (ofText_eq_of_lines Registry.empty rule).2.1 hrule

end StaticSite.FrontMatter
