import StaticSite.Document.KeyLines
import StaticSite.Proofs.Text.Separated
import StaticSite.Proofs.Text.Trimmed

/-! The lines that are read as metadata. They are the longest run of key lines
and lines that continue them, and a blank line behind it is dropped. -/

namespace StaticSite

namespace KeyLine

open Text (isBlank isBlankText isLineEnd)

theorem isBlank_of_isLineEnd (c : Char) (h : isLineEnd c = true) : isBlank c = true := by
  rcases Text.isLineEnd_iff.mp h with rfl | rfl
  · decide
  · decide

@[simp] theorem isBlankText_content (line : Text) : isBlankText (content line) = isBlankText line :=
  Bool.eq_iff_iff.mpr (Text.all_dropEnd_iff isBlank_of_isLineEnd line)

theorem content_prefix_line (line : Text) : content line <+: line := List.rdropWhile_prefix _ line

/-- Up to three spaces, a key, a colon and any rest. -/
def IsKeyLine (line : Text) : Prop :=
  ∃ indent key rest, line = indent ++ key ++ ':' :: rest ∧ (∀ c ∈ indent, c = ' ') ∧
    indent.length ≤ 3 ∧ key ≠ [] ∧ ∀ c ∈ key, isKeyChar c = true

def IsContinuation (line : Text) : Prop :=
  isBlankText line = false ∧ ∃ indent ∈ (["\t", "    "] : List Text), indent <+: line

/-- Key lines and lines that continue them, a key line first. -/
def IsRun (run : List Text) : Prop :=
  (∀ line, run.head? = some line → IsKeyLine line) ∧
    ∀ line ∈ run, IsKeyLine line ∨ IsContinuation line

theorem entry?_eq_some_iff {t key value : Text} :
    entry? t = some (key, value) ↔ ∃ indent name rest, t = indent ++ name ++ ':' :: rest ∧
      (∀ c ∈ indent, c = ' ') ∧ indent.length ≤ 3 ∧ name ≠ [] ∧ (∀ c ∈ name, isKeyChar c = true) ∧
      key = Text.lower name ∧ value = Text.trim rest := by
  constructor
  · intro h
    have hindent := Text.span_iff.mp ⟨(rfl : t.takeWhile (· == ' ') = _), rfl⟩
    have hname := Text.span_iff.mp
      ⟨(rfl : (t.dropWhile (· == ' ')).takeWhile isKeyChar = _), rfl⟩
    unfold entry? at h
    dsimp only at h
    split at h
    · rename_i rest hrest
      rw [hrest] at hname
      by_cases hshape : (t.takeWhile (· == ' ')).length ≤ 3 ∧
          (t.dropWhile (· == ' ')).takeWhile isKeyChar ≠ []
      · rw [if_pos hshape] at h
        obtain ⟨rfl, rfl⟩ := Prod.mk.inj (Option.some.inj h)
        refine ⟨_, _, rest, ?_, ?_, hshape.1, hshape.2, hname.2.1, rfl, rfl⟩
        · rw [List.append_assoc, ← hname.1, ← hindent.1]
        · exact fun c hc => beq_iff_eq.mp (hindent.2.1 c hc)
      · rw [if_neg hshape] at h
        cases h
    · cases h
  · rintro ⟨indent, name, rest, rfl, hindent, hlength, hne, hname, rfl, rfl⟩
    have hfirst : ∀ c, (name ++ ':' :: rest).head? = some c → (c == ' ') = false := by
      obtain ⟨d, name, rfl⟩ := List.exists_cons_of_ne_nil hne
      intro c hc
      rw [← Option.some.inj hc]
      have hd : isKeyChar d = true := hname d List.mem_cons_self
      rw [beq_eq_false_iff_ne]
      rintro rfl
      cases hd
    have hspaces : ∀ c ∈ indent, (c == ' ') = true := fun c hc => beq_iff_eq.mpr (hindent c hc)
    obtain ⟨htake, hdrop⟩ := Text.span_iff.mpr
      ⟨List.append_assoc indent name (':' :: rest), hspaces, hfirst⟩
    have hcolon : ∀ c, (':' :: rest).head? = some c → isKeyChar c = false := by
      intro c hc
      rw [← Option.some.inj hc]
      decide
    obtain ⟨htake', hdrop'⟩ := Text.span_iff.mpr
      ⟨(rfl : name ++ ':' :: rest = _), hname, hcolon⟩
    unfold entry?
    simp only [htake, hdrop, htake', hdrop']
    rw [if_pos ⟨hlength, hne⟩]

theorem isKeyLine_iff {line : Text} :
    IsKeyLine line ↔ ∃ entry, entry? (content line) = some entry := by
  constructor
  · rintro ⟨indent, key, rest, rfl, hindent, hlength, hne, hkey⟩
    refine ⟨(Text.lower key, Text.trim (Text.dropEnd isLineEnd rest)),
      entry?_eq_some_iff.mpr ⟨indent, key, _, ?_, hindent, hlength, hne, hkey, rfl, rfl⟩⟩
    have hcolon := Text.dropEnd_concat_append (p := isLineEnd) (c := ':') (by decide)
      (indent ++ key) rest
    simpa [content] using hcolon
  · rintro ⟨⟨key, value⟩, h⟩
    obtain ⟨indent, name, rest, hline, hindent, hlength, hne, hname, _⟩ := entry?_eq_some_iff.mp h
    obtain ⟨ending, hending⟩ := content_prefix_line line
    refine ⟨indent, name, rest ++ ending, ?_, hindent, hlength, hne, hname⟩
    rw [← hending, hline]
    simp

theorem continuation?_eq_some_iff {t value : Text} :
    continuation? t = some value ↔
      ∃ indent ∈ (["\t", "    "] : List Text), ∃ rest,
        t = indent ++ rest ∧ value = Text.trim rest := by
  rw [continuation?.eq_def]
  split
  · simp [eq_comm]
  · simp [eq_comm]
  · rename_i htab hspaces
    constructor
    · intro h
      cases h
    · rintro ⟨indent, hindent, rest, rfl, _⟩
      simp only [List.mem_cons, List.not_mem_nil, or_false] at hindent
      rcases hindent with rfl | rfl
      · exact absurd rfl (htab rest)
      · exact absurd rfl (hspaces rest)

theorem isContinuation_iff {line : Text} (h : isBlankText line = false) :
    IsContinuation line ↔ ∃ value, continuation? (content line) = some value := by
  constructor
  · rintro ⟨_, indent, hindent, hline⟩
    have hcontent : indent <+: content line := by
      rcases List.prefix_or_prefix_of_prefix hline (content_prefix_line line) with hp | hp
      · exact hp
      · have hblank : isBlankText indent = true := by
          simp only [List.mem_cons, List.not_mem_nil, or_false] at hindent
          rcases hindent with rfl | rfl
          · decide
          · decide
        have hall : isBlankText (content line) = true :=
          List.all_eq_true.mpr fun c hc => List.all_eq_true.mp hblank c (hp.subset hc)
        simp [h] at hall
    obtain ⟨rest, hrest⟩ := hcontent
    exact ⟨_, continuation?_eq_some_iff.mpr ⟨indent, hindent, rest, hrest.symm, rfl⟩⟩
  · rintro ⟨value, hvalue⟩
    obtain ⟨indent, hindent, rest, hrest, _⟩ := continuation?_eq_some_iff.mp hvalue
    have hcontent : indent <+: content line := ⟨rest, hrest.symm⟩
    exact ⟨h, indent, hindent, hcontent.trans (content_prefix_line line)⟩

theorem IsKeyLine.not_blank {line : Text} (h : IsKeyLine line) : isBlankText line = false := by
  obtain ⟨indent, key, rest, rfl, _⟩ := h
  rw [Text.isBlankText, List.all_eq_false]
  exact ⟨':', by simp, by decide⟩

section Reading

variable {line key value : Text} (metadata : Config) (ls : List Text)

theorem read_cons_of_blank (h : isBlankText line = true) (last : Option Text) :
    read metadata last (line :: ls) = (metadata, ls) := by
  rw [read.eq_def]
  dsimp only
  rw [if_pos (by simpa using h)]

theorem read_cons_of_entry (h : entry? (content line) = some (key, value)) (last : Option Text) :
    read metadata last (line :: ls) = read (append metadata key value) (some key) ls := by
  have hblank := (isKeyLine_iff.mpr ⟨_, h⟩).not_blank
  rw [read.eq_def]
  dsimp only
  rw [if_neg (by simp [hblank]), h]

theorem read_cons_of_continuation (hblank : isBlankText line = false)
    (hentry : entry? (content line) = none) (h : continuation? (content line) = some value) :
    read metadata (some key) (line :: ls) = read (append metadata key value) (some key) ls := by
  rw [read.eq_def]
  dsimp only
  rw [if_neg (by simp [hblank]), hentry, h]

theorem read_cons_of_other (hblank : isBlankText line = false)
    (hentry : entry? (content line) = none) {last : Option Text}
    (h : last = none ∨ continuation? (content line) = none) :
    read metadata last (line :: ls) = (metadata, line :: ls) := by
  rw [read.eq_def]
  dsimp only
  rw [if_neg (by simp [hblank]), hentry]
  rcases h with rfl | h
  · rfl
  · rw [h]
    cases last with
    | none => rfl
    | some key => rfl

end Reading

theorem isRun_nil : IsRun [] := ⟨nofun, nofun⟩

theorem IsRun.concat {run : List Text} (h : IsRun run) {line : Text}
    (hline : IsKeyLine line ∨ run ≠ [] ∧ IsContinuation line) : IsRun (run ++ [line]) := by
  refine ⟨?_, ?_⟩
  · intro first hfirst
    cases run with
    | nil =>
      rw [← Option.some.inj hfirst]
      exact hline.resolve_right fun h => h.1 rfl
    | cons l run => exact h.1 first hfirst
  · intro l hl
    rcases List.mem_append.mp hl with hl | hl
    · exact h.2 l hl
    · rw [List.mem_singleton.mp hl]
      exact hline.imp_right And.right

theorem isRun_concat_iff {run : List Text} {line : Text} :
    IsRun (run ++ [line]) ↔ IsRun run ∧ (IsKeyLine line ∨ run ≠ [] ∧ IsContinuation line) := by
  constructor
  · rintro ⟨hfirst, hall⟩
    refine ⟨⟨?_, fun l hl => hall l (List.mem_append_left _ hl)⟩, ?_⟩
    · intro first hhead
      apply hfirst first
      rw [List.head?_append, hhead]
      rfl
    · cases run with
      | nil => exact .inl (hfirst line rfl)
      | cons l run =>
        have hline := hall line (List.mem_append_right _ (List.mem_singleton_self line))
        exact hline.imp_right fun h => ⟨List.cons_ne_nil l run, h⟩
  · rintro ⟨h, hline⟩
    exact h.concat hline

theorem IsRun.left {run tail : List Text} (h : IsRun (run ++ tail)) : IsRun run := by
  refine ⟨?_, fun l hl => h.2 l (List.mem_append_left tail hl)⟩
  intro first hfirst
  apply h.1 first
  rw [List.head?_append, hfirst]
  rfl

/-- A run that the next line does not prolong is the longest one. -/
theorem IsRun.prefix_of_stop {run run' tail : List Text} (h : IsRun run')
    (hp : run' <+: run ++ tail) (hstop : ∀ line, tail.head? = some line → ¬ IsRun (run ++ [line])) :
    run' <+: run := by
  rcases List.prefix_or_prefix_of_prefix hp (List.prefix_append run tail) with hshort | hlong
  · exact hshort
  · obtain ⟨more, rfl⟩ := hlong
    cases more with
    | nil => simp
    | cons line more =>
      obtain ⟨tail', htail⟩ := (List.prefix_append_right_inj run).mp hp
      have hrun : IsRun (run ++ [line] ++ more) := by simpa using h
      exact absurd hrun.left (hstop line (by rw [← htail]; rfl))

/-- A blank line, or none where the next line is not blank. -/
def IsGap (gap rest : List Text) : Prop :=
  (∃ line, gap = [line] ∧ isBlankText line = true) ∨
    gap = [] ∧ ∀ line, rest.head? = some line → isBlankText line = false

/-- Lines that are left of others behind a run: the run is prolonged as far as it can be, and
then there is a gap. -/
def IsLeft (run ls rest : List Text) : Prop :=
  ∃ more gap, ls = more ++ gap ++ rest ∧ IsRun (run ++ more) ∧ IsGap gap rest ∧
    ∀ line, (gap ++ rest).head? = some line → ¬ IsRun (run ++ more ++ [line])

theorem IsLeft.cons {run ls rest : List Text} {line : Text} (h : IsLeft (run ++ [line]) ls rest) :
    IsLeft run (line :: ls) rest := by
  obtain ⟨more, gap, rfl, hrun, hgap, hstop⟩ := h
  rw [List.append_assoc, List.singleton_append] at hrun hstop
  exact ⟨line :: more, gap, rfl, hrun, hgap, hstop⟩

theorem isLeft_of_blank {run : List Text} (h : IsRun run) {line : Text}
    (hline : isBlankText line = true) (ls : List Text) : IsLeft run (line :: ls) ls := by
  refine ⟨[], [line], rfl, by rwa [List.append_nil], .inl ⟨line, rfl, hline⟩, ?_⟩
  intro l hl hrun
  rw [← Option.some.inj hl, List.append_nil, isRun_concat_iff] at hrun
  rcases hrun.2 with hkey | ⟨_, hcontinuation, _⟩
  · rw [hkey.not_blank] at hline
    cases hline
  · rw [hcontinuation] at hline
    cases hline

theorem isLeft_of_other {run : List Text} (h : IsRun run) {line : Text}
    (hline : isBlankText line = false) (hstop : ¬ IsRun (run ++ [line])) (ls : List Text) :
    IsLeft run (line :: ls) (line :: ls) := by
  refine ⟨[], [], rfl, by rwa [List.append_nil], .inr ⟨rfl, ?_⟩, ?_⟩
  · intro l hl
    rwa [← Option.some.inj hl]
  · intro l hl
    rwa [← Option.some.inj hl, List.append_nil]

/-- Reading has a last key where lines of a run have been read, and reads as much more of it as
there is. -/
theorem read_isLeft {run : List Text} (hrun : IsRun run) {last : Option Text}
    (hlast : last = none ↔ run = []) (metadata : Config) (ls : List Text) :
    IsLeft run ls (read metadata last ls).2 := by
  induction ls generalizing run metadata last with
  | nil => exact ⟨[], [], rfl, by rwa [List.append_nil], .inr ⟨rfl, nofun⟩, nofun⟩
  | cons line ls ih =>
    cases hblank : isBlankText line with
    | true =>
      rw [read_cons_of_blank metadata ls hblank]
      exact isLeft_of_blank hrun hblank ls
    | false =>
      cases hentry : entry? (content line) with
      | some entry =>
        rw [read_cons_of_entry metadata ls hentry]
        exact (ih (hrun.concat (.inl (isKeyLine_iff.mpr ⟨entry, hentry⟩))) (by simp) _).cons
      | none =>
        have hkey : ¬ IsKeyLine line := by
          rw [isKeyLine_iff, hentry]
          rintro ⟨_, h⟩
          cases h
        by_cases hmore : run ≠ [] ∧ IsContinuation line
        · obtain ⟨value, hvalue⟩ := (isContinuation_iff hblank).mp hmore.2
          obtain ⟨key, rfl⟩ := Option.ne_none_iff_exists'.mp fun hnone => hmore.1 (hlast.mp hnone)
          rw [read_cons_of_continuation metadata ls hblank hentry hvalue]
          exact (ih (hrun.concat (.inr hmore)) (by simp) _).cons
        · have hother : last = none ∨ continuation? (content line) = none := by
            rw [hlast, Option.eq_none_iff_forall_ne_some]
            by_cases hnil : run = []
            · exact .inl hnil
            · refine .inr fun value hvalue => hmore ⟨hnil, ?_⟩
              exact (isContinuation_iff hblank).mpr ⟨value, hvalue⟩
          rw [read_cons_of_other metadata ls hblank hentry hother]
          exact isLeft_of_other hrun hblank (fun h => (isRun_concat_iff.mp h).2.elim hkey hmore) ls

/-- Reading from the start leaves what follows the longest run and its gap. -/
theorem exists_longest_run (metadata : Config) (ls : List Text) :
    ∃ run gap, ls = run ++ gap ++ (read metadata none ls).2 ∧ IsRun run ∧
      (∀ run', IsRun run' → run' <+: ls → run' <+: run) ∧ IsGap gap (read metadata none ls).2 := by
  obtain ⟨run, gap, hls, hrun, hgap, hstop⟩ :=
    read_isLeft isRun_nil (iff_of_true rfl rfl) metadata ls
  refine ⟨run, gap, hls, hrun, ?_, hgap⟩
  intro run' hrun' hp
  rw [hls, List.append_assoc] at hp
  exact hrun'.prefix_of_stop hp hstop

end KeyLine

end StaticSite
