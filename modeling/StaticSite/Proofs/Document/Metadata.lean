import StaticSite.Proofs.Document.Block
import StaticSite.Proofs.Document.Grouped
import StaticSite.Proofs.Document.KeyLines
import StaticSite.Proofs.Text.Trimmed

/-! Documents with metadata in key lines. Entries that are written as such
lines are read back, and a document loses no more than those lines, a blank one
and line ends. -/

namespace StaticSite

namespace KeyLine

open Text (isBlank isBlankText isLineEnd lines EndsLine)

/-- A value that has its line for itself: without a line feed, nor blanks around it. -/
def IsValue (v : Text) : Prop := Text.trim v = v ∧ '\n' ∉ v

/-- A key with its value and the values that continue this one on lines of their own. -/
structure Entry where
  key : Text
  first : Text
  more : List Text
  key_ne_nil : key ≠ []
  key_chars : ∀ c ∈ key, isKeyChar c = true
  first_value : IsValue first
  more_values : ∀ v ∈ more, v ≠ [] ∧ IsValue v

def keyLine (key value : Text) : Text := key ++ ": " ++ value ++ "\n"

def moreLine (value : Text) : Text := "    " ++ value ++ "\n"

namespace Entry

def written (e : Entry) : List Text := keyLine e.key e.first :: e.more.map moreLine

def pairs (e : Entry) : List (Text × Text) := (e.first :: e.more).map fun v => (Text.lower e.key, v)

end Entry

/-- Entries by their lines, an empty line and a body. -/
def write (entries : List Entry) (body : Text) : Text :=
  (entries.flatMap Entry.written).flatten ++ "\n" ++ body

theorem content_concat_feed {t : Text} (h : ∀ c, t.getLast? = some c → isLineEnd c = false) :
    content (t ++ "\n") = t := by
  have hfeed : content (t ++ "\n") = Text.dropEnd isLineEnd t :=
    List.rdropWhile_concat_pos isLineEnd t '\n' rfl
  rw [hfeed, Text.dropEnd_eq, List.rdropWhile_eq_self_iff]
  intro hne hlast
  rw [h _ (List.getLast?_eq_some_getLast hne)] at hlast
  cases hlast

theorem IsValue.content {v : Text} (h : IsValue v) (head : Text) :
    content (head ++ ' ' :: v ++ "\n") = head ++ ' ' :: v := by
  apply content_concat_feed
  intro c hc
  rw [List.getLast?_append_of_ne_nil _ (List.cons_ne_nil ' ' v)] at hc
  cases v with
  | nil => exact Option.some.inj hc ▸ rfl
  | cons d v =>
    rw [List.getLast?_cons_cons] at hc
    have hblank := (Text.ends_of_trim_eq h.1).2 c hc
    by_contra hend
    rw [isBlank_of_isLineEnd c (by simpa using hend)] at hblank
    cases hblank

theorem entry?_keyLine {key value : Text} (hne : key ≠ []) (hkey : ∀ c ∈ key, isKeyChar c = true)
    (hvalue : IsValue value) :
    entry? (content (keyLine key value)) = some (Text.lower key, value) := by
  have hcontent := hvalue.content (key ++ ":")
  have hline : keyLine key value = key ++ ":" ++ ' ' :: value ++ "\n" := by simp [keyLine]
  rw [hline, hcontent, entry?_eq_some_iff]
  refine ⟨[], key, ' ' :: value, by simp, nofun, by simp, hne, hkey, rfl, ?_⟩
  rw [Text.trim_cons_of_blank (by decide), hvalue.1]

theorem content_moreLine {value : Text} (h : IsValue value) :
    content (moreLine value) = "    " ++ value := h.content "   "

theorem entry?_moreLine {value : Text} (h : IsValue value) :
    entry? (content (moreLine value)) = none := by
  have hindent : ¬ (("    " ++ value : Text).takeWhile (· == ' ')).length ≤ 3 := by
    change ¬ (value.takeWhile (· == ' ')).length + 4 ≤ 3
    omega
  rw [content_moreLine h, entry?]
  split
  · rw [if_neg fun hshape => hindent hshape.1]
  · rfl

theorem continuation?_moreLine {value : Text} (h : IsValue value) :
    continuation? (content (moreLine value)) = some value := by
  rw [content_moreLine h]
  exact congrArg some h.1

theorem moreLine_not_blank {value : Text} (hne : value ≠ []) (h : IsValue value) :
    isBlankText (moreLine value) = false := by
  obtain ⟨c, value, rfl⟩ := List.exists_cons_of_ne_nil hne
  rw [Text.isBlankText, List.all_eq_false]
  have hblank : isBlank c = false := (Text.ends_of_trim_eq h.1).1 c rfl
  exact ⟨c, by simp [moreLine], by simp [hblank]⟩

theorem read_more (pairs : List (Text × Text)) (key : Text) {values : List Text}
    (h : ∀ v ∈ values, v ≠ [] ∧ IsValue v) (ls : List Text) :
    read (grouped pairs) (some key) (values.map moreLine ++ ls) =
      read (grouped (pairs ++ values.map fun v => (key, v))) (some key) ls := by
  induction values generalizing pairs with
  | nil => simp
  | cons v values ih =>
    rw [List.forall_mem_cons] at h
    obtain ⟨⟨hne, hv⟩, hrest⟩ := h
    rw [List.map_cons, List.cons_append, read_cons_of_continuation _ _ (moreLine_not_blank hne hv)
      (entry?_moreLine hv) (continuation?_moreLine hv), append_grouped, ih _ hrest]
    simp

/-- Reading the lines of an entry adds its values under its key. -/
theorem read_written (pairs : List (Text × Text)) (last : Option Text) (e : Entry)
    (ls : List Text) :
    read (grouped pairs) last (e.written ++ ls) =
      read (grouped (pairs ++ e.pairs)) (some (Text.lower e.key)) ls := by
  rw [Entry.written, List.cons_append,
    read_cons_of_entry _ _ (entry?_keyLine e.key_ne_nil e.key_chars e.first_value),
    append_grouped, read_more _ _ e.more_values]
  simp [Entry.pairs]

theorem read_entries (entries : List Entry) (pairs : List (Text × Text)) (last : Option Text)
    (ls : List Text) :
    read (grouped pairs) last (entries.flatMap Entry.written ++ "\n".toList :: ls) =
      (grouped (pairs ++ entries.flatMap Entry.pairs), ls) := by
  induction entries generalizing pairs last with
  | nil =>
    rw [List.flatMap_nil, List.nil_append, read_cons_of_blank _ _ (by decide)]
    simp
  | cons e entries ih =>
    rw [List.flatMap_cons, List.append_assoc, read_written, ih]
    simp

theorem Entry.endsLine (e : Entry) : ∀ line ∈ e.written, EndsLine line := by
  rw [Entry.written, List.forall_mem_cons, List.forall_mem_map]
  refine ⟨⟨e.key ++ ": " ++ e.first, rfl, ?_⟩, ?_⟩
  · have hkey : '\n' ∉ e.key := fun hc => absurd (e.key_chars _ hc) (by decide)
    simp [hkey, e.first_value.2]
  · intro v hv
    exact ⟨"    " ++ v, rfl, by simp [(e.more_values v hv).2.2]⟩

theorem lines_write (entries : List Entry) (body : Text) :
    lines (write entries body) = entries.flatMap Entry.written ++ "\n".toList :: lines body := by
  have hends : ∀ line ∈ entries.flatMap Entry.written, EndsLine line := by
    intro line hline
    obtain ⟨e, _, he⟩ := List.mem_flatMap.mp hline
    exact e.endsLine line he
  rw [write, List.append_assoc, Text.lines_flatten_append hends]
  rfl

end KeyLine

namespace FrontMatter

open Text (lines isLineEnd)
open KeyLine

theorem IsOpening.mem {line : Text} (h : IsOpening line) : '-' ∈ line ∧ ':' ∉ line := by
  obtain ⟨mark, hmark, blanks, ending, hending, rfl, hblanks⟩ := h
  rw [List.mem_singleton] at hmark
  subst hmark
  have hcolon : ':' ∉ blanks := fun hc => absurd (hblanks _ hc) (by decide)
  simp only [List.mem_cons, List.not_mem_nil, or_false] at hending
  rcases hending with rfl | rfl
  · simp [hcolon]
  · simp [hcolon]

theorem not_isBlock_write (entries : List Entry) (body : Text) :
    ¬ ∃ inside after, IsBlock (write entries body) inside after := by
  rintro ⟨inside, after, opening, rest, hlines, hopening, _⟩
  rw [lines_write] at hlines
  cases entries with
  | nil =>
    obtain ⟨rfl, _⟩ := List.cons.inj hlines
    exact absurd hopening.mem.1 (by decide)
  | cons e entries =>
    obtain ⟨rfl, _⟩ := List.cons.inj hlines
    exact hopening.mem.2 (by simp [keyLine])

theorem ofText_write (registry : Registry) (entries : List Entry) (body : Text) :
    ofText registry (write entries body) =
      ⟨grouped (entries.flatMap Entry.pairs), body.dropWhile isLineEnd⟩ := by
  have hread : read [] none (lines (write entries body)) =
      (grouped (entries.flatMap Entry.pairs), lines body) := by
    rw [lines_write]
    exact read_entries entries [] none (lines body)
  rw [ofText, block?_eq_none_iff.mpr (not_isBlock_write entries body)]
  dsimp only
  rw [ofKeyLines, hread]
  dsimp only
  rw [Text.flatten_lines, trimBody, Text.dropStart]

/-- A text without its metadata. What it loses are the longest run of key lines and lines that
continue them, the next line if it is blank, and line ends. -/
def IsStripped (t body : Text) : Prop :=
  ∃ run gap rest ends, lines t = run ++ gap ++ rest ∧
    IsRun run ∧ (∀ run', IsRun run' → run' <+: lines t → run' <+: run) ∧ IsGap gap rest ∧
    t = run.flatten ++ gap.flatten ++ ends ++ body ∧ (∀ c ∈ ends, c = '\r' ∨ c = '\n') ∧
    ∀ c, body.head? = some c → c ≠ '\r' ∧ c ≠ '\n'

theorem isStripped_ofKeyLines (t : Text) : IsStripped t (ofKeyLines t).body := by
  let rest := (read [] none (lines t)).2
  obtain ⟨run, gap, hlines, hrun, hlongest, hgap⟩ := exists_longest_run [] (lines t)
  obtain ⟨hrest, hends, hbody⟩ := Text.span_iff.mp
    ⟨(rfl : rest.flatten.takeWhile isLineEnd = _), (rfl : _ = (ofKeyLines t).body)⟩
  refine ⟨run, gap, rest, rest.flatten.takeWhile isLineEnd, hlines, hrun, hlongest, hgap, ?_⟩
  refine ⟨?_, ?_, ?_⟩
  · rw [List.append_assoc, ← hrest, ← List.flatten_append, ← List.flatten_append, ← hlines,
      Text.flatten_lines]
  · exact fun c hc => Text.isLineEnd_iff.mp (hends c hc)
  · intro c hc
    have hkept := hbody c hc
    rwa [← Bool.not_eq_true, Text.isLineEnd_iff, not_or] at hkept

/-- Entries that are written as key lines are read back from the document, and a document without
a block loses no more than its key lines. -/
theorem ofText_keyLines (registry : Registry) :
    (∀ entries body, ofText registry (write entries body) =
      ⟨grouped (entries.flatMap Entry.pairs), body.dropWhile isLineEnd⟩) ∧
    ∀ t, (¬ ∃ inside after, IsBlock t inside after) → IsStripped t (ofText registry t).body := by
  refine ⟨ofText_write registry, ?_⟩
  intro t hnone
  rw [ofText, block?_eq_none_iff.mpr hnone]
  exact isStripped_ofKeyLines t

theorem ofText_keyLines_tags :
    let tags : Entry := ⟨"Tags", "a", ["b: c", "d"], by simp, by simp [isKeyChar],
      ⟨rfl, by simp⟩, by simpa using ⟨⟨rfl, by simp⟩, ⟨rfl, by simp⟩⟩⟩
    let rule : Entry := ⟨"---", [], [], by simp, by simp [isKeyChar], ⟨rfl, by simp⟩, by simp⟩
    let more : Entry := ⟨"TAGS", "e", [], by simp, by simp [isKeyChar], ⟨rfl, by simp⟩, by simp⟩
    let t : Text := "Tags: a\n\tb\n   c: d\n    \n\r\nText"
    ofText Registry.empty (write [rule, tags, more] "\nText") =
      ⟨[("---", .string []), ("tags", .string "a b: c d e")], "Text"⟩ ∧
    (¬ ∃ inside after, IsBlock t inside after) ∧ IsStripped t (ofText Registry.empty t).body := by
  intro tags rule more t
  have ht : ¬ ∃ inside after, IsBlock t inside after := block?_eq_none_iff.mp (by decide)
  have hread := (ofText_keyLines Registry.empty).1 [rule, tags, more] "\nText"
  exact ⟨hread, ht, (ofText_keyLines Registry.empty).2 t ht⟩

end FrontMatter

end StaticSite
