import StaticSite.Proofs.Document.Block
import StaticSite.Proofs.Document.KeyLines

/-! Documents that are saved with carriage returns. Every line keeps its part, so
there is a block where there was one before and key lines are read alike. -/

namespace StaticSite

open Text (withReturns lines EndsLine isLineEnd isBlankText)

namespace KeyLine

theorem content_withReturns {line : Text} (h : EndsLine line ∨ '\n' ∉ line) :
    content (withReturns line) = content line := by
  rcases h with ⟨u, rfl, hu⟩ | hfeed
  · rw [Text.withReturns_line hu, content, content, Text.dropEnd_append (by simp),
      Text.dropEnd_append (by simp)]
  · rw [Text.withReturns_of_not_mem hfeed]

/-- Key lines are told by their contents. -/
theorem read_map {f : Text → Text} {ls : List Text}
    (h : ∀ line ∈ ls, content (f line) = content line) (metadata : Config) (last : Option Text) :
    read metadata last (ls.map f) =
      ((read metadata last ls).1, (read metadata last ls).2.map f) := by
  induction ls generalizing metadata last with
  | nil => rfl
  | cons line ls ih =>
    rw [List.forall_mem_cons] at h
    -- blank lines too are told by their contents, since line ends are blank
    have hblank : isBlankText (f line) = isBlankText line := by
      rw [← isBlankText_content, h.1, isBlankText_content]
    rw [List.map_cons]
    cases hline : isBlankText line with
    | true =>
      rw [read_cons_of_blank _ _ hline, read_cons_of_blank _ _ (hblank.trans hline)]
    | false =>
      have hsaved := hblank.trans hline
      cases hentry : entry? (content line) with
      | some entry =>
        rw [read_cons_of_entry _ _ hentry, read_cons_of_entry _ _ (by rw [h.1, hentry]), ih h.2]
      | none =>
        have hentry' : entry? (content (f line)) = none := by rw [h.1, hentry]
        cases last with
        | none =>
          rw [read_cons_of_other _ _ hline hentry (.inl rfl),
            read_cons_of_other _ _ hsaved hentry' (.inl rfl), List.map_cons]
        | some key =>
          cases hmore : continuation? (content line) with
          | some value =>
            rw [read_cons_of_continuation _ _ hline hentry hmore,
              read_cons_of_continuation _ _ hsaved hentry' (by rw [h.1, hmore]), ih h.2]
          | none =>
            rw [read_cons_of_other _ _ hline hentry (.inr hmore),
              read_cons_of_other _ _ hsaved hentry' (.inr (by rw [h.1, hmore])), List.map_cons]

end KeyLine

namespace FrontMatter

section Marks

variable {marks endings : List Text}

theorem isMarkLine_append_iff (hmarks : ∀ mark ∈ marks, ∀ c ∈ mark, isLineEnd c = false)
    (hendings : ∀ ending ∈ endings, ∀ c ∈ ending, isLineEnd c = true) {u ending : Text}
    (hu : ∀ c ∈ u, isLineEnd c = false) (hending : ∀ c ∈ ending, isLineEnd c = true) :
    IsMarkLine marks endings (u ++ ending) ↔ ending ∈ endings ∧ ∃ mark ∈ marks, ∃ blanks,
      u = mark ++ blanks ∧ ∀ c ∈ blanks, c = ' ' ∨ c = '\t' := by
  constructor
  · rintro ⟨mark, hmark, blanks, ending', hending', hline, hblanks⟩
    have hstart : ∀ c ∈ mark ++ blanks, isLineEnd c = false := by
      intro c hc
      rcases List.mem_append.mp hc with hc | hc
      · exact hmarks mark hmark c hc
      · rcases hblanks c hc with rfl | rfl
        · decide
        · decide
    -- the line is cut where its line ends begin, however it was put together
    obtain ⟨rfl, rfl⟩ : u = mark ++ blanks ∧ ending = ending' := by
      refine Text.append_inj_of_span (p := fun c => !isLineEnd c) ?_ ?_ ?_ ?_ hline
      · simpa using hu
      · simpa using hstart
      · intro c hc
        simp [hending c (List.mem_of_head? hc)]
      · intro c hc
        simp [hendings ending' hending' c (List.mem_of_head? hc)]
    exact ⟨hending', mark, hmark, blanks, rfl, hblanks⟩
  · rintro ⟨hmem, mark, hmark, blanks, rfl, hblanks⟩
    exact ⟨mark, hmark, blanks, ending, hmem, rfl, hblanks⟩

/-- A line with a mark may end one way where it may end the other. -/
theorem isMarkLine_withReturns (hmarks : ∀ mark ∈ marks, ∀ c ∈ mark, isLineEnd c = false)
    (hendings : ∀ ending ∈ endings, ∀ c ∈ ending, isLineEnd c = true)
    (hboth : "\n".toList ∈ endings ↔ "\r\n".toList ∈ endings) {line : Text} (hreturn : '\r' ∉ line)
    (hline : EndsLine line ∨ '\n' ∉ line) :
    IsMarkLine marks endings (withReturns line) ↔ IsMarkLine marks endings line := by
  rcases hline with ⟨u, rfl, hu⟩ | hfeed
  · have hclean : ∀ c ∈ u, isLineEnd c = false := by
      intro c hc
      have hfeed : c ≠ '\n' := fun he => hu (he ▸ hc)
      have hreturn : c ≠ '\r' := fun he => hreturn (List.mem_append_left _ (he ▸ hc))
      simp [isLineEnd, hfeed, hreturn]
    rw [Text.withReturns_line hu,
      isMarkLine_append_iff hmarks hendings hclean (by simp),
      isMarkLine_append_iff hmarks hendings hclean (by simp)]
    exact and_congr_left fun _ => hboth.symm
  · rw [Text.withReturns_of_not_mem hfeed]

end Marks

variable {t line : Text} {ls inside after : List Text}

theorem isOpening_withReturns (hreturn : '\r' ∉ line) (hline : EndsLine line ∨ '\n' ∉ line) :
    IsOpening (withReturns line) ↔ IsOpening line :=
  isMarkLine_withReturns (by simp [isLineEnd]) (by simp [isLineEnd]) (by simp) hreturn hline

theorem isClosing_withReturns (hreturn : '\r' ∉ line) (hline : EndsLine line ∨ '\n' ∉ line) :
    IsClosing (withReturns line) ↔ IsClosing line :=
  isMarkLine_withReturns (by simp [isLineEnd]) (by simp [isLineEnd]) (by simp) hreturn hline

theorem isCut_map_iff {f : Text → Text} (h : ∀ line ∈ ls, IsClosing (f line) ↔ IsClosing line) :
    IsCut (ls.map f) inside after ↔ ∃ inside' after',
      IsCut ls inside' after' ∧ inside = inside'.map f ∧ after = after'.map f := by
  constructor
  · rintro ⟨closing, heq, hclosing, hne, hinside⟩
    obtain ⟨inside, tail, rfl, rfl, htail⟩ := List.map_eq_append_iff.mp heq
    obtain ⟨closing, after, rfl, rfl, rfl⟩ := List.map_eq_cons_iff.mp htail
    refine ⟨inside, after, ⟨closing, rfl, (h closing (by simp)).mp hclosing, ?_, ?_⟩, rfl, rfl⟩
    · rintro rfl
      exact hne rfl
    · intro line hline
      rw [← h line (List.mem_append_left _ (List.mem_of_mem_tail hline))]
      exact hinside _ (by rw [← List.map_tail]; exact List.mem_map_of_mem hline)
  · rintro ⟨inside, after, ⟨closing, rfl, hclosing, hne, hinside⟩, rfl, rfl⟩
    refine ⟨f closing, by simp, (h closing (by simp)).mpr hclosing, by simpa using hne, ?_⟩
    rw [← List.map_tail, List.forall_mem_map]
    intro line hline
    rw [h line (List.mem_append_left _ (List.mem_of_mem_tail hline))]
    exact hinside line hline

theorem return_not_mem (h : '\r' ∉ t) (hline : line ∈ lines t) : '\r' ∉ line := by
  intro hmem
  rw [← Text.flatten_lines t] at h
  exact h (List.mem_flatten.mpr ⟨line, hline, hmem⟩)

theorem isBlock_withReturns_iff (h : '\r' ∉ t) :
    IsBlock (withReturns t) inside after ↔ ∃ inside' after', IsBlock t inside' after' ∧
      inside = inside'.map withReturns ∧ after = after'.map withReturns := by
  have hclosing : ∀ line ∈ lines t, (IsClosing (withReturns line) ↔ IsClosing line) :=
    fun line hline => isClosing_withReturns (return_not_mem h hline) (Text.mem_lines hline)
  have hopening : ∀ line ∈ lines t, (IsOpening (withReturns line) ↔ IsOpening line) :=
    fun line hline => isOpening_withReturns (return_not_mem h hline) (Text.mem_lines hline)
  rw [IsBlock, Text.lines_withReturns]
  constructor
  · rintro ⟨_, _, hmapped, hopen, hcut⟩
    obtain ⟨opening, rest, hlines, rfl, rfl⟩ := List.map_eq_cons_iff.mp hmapped
    rw [hlines, List.forall_mem_cons] at hclosing hopening
    obtain ⟨inside, after, hcut, hparts⟩ := (isCut_map_iff hclosing.2).mp hcut
    exact ⟨inside, after, ⟨opening, rest, hlines, hopening.1.mp hopen, hcut⟩, hparts⟩
  · rintro ⟨inside', after', ⟨opening, rest, hlines, hopen, hcut⟩, hparts⟩
    rw [hlines, List.forall_mem_cons] at hclosing hopening
    exact ⟨withReturns opening, rest.map withReturns, by rw [hlines, List.map_cons],
      hopening.1.mpr hopen, (isCut_map_iff hclosing.2).mpr ⟨inside', after', hcut, hparts⟩⟩

theorem block?_withReturns (h : '\r' ∉ t) :
    block? (withReturns t) = (block? t).map (Prod.map withReturns withReturns) := by
  apply Option.ext
  rintro ⟨block, rest⟩
  rw [block?_eq_some_iff, Option.map_eq_some_iff]
  constructor
  · rintro ⟨_, _, hsaved, rfl, rfl⟩
    obtain ⟨inside, after, hblock, rfl, rfl⟩ := (isBlock_withReturns_iff h).mp hsaved
    refine ⟨_, block?_eq_some_iff.mpr ⟨inside, after, hblock, rfl, rfl⟩, ?_⟩
    simp
  · rintro ⟨⟨_, _⟩, hsome, heq⟩
    obtain ⟨inside, after, hblock, rfl, rfl⟩ := block?_eq_some_iff.mp hsome
    obtain ⟨rfl, rfl⟩ := Prod.mk.inj heq
    exact ⟨inside.map withReturns, after.map withReturns,
      (isBlock_withReturns_iff h).mpr ⟨inside, after, hblock, rfl, rfl⟩,
      Text.withReturns_flatten inside, Text.withReturns_flatten after⟩

theorem trimBody_withReturns (t : Text) : trimBody (withReturns t) = withReturns (trimBody t) :=
  Text.dropStart_withReturns t

theorem ofKeyLines_withReturns (t : Text) :
    ofKeyLines (withReturns t) =
      { ofKeyLines t with body := withReturns (ofKeyLines t).body } := by
  have hcontent : ∀ line ∈ lines t, KeyLine.content (withReturns line) = KeyLine.content line :=
    fun line hline => KeyLine.content_withReturns (Text.mem_lines hline)
  rw [ofKeyLines, Text.lines_withReturns, KeyLine.read_map hcontent]
  dsimp only
  rw [← Text.withReturns_flatten, trimBody_withReturns]
  rfl

section Parsed

variable (registry : Registry) {block : Text}

/-- A block that is not left in the text. -/
def IsMapping (block : Text) : Prop :=
  ∃ metadata, registry.parse block "front matter" = .ok (.mapping metadata)

theorem body_ofBlock_withReturns
    (h : IsMapping registry (withReturns block) ↔ IsMapping registry block) (t rest : Text) :
    (ofBlock registry (withReturns t) (withReturns block) (withReturns rest)).body =
      withReturns (ofBlock registry t block rest).body := by
  by_cases hblock : IsMapping registry block
  · obtain ⟨_, hsaved⟩ := h.mpr hblock
    obtain ⟨_, hblock⟩ := hblock
    rw [ofBlock_of_mapping hsaved, ofBlock_of_mapping hblock]
    exact trimBody_withReturns rest
  · have hsaved := mt h.mp hblock
    rw [IsMapping, not_exists] at hblock hsaved
    rw [ofBlock_of_not_mapping hsaved, ofBlock_of_not_mapping hblock]

theorem parse_withReturns
    (h : Yaml.Node.ofText? (withReturns block) = Yaml.Node.ofText? block) (name : Text) :
    registry.parse (withReturns block) name = registry.parse block name := by
  rw [Registry.parse, Registry.parse, Text.isBlankText_withReturns, h]

theorem ofBlock_withReturns
    (h : Yaml.Node.ofText? (withReturns block) = Yaml.Node.ofText? block) (t rest : Text) :
    ofBlock registry (withReturns t) (withReturns block) (withReturns rest) =
      { ofBlock registry t block rest with
        body := withReturns (ofBlock registry t block rest).body } := by
  rw [ofBlock, ofBlock, parse_withReturns registry h, trimBody_withReturns]
  split
  · rfl
  · rfl

end Parsed

/-- Carriage returns before the line feeds of a text put them into its block and into what follows
the block, and change nothing else about these. The body is the old one with carriage returns where
both blocks are mappings or neither is. The metadata is the same if the block reads the same, and
that of key lines always is. -/
theorem ofText_withReturns (registry : Registry) {t : Text} (h : '\r' ∉ t) :
    (block? (withReturns t) = none ↔ block? t = none) ∧
    (∀ block rest, block? t = some (block, rest) →
      block? (withReturns t) = some (withReturns block, withReturns rest) ∧
      ((IsMapping registry (withReturns block) ↔ IsMapping registry block) →
        (ofText registry (withReturns t)).body = withReturns (ofText registry t).body) ∧
      (Yaml.Node.ofText? (withReturns block) = Yaml.Node.ofText? block →
        ofText registry (withReturns t) =
          { ofText registry t with body := withReturns (ofText registry t).body })) ∧
    (block? t = none → ofText registry (withReturns t) =
      { ofText registry t with body := withReturns (ofText registry t).body }) := by
  have hsaved := block?_withReturns h
  refine ⟨by rw [hsaved, Option.map_eq_none_iff], ?_, ?_⟩
  · intro block rest hblock
    rw [hblock, Option.map_some, Prod.map_apply] at hsaved
    simp only [ofText, hblock, hsaved]
    exact ⟨trivial, fun hmapping => body_ofBlock_withReturns registry hmapping t rest,
      fun hyaml => ofBlock_withReturns registry hyaml t rest⟩
  · intro hnone
    rw [hnone, Option.map_none] at hsaved
    simp only [ofText, hnone, hsaved]
    exact ofKeyLines_withReturns t

theorem ofText_withReturns_guide :
    let guide : Text := "---\ntitle: Guide\ntext: 'a\n\n  b'\n--- \t\n\nText"
    let block : Text := "title: Guide\ntext: 'a\n\n  b'\n"
    let notes : Text := "Title: Notes\n\tto all\n \n\nText\n"
    '\r' ∉ guide ∧ block? guide = some (block, "\nText".toList) ∧
      block? (withReturns guide) = some (withReturns block, "\r\nText".toList) ∧
      (IsMapping Registry.empty (withReturns block) ↔ IsMapping Registry.empty block) ∧
      (ofText Registry.empty (withReturns guide)).body = "Text" ∧
      Yaml.Node.ofText? (withReturns block) = Yaml.Node.ofText? block ∧
      ofText Registry.empty (withReturns guide) =
        ⟨[("title", .string "Guide"), ("text", .string "a\nb")], "Text"⟩ ∧
    '\r' ∉ notes ∧ block? notes = none ∧
      ofText Registry.empty (withReturns notes) =
        ⟨[("title", .string "Notes to all")], "Text\r\n"⟩ := by
  intro guide block notes
  have hblock : block? guide = some (block, "\nText".toList) := by decide
  have hnone : block? notes = none := by decide
  have hguide : '\r' ∉ guide := by decide
  have hnotes : '\r' ∉ notes := by decide
  have htokens : Yaml.Token.ofText? (withReturns block) = Yaml.Token.ofText? block := by
    decide +kernel
  have hyaml : Yaml.Node.ofText? (withReturns block) = Yaml.Node.ofText? block := by
    rw [Yaml.Node.ofText?, Yaml.Node.ofText?, htokens]
  have hparse : Registry.empty.parse block "front matter" = .ok (.mapping _) :=
    Registry.parse_of_texts? [("title", "Guide"), ("text", "a\nb")] (by decide +kernel)
  have hmapping : IsMapping Registry.empty (withReturns block) ↔ IsMapping Registry.empty block := by
    rw [IsMapping, parse_withReturns Registry.empty hyaml, ← IsMapping]
  have hbefore : ofText Registry.empty guide =
      ⟨[("title", .string "Guide"), ("text", .string "a\nb")], "Text"⟩ := by
    rw [ofText, hblock]
    exact ofBlock_of_mapping hparse guide _
  obtain ⟨hsaved, hbody, hall⟩ := (ofText_withReturns Registry.empty hguide).2.1 _ _ hblock
  have hkeys := (ofText_withReturns Registry.empty hnotes).2.2 hnone
  refine ⟨hguide, hblock, hsaved, hmapping, ?_, hyaml, ?_, hnotes, hnone, hkeys⟩
  · rw [hbody hmapping, hbefore]
    rfl
  · rw [hall hyaml, hbefore]
    rfl

end FrontMatter

end StaticSite
