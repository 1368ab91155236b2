import StaticSite.Proofs.Link.Outside
import StaticSite.Proofs.Link.Parts

/-! Schemes of links. A rewritten site link reads as an external one exactly
when the way from the page starts with a name that reads as a scheme. -/

namespace StaticSite.Link

open SitePath

theorem isSchemeChar_of_isAlpha {c : Char} (h : c.isAlpha = true) : isSchemeChar c = true := by
  simp [isSchemeChar, Char.isAlphanum, h]

theorem hasScheme_iff (link : Text) :
    hasScheme link = true ↔ ∃ c scheme rest, link = c :: scheme ++ ':' :: rest ∧
      c.isAlpha = true ∧ ∀ d ∈ scheme, isSchemeChar d = true := by
  constructor
  · intro h
    cases hs : Text.splitFirst? ':' link with
    | none => simp [hasScheme, hs] at h
    | some parts =>
      obtain ⟨before, rest⟩ := parts
      cases before with
      | nil => simp [hasScheme, hs] at h
      | cons c scheme =>
        simp only [hasScheme, hs, Bool.and_eq_true, List.all_eq_true] at h
        exact ⟨c, scheme, rest, (Text.splitFirst?_eq_some_iff.mp hs).1, h⟩
  · rintro ⟨c, scheme, rest, rfl, hc, hscheme⟩
    have hcolon : ':' ∉ c :: scheme := by
      intro hmem
      rcases List.mem_cons.mp hmem with rfl | hmem
      · exact absurd hc (by decide)
      · exact absurd (hscheme ':' hmem) (by decide)
    have hs : Text.splitFirst? ':' (c :: scheme ++ ':' :: rest) = some (c :: scheme, rest) :=
      Text.splitFirst?_eq_some_iff.mpr ⟨rfl, hcolon⟩
    simp only [hasScheme, hs, hc, Bool.true_and, List.all_eq_true]
    exact hscheme

theorem EndsSegment.head_not_scheme {t : Text} (h : EndsSegment t) {c : Char}
    (hc : t.head? = some c) : c ≠ ':' ∧ isSchemeChar c = false := by
  rcases h c hc with rfl | hs
  · decide
  · simp only [isSuffixStart, Bool.or_eq_true, beq_iff_eq] at hs
    rcases hs with rfl | rfl
    · decide
    · decide

theorem hasScheme_append {s r : Text} (hr : EndsSegment r) :
    hasScheme (s ++ r) = true ↔ hasScheme s = true := by
  rw [hasScheme_iff, hasScheme_iff]
  constructor
  · rintro ⟨c, scheme, rest, he, hc, hscheme⟩
    have hchars : ∀ d ∈ c :: scheme, isSchemeChar d = true := by
      intro d hd
      rcases List.mem_cons.mp hd with rfl | hd
      · exact isSchemeChar_of_isAlpha hc
      · exact hscheme d hd
    rcases List.append_eq_append_iff.mp he with ⟨t, ht, hrest⟩ | ⟨t, ht, hrest⟩
    -- the scheme would run over into the rest, which starts with no scheme character
    · exfalso
      cases t with
      | nil => exact (hr.head_not_scheme (c := ':') (by simp [hrest])).1 rfl
      | cons d t =>
        have hd := hchars d (by simp [ht])
        have hno := (hr.head_not_scheme (c := d) (by simp [hrest])).2
        simp [hd] at hno
    · cases t with
      | nil =>
        have hcolon : r = ':' :: rest := by simpa using hrest.symm
        exact absurd rfl (hr.head_not_scheme (c := ':') (by simp [hcolon])).1
      | cons d t =>
        have hd : ':' = d := by simpa using congrArg List.head? hrest
        exact ⟨c, scheme, t, by rw [ht, hd], hc, hscheme⟩
  · rintro ⟨c, scheme, rest, rfl, hc, hscheme⟩
    exact ⟨c, scheme, rest ++ r, by simp, hc, hscheme⟩

theorem isExternal_eq_hasScheme {t : Text} (h : t.head? ≠ some '/') :
    isExternal t = hasScheme t := by
  have hslashes : t.startsWith "//" = false := by
    cases t with
    | nil => rfl
    | cons c t =>
      have hc : c ≠ '/' := by simpa using h
      simp [Text.startsWith, List.isPrefixOf, Ne.symm hc]
  rw [isExternal, hslashes, Bool.false_or]

@[simp] theorem isExternal_dot (t : Text) : isExternal ('.' :: t) = false := by
  rw [isExternal_eq_hasScheme (by simp), Bool.eq_false_iff, Ne, hasScheme_iff]
  rintro ⟨c, scheme, rest, he, hc, _⟩
  have hdot : '.' = c := by simpa using congrArg List.head? he
  exact absurd hc (by rw [← hdot]; decide)

theorem climbing_head {levels : Nat} (h : levels ≠ 0) (relative : Text) :
    ∃ t, climbing levels relative = '.' :: t := by
  obtain ⟨n, rfl⟩ := Nat.exists_eq_succ_of_ne_zero h
  by_cases hdot : relative = "."
  · cases n with
    | zero => exact ⟨".", by simp [climbing, hdot]⟩
    | succ n =>
      exact ⟨"./" ++ (List.replicate n ("../" : Text)).flatten ++ "..",
        by simp [climbing, hdot, List.replicate_succ]⟩
  · by_cases hdir : relative = "./"
    · exact ⟨"./" ++ (List.replicate n ("../" : Text)).flatten,
        by simp [climbing, hdir, List.replicate_succ]⟩
    · exact ⟨"./" ++ (List.replicate n ("../" : Text)).flatten ++ relative,
        by simp only [climbing, if_neg h, if_neg hdot, if_neg hdir]; simp [List.replicate_succ]⟩

/-- The way from a page to a target starts with a name that reads as a scheme. -/
def Exposed (url target : Text) : Prop :=
  ∃ name rest, resolve target = resolve (directory url) ++ name :: rest ∧ hasScheme name = true

/-- Steps up and the dot are no schemes, so a scheme is written only below the page's directory. -/
theorem exposed_iff_written (url target : Text) :
    Exposed url target ↔ ∃ name rest,
      written (resolve (directory url)) (resolve target) = name :: rest ∧ hasScheme name = true := by
  constructor
  · rintro ⟨name, rest, hdest, hname⟩
    refine ⟨name, rest, ?_, hname⟩
    rw [written, hdest, between_append, if_neg (by simp)]
  · rintro ⟨name, rest, hwritten, hname⟩
    by_cases hb : between (resolve (directory url)) (resolve target) = []
    · rw [written, if_pos hb] at hwritten
      rw [← (List.cons.inj hwritten).1] at hname
      exact absurd hname (by decide)
    · rw [written, if_neg hb, between] at hwritten
      have hc := common_le_left (resolve (directory url)) (resolve target)
      generalize hups : (resolve (directory url)).length -
        common (resolve (directory url)) (resolve target) = ups at hwritten
      cases ups with
      | zero =>
        -- without steps up the whole directory is shared
        have hwhole : common (resolve (directory url)) (resolve target) =
            (resolve (directory url)).length := by omega
        have htake := take_common (resolve (directory url)) (resolve target)
        have hdest := List.take_append_drop (resolve (directory url)).length (resolve target)
        rw [hwhole, List.take_length] at htake
        simp only [List.replicate_zero, List.nil_append, hwhole] at hwritten
        rw [← htake, hwritten] at hdest
        exact ⟨name, rest, hdest.symm, hname⟩
      | succ ups =>
        rw [List.replicate_succ, List.cons_append] at hwritten
        rw [← (List.cons.inj hwritten).1] at hname
        exact absurd hname (by decide)

theorem isExternal_relative_iff (target url : Text) {suffix : Text} (hs : EndsSegment suffix) :
    isExternal (relative target url ++ suffix) = true ↔ Exposed url target := by
  have hhead : (relative target url ++ suffix).head? ≠ some '/' := by
    obtain ⟨c, t, ht⟩ := List.exists_cons_of_ne_nil (relative_ne_nil target url)
    have hc := head?_relative_ne target url
    rw [ht] at hc ⊢
    simpa using hc
  obtain ⟨name, rest, hwritten⟩ := List.exists_cons_of_ne_nil
    (written_ne_nil (resolve (directory url)) (resolve target))
  obtain ⟨r, hr, hsep⟩ := Text.exists_joinWith_cons '/' name rest
  have hrest : EndsSegment r := fun c hc => .inl (hsep c hc)
  have hslash : EndsSegment (if target.endsWith "/" then ['/'] else []) := by
    intro c hc
    by_cases hdir : target.endsWith "/" = true
    · rw [if_pos hdir] at hc
      exact .inl (Option.some.inj hc).symm
    · rw [if_neg hdir] at hc
      cases hc
  rw [isExternal_eq_hasScheme hhead, relative_eq, exposed_iff_written, hwritten, hr,
    List.append_assoc, List.append_assoc, hasScheme_append (hrest.append (hslash.append hs))]
  constructor
  · intro hname
    exact ⟨name, rest, rfl, hname⟩
  · rintro ⟨name', rest', he, hname⟩
    rw [(List.cons.inj he).1]
    exact hname

theorem pathOn_inside (page : Placement) {target : Text}
    (h : target.startsWith "/" = true ∨ levelsAbove target = 0) :
    pathOn page target = relative target page.url := by
  by_cases hslash : target.startsWith "/" = true
  · simp only [pathOn, if_pos hslash, climbing, if_true]
  · have hzero := h.resolve_left hslash
    simp only [pathOn, if_neg hslash, hzero, climbing, if_true]

theorem isExternal_pathOn_iff (page : Placement) (target : Text) {suffix : Text}
    (hs : EndsSegment suffix) :
    isExternal (pathOn page target ++ suffix) = true ↔
      (target.startsWith "/" ∨ levelsAbove target = 0) ∧ Exposed page.url target := by
  by_cases h : target.startsWith "/" = true ∨ levelsAbove target = 0
  · rw [pathOn_inside page h, isExternal_relative_iff target page.url hs]
    exact ⟨fun he => ⟨h, he⟩, fun he => he.2⟩
  · obtain ⟨hslash, hzero⟩ := not_or.mp h
    obtain ⟨t, ht⟩ := climbing_head hzero (relative target page.url)
    have hpath : pathOn page target = '.' :: t := by
      simp only [pathOn, if_neg hslash, ht]
    rw [hpath, List.cons_append, isExternal_dot]
    exact ⟨fun he => Bool.noConfusion he, fun he => absurd he.1 h⟩

theorem isExternal_onPage_iff {link : Text} (hsite : isExternal link = false) (page : Placement)
    (base : LinkBase) :
    isExternal (onPage page base link) = true ↔
      ∃ path suffix, ofText? link = some ⟨path, suffix⟩ ∧
        ((target page base path).startsWith "/" ∨ levelsAbove (target page base path) = 0) ∧
        Exposed page.url (target page base path) := by
  cases hlink : ofText? link with
  | none =>
    rw [onPage_of_none hlink, hsite]
    simp
  | some parts =>
    obtain ⟨path, suffix⟩ := parts
    rw [onPage_eq hlink, isExternal_pathOn_iff page _ (endsSegment_suffix hlink), ← hlink]
    exact (exists_parts_iff hlink fun path =>
      ((target page base path).startsWith "/" ∨ levelsAbove (target page base path) = 0) ∧
        Exposed page.url (target page base path)).symm

end StaticSite.Link
