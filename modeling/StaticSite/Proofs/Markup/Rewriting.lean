import StaticSite.Proofs.Link.Characters
import StaticSite.Proofs.Markup.Attribute

/-! Markup that is rewritten twice. A function that writes no delimiters of its
own and leaves no value empty keeps every piece of a text in its place, so the
links of the rewritten text are the rewritten links. -/

namespace StaticSite.Markup

variable {f : Text → Text}

@[simp] theorem pieces_nil : pieces [] = [] := by
  rw [pieces]
  rfl

@[simp] theorem render_nil : render [] = [] := rfl

@[simp] theorem render_cons_plain (c : Char) (ps : List Piece) :
    render (.plain c :: ps) = c :: render ps := rfl

@[simp] theorem render_cons_link (a : Attribute) (ps : List Piece) :
    render (.link a :: ps) = a.render ++ render ps := rfl

@[simp] theorem render_append (ps qs : List Piece) : render (ps ++ qs) = render ps ++ render qs :=
  List.flatMap_append

@[simp] theorem render_plain (t : Text) : render (t.map .plain) = t := by
  induction t with
  | nil => rfl
  | cons c t ih => simp [ih]

@[simp] theorem Piece.mapValue_plain (f : Text → Text) (c : Char) :
    (plain c).mapValue f = plain c := rfl

@[simp] theorem Piece.mapValue_link (f : Text → Text) (a : Attribute) :
    (link a).mapValue f = link { a with value := f a.value } := rfl

@[simp] theorem Piece.mapValue_comp_plain (f : Text → Text) : mapValue f ∘ plain = plain := rfl

theorem pieces_of_some {t rest : Text} {a : Attribute} (h : takeAttribute? t = some (a, rest)) :
    pieces t = .link a :: pieces rest := by
  rw [pieces]
  split
  · rename_i he
    rw [h] at he
    simp only [Option.some.injEq, Prod.mk.injEq] at he
    rw [he.1, he.2]
  · rename_i he
    rw [h] at he
    cases he

theorem pieces_of_none {t : Text} {c : Char} (h : takeAttribute? (c :: t) = none) :
    pieces (c :: t) = .plain c :: pieces t := by
  rw [pieces]
  split
  · rename_i he
    rw [h] at he
    cases he
  · rfl

theorem rewrite_of_some {t rest : Text} {a : Attribute} (h : takeAttribute? t = some (a, rest)) :
    rewrite f t = Attribute.render { a with value := f a.value } ++ rewrite f rest := by
  simp [rewrite, pieces_of_some h]

theorem rewrite_of_none {t : Text} {c : Char} (h : takeAttribute? (c :: t) = none) :
    rewrite f (c :: t) = c :: rewrite f t := by
  simp [rewrite, pieces_of_none h]

@[simp] theorem rewrite_nil : rewrite f [] = [] := by simp [rewrite]

/-- Up to the letters of a name a text is rewritten character by character. -/
theorem exists_of_rewrite_eq_cons {t w : Text} {x : Char} (h : rewrite f t = x :: w) :
    ∃ t', t = x :: t' ∧ (rewrite f t' = w ∨ Text.isBlank x = true ∧
      ∃ d, t'.head? = some d ∧ w.head? = some d ∧ isBareChar d = true) := by
  cases ht : takeAttribute? t with
  | none =>
    cases t with
    | nil => simp at h
    | cons c t =>
      rw [rewrite_of_none ht] at h
      obtain ⟨rfl, rfl⟩ := List.cons.inj h
      exact ⟨t, rfl, .inl rfl⟩
  | some read =>
    obtain ⟨a, rest⟩ := read
    rw [rewrite_of_some ht] at h
    obtain ⟨rfl, ⟨blank, name, before, after, hlead, hblank, hname, _⟩, _⟩ :=
      takeAttribute?_eq_some_iff.mp ht
    obtain ⟨d, name, rfl⟩ := List.exists_cons_of_ne_nil hname.ne_nil
    simp only [Attribute.render, hlead, List.cons_append] at h ⊢
    obtain ⟨rfl, rfl⟩ := List.cons.inj h
    exact ⟨_, rfl, .inr ⟨hblank, d, rfl, rfl, hname.bare d List.mem_cons_self⟩⟩

theorem head?_rewrite (f : Text → Text) (t : Text) : (rewrite f t).head? = t.head? := by
  cases hr : rewrite f t with
  | nil =>
    cases ht : takeAttribute? t with
    | none =>
      cases t with
      | nil => rfl
      | cons c t =>
        rw [rewrite_of_none ht] at hr
        cases hr
    | some read =>
      obtain ⟨_, ⟨blank, name, before, after, hlead, _⟩, _⟩ := takeAttribute?_eq_some_iff.mp ht
      rw [rewrite_of_some ht] at hr
      simp [Attribute.render, hlead] at hr
  | cons x w =>
    obtain ⟨t', rfl, _⟩ := exists_of_rewrite_eq_cons hr
    rfl

theorem exists_of_rewrite_eq_append {t u w : Text} (hu : ∀ c ∈ u, Text.isBlank c = false)
    (h : rewrite f t = u ++ w) : ∃ t', t = u ++ t' ∧ rewrite f t' = w := by
  induction u generalizing t with
  | nil => exact ⟨t, rfl, h⟩
  | cons x u ih =>
    rw [List.forall_mem_cons] at hu
    obtain ⟨t₁, rfl, hrest | ⟨hx, _⟩⟩ := exists_of_rewrite_eq_cons h
    · obtain ⟨t', rfl, hw⟩ := ih hu.2 hrest
      exact ⟨t', rfl, hw⟩
    · rw [hu.1] at hx
      cases hx

/-- Blanks and the next character are those of the text. Only if that character is the
first letter of a name it may be one that belongs to an attribute. -/
theorem exists_of_rewrite_eq_blanks {t u w : Text} {d : Char}
    (hu : ∀ c ∈ u, Text.isBlank c = true) (hd : Text.isBlank d = false)
    (h : rewrite f t = u ++ d :: w) :
    ∃ t', t = u ++ d :: t' ∧ (rewrite f t' = w ∨ isBareChar d = true) := by
  induction u generalizing t with
  | nil =>
    obtain ⟨t', rfl, hrest | ⟨hblank, _⟩⟩ := exists_of_rewrite_eq_cons h
    · exact ⟨t', rfl, .inl hrest⟩
    · rw [hd] at hblank
      cases hblank
  | cons x u ih =>
    rw [List.forall_mem_cons] at hu
    obtain ⟨t₁, rfl, hrest | ⟨_, e, ht₁, he, hbare⟩⟩ := exists_of_rewrite_eq_cons h
    · obtain ⟨t', rfl, hw⟩ := ih hu.2 hrest
      exact ⟨t', rfl, hw⟩
    · cases u with
      | nil =>
        obtain rfl : d = e := Option.some.inj he
        obtain ⟨t', rfl⟩ := List.head?_eq_some_iff.mp ht₁
        exact ⟨t', rfl, .inr hbare⟩
      | cons y u =>
        obtain rfl : y = e := Option.some.inj he
        have hy := not_isBlank_of_isBareChar hbare
        rw [hu.2 y List.mem_cons_self] at hy
        cases hy

/-- Functions of values that add only characters which need no marks, and empty no value. -/
structure KeepsBounds (f : Text → Text) : Prop where
  mem_or : ∀ v, ∀ c ∈ f v, c ∈ v ∨ isBareChar c = true
  ne_nil : ∀ v, v ≠ [] → f v ≠ []

theorem KeepsBounds.encloses (hf : KeepsBounds f) {q : Quoting} {value rest : Text}
    (h : q.Encloses value rest) : q.Encloses (f value) (rewrite f rest) := by
  refine ⟨?_, ?_⟩
  · intro m hm hmem
    rcases hf.mem_or value m hmem with hvalue | hbare
    · exact h.no_mark m hm hvalue
    · rw [(Quoting.mark_not_bare hm).1] at hbare
      cases hbare
  · intro hq
    obtain ⟨hne, hbare, hrest⟩ := h.of_bare hq
    refine ⟨hf.ne_nil value hne, ?_, ?_⟩
    · intro c hc
      exact (hf.mem_or value c hc).elim (hbare c) id
    · rwa [head?_rewrite]

theorem takeAttribute?_rewrite_of_some (hf : KeepsBounds f) {t rest : Text} {a : Attribute}
    (h : takeAttribute? t = some (a, rest)) :
    takeAttribute? (rewrite f t) = some ({ a with value := f a.value }, rewrite f rest) := by
  obtain ⟨_, hlead, hvalue⟩ := takeAttribute?_eq_some_iff.mp h
  exact takeAttribute?_eq_some_iff.mpr ⟨rewrite_of_some h, hlead, hf.encloses hvalue⟩

theorem mem_of_mem_rewrite (hf : KeepsBounds f) {t : Text} {m : Char}
    (hm : isBareChar m = false) (h : m ∈ rewrite f t) : m ∈ t := by
  induction t using pieces.induct with
  | case1 t a rest ht ih =>
    obtain ⟨rfl, _⟩ := takeAttribute?_eq_some_iff.mp ht
    rw [rewrite_of_some ht] at h
    rcases List.mem_append.mp h with h | h
    · have hvalue : m ∈ f a.value → m ∈ a.value := fun hv =>
        (hf.mem_or _ m hv).resolve_right (by simp [hm])
      simp only [Attribute.render, List.mem_append] at h ⊢
      tauto
    · exact List.mem_append_right _ (ih h)
  | case2 => simp at h
  | case3 c t ht ih =>
    rw [rewrite_of_none ht] at h
    rcases List.mem_cons.mp h with rfl | h
    · exact List.mem_cons_self
    · exact List.mem_cons_of_mem c (ih h)

/-- A value opens with a mark that is closed later, or with a character that needs no mark.
Both are found in the text already: only its own marks close a value. -/
theorem exists_value_of_rewrite (hf : KeepsBounds f) {t after value rest : Text} {q : Quoting}
    (hafter : ∀ c ∈ after, Text.isBlank c = true) (hvalue : q.Encloses value rest)
    (h : rewrite f t = after ++ (q.mark ++ value ++ q.mark ++ rest)) :
    ∃ value' rest', t = after ++ (q.mark ++ value' ++ q.mark ++ rest') ∧
      q.Encloses value' rest' := by
  rcases q.eq_bare_or_mark with rfl | ⟨m, hmark⟩
  · obtain ⟨hne, hbare, _⟩ := hvalue.of_bare rfl
    obtain ⟨d, value, rfl⟩ := List.exists_cons_of_ne_nil hne
    have hd := hbare d List.mem_cons_self
    obtain ⟨t', rfl, _⟩ := exists_of_rewrite_eq_blanks hafter (not_isBlank_of_isBareChar hd) h
    obtain ⟨hspan, htake, hdrop⟩ :=
      Text.span_iff.mp ⟨(rfl : (d :: t').takeWhile isBareChar = _), rfl⟩
    refine ⟨(d :: t').takeWhile isBareChar, (d :: t').dropWhile isBareChar, ?_, ?_, ?_⟩
    · simp only [Quoting.mark, List.nil_append, List.append_nil, ← hspan]
    · simp [Quoting.mark]
    · exact fun _ => ⟨by simp [hd], htake, hdrop⟩
  · have hm : m ∈ q.mark := hmark ▸ List.mem_cons_self
    obtain ⟨hbare, hblank⟩ := Quoting.mark_not_bare hm
    simp only [hmark, List.append_assoc, List.cons_append, List.nil_append] at h ⊢
    obtain ⟨t', rfl, hrest | hd⟩ := exists_of_rewrite_eq_blanks hafter hblank h
    · have hclosed : m ∈ t' := mem_of_mem_rewrite hf hbare (by simp [hrest])
      obtain ⟨value', rest', rfl, hvalue'⟩ := List.eq_append_cons_of_mem hclosed
      refine ⟨value', rest', rfl, by simpa [hmark] using hvalue', ?_⟩
      rintro rfl
      cases hmark
    · rw [hbare] at hd
      cases hd

theorem takeAttribute?_cons_rewrite_of_none (hf : KeepsBounds f) {t : Text} {c : Char}
    (h : takeAttribute? (c :: t) = none) : takeAttribute? (c :: rewrite f t) = none := by
  cases hread : takeAttribute? (c :: rewrite f t) with
  | none => rfl
  | some read =>
    obtain ⟨⟨lead, q, value⟩, rest⟩ := read
    obtain ⟨htext, hlead, hvalue⟩ := takeAttribute?_eq_some_iff.mp hread
    obtain ⟨blank, name, before, after, rfl, hblank, hname, hbefore, hafter⟩ := hlead
    simp only [Attribute.render, List.cons_append, List.append_assoc] at htext
    obtain ⟨rfl, hbody⟩ := List.cons.inj htext
    -- name, sign and value are found in the text, one after the other
    obtain ⟨t₁, rfl, hsigned⟩ := exists_of_rewrite_eq_append
      (fun x hx => not_isBlank_of_isBareChar (hname.bare x hx)) hbody
    obtain ⟨t₂, rfl, hvalued | hsign⟩ := exists_of_rewrite_eq_blanks hbefore (by decide) hsigned
    · obtain ⟨value', rest', rfl, hvalue'⟩ :=
        exists_value_of_rewrite hf hafter hvalue (by simpa using hvalued)
      let a : Attribute := ⟨c :: (name ++ (before ++ '=' :: after)), q, value'⟩
      have hlead : IsLead a.lead :=
        ⟨c, name, before, after, rfl, hblank, hname, hbefore, hafter⟩
      have hfound : takeAttribute? (a.render ++ rest') = some (a, rest') :=
        takeAttribute?_eq_some_iff.mpr ⟨rfl, hlead, hvalue'⟩
      have hstart : a.render ++ rest' =
          c :: (name ++ (before ++ '=' :: (after ++ (q.mark ++ value' ++ q.mark ++ rest')))) := by
        simp [a, Attribute.render]
      rw [← hstart, hfound] at h
      cases h
    · exact absurd hsign (by decide)

theorem pieces_rewrite (hf : KeepsBounds f) (t : Text) :
    pieces (rewrite f t) = (pieces t).map (Piece.mapValue f) := by
  induction t using pieces.induct with
  | case1 t a rest ht ih =>
    rw [pieces_of_some (takeAttribute?_rewrite_of_some hf ht), pieces_of_some ht, List.map_cons,
      Piece.mapValue_link, ih]
  | case2 => simp
  | case3 c t ht ih =>
    rw [rewrite_of_none ht, pieces_of_none (takeAttribute?_cons_rewrite_of_none hf ht),
      pieces_of_none ht, List.map_cons, Piece.mapValue_plain, ih]

@[simp] theorem Piece.mapValue_mapValue (f g : Text → Text) (p : Piece) :
    (p.mapValue f).mapValue g = p.mapValue (g ∘ f) := by
  cases p with
  | plain c => rfl
  | link a => rfl

theorem rewrite_rewrite (hf : KeepsBounds f) (g : Text → Text) (t : Text) :
    rewrite g (rewrite f t) = rewrite (g ∘ f) t := by
  rw [rewrite, pieces_rewrite hf, List.map_map, rewrite]
  congr 2
  funext p
  exact p.mapValue_mapValue f g

theorem links_rewrite (hf : KeepsBounds f) (t : Text) :
    links (rewrite f t) = (links t).map f := by
  rw [links, pieces_rewrite hf, List.filterMap_map, links, List.map_filterMap]
  congr 1
  funext p
  cases p with
  | plain c => rfl
  | link a => rfl

theorem keepsBounds_onPage (url : Text) (base : LinkBase) :
    KeepsBounds (Link.onPage { url := url } base) := by
  refine ⟨?_, ?_⟩
  · intro v c hc
    rcases Link.mem_onPage hc with hv | rfl | rfl
    · exact .inl hv
    · exact .inr (by decide)
    · exact .inr (by decide)
  · intro v hv
    exact fun h => hv (Link.onPage_eq_nil_iff.mp h)

/-- Links that were rewritten for a page are found again, each in its attribute and its quotes,
and nothing else is taken for a link. So a second function sees exactly the rewritten links. -/
theorem rewrite_onPage (url : Text) (base : LinkBase) (t : Text) :
    let onUrl := Link.onPage { url := url } base
    (∀ g : Text → Text, rewrite g (onPage { url := url } base t) = rewrite (g ∘ onUrl) t) ∧
      pieces (onPage { url := url } base t) = (pieces t).map (Piece.mapValue onUrl) ∧
      links (onPage { url := url } base t) = (links t).map onUrl ∧
      ∀ link, onUrl link = [] ↔ link = [] := by
  intro onUrl
  have hf : KeepsBounds onUrl := keepsBounds_onPage url base
  exact ⟨fun g => rewrite_rewrite hf g t, pieces_rewrite hf t, links_rewrite hf t,
    fun _ => Link.onPage_eq_nil_iff⟩

end StaticSite.Markup
