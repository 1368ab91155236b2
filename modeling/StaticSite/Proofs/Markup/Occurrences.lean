import StaticSite.Proofs.Markup.Rewriting

/-! Texts as link attributes and what stands between them. The attributes are
the leftmost ones, each looked for from the end of the one before, and rewriting
puts other values into them and keeps everything else. -/

namespace StaticSite.Markup

/-- A link attribute at the start of a text, and what comes after it. -/
structure Occurs (t : Text) (a : Attribute) (rest : Text) : Prop where
  text : t = a.render ++ rest
  lead : IsLead a.lead
  value : a.quoting.Encloses a.value rest

/-- No link attribute starts within a gap in front of the rest of a text. -/
def NoneStarts (gap rest : Text) : Prop :=
  ∀ u, u <:+ gap → u ≠ [] → ¬ ∃ a after, Occurs (u ++ rest) a after

/-- A text as gaps with link attributes behind them, and what comes after the last attribute. Each
attribute starts at the first place behind the one before where one starts at all. -/
inductive Splits : Text → List (Text × Attribute) → Text → Prop where
  | last {t : Text} : NoneStarts t [] → Splits t [] t
  | found {gap rest last : Text} {a : Attribute} {others : List (Text × Attribute)} :
    NoneStarts gap (a.render ++ rest) → Occurs (a.render ++ rest) a rest → Splits rest others last →
    Splits (gap ++ (a.render ++ rest)) ((gap, a) :: others) last

/-- A text with gaps and attributes as they are, but other values in the attributes. -/
def fill (found : List (Text × Attribute)) (values : List Text) (last : Text) : Text :=
  (found.zipWith (fun (gap, a) v => gap ++ Attribute.render { a with value := v }) values).flatten ++
    last

theorem takeAttribute?_eq_some_iff_occurs {t rest : Text} {a : Attribute} :
    takeAttribute? t = some (a, rest) ↔ Occurs t a rest := by
  rw [takeAttribute?_eq_some_iff]
  exact ⟨fun h => ⟨h.1, h.2.1, h.2.2⟩, fun h => ⟨h.text, h.lead, h.value⟩⟩

theorem noneStarts_nil (rest : Text) : NoneStarts [] rest :=
  fun _ hu hne => absurd (List.suffix_nil.mp hu) hne

theorem noneStarts_cons_iff {c : Char} {gap rest : Text} :
    NoneStarts (c :: gap) rest ↔
      takeAttribute? (c :: (gap ++ rest)) = none ∧ NoneStarts gap rest := by
  have hhere : takeAttribute? (c :: (gap ++ rest)) = none ↔
      ¬ ∃ a after, Occurs ((c :: gap) ++ rest) a after := by
    rw [Option.eq_none_iff_forall_ne_some]
    constructor
    · rintro h ⟨a, after, ho⟩
      exact h (a, after) (takeAttribute?_eq_some_iff_occurs.mpr ho)
    · rintro h ⟨a, after⟩ ht
      exact h ⟨a, after, takeAttribute?_eq_some_iff_occurs.mp ht⟩
  rw [hhere]
  constructor
  · intro h
    exact ⟨h _ List.suffix_rfl (by simp), fun u hu => h u (hu.trans (List.suffix_cons c gap))⟩
  · rintro ⟨hc, hgap⟩ u hu hne
    rcases List.suffix_cons_iff.mp hu with rfl | hu
    · exact hc
    · exact hgap u hu hne

theorem exists_splits (t : Text) : ∃ found last, Splits t found last := by
  induction t using pieces.induct with
  | case1 t a rest ht ih =>
    obtain ⟨others, last, hrest⟩ := ih
    have ho := takeAttribute?_eq_some_iff_occurs.mp ht
    obtain rfl := ho.text
    exact ⟨([], a) :: others, last, .found (noneStarts_nil _) ho hrest⟩
  | case2 => exact ⟨[], [], .last (noneStarts_nil [])⟩
  | case3 c t ht ih =>
    obtain ⟨found, last, h⟩ := ih
    cases h with
    | last hnone =>
      refine ⟨[], c :: t, .last (noneStarts_cons_iff.mpr ⟨?_, hnone⟩)⟩
      rwa [List.append_nil]
    | found hnone ho hrest =>
      exact ⟨_, last, .found (noneStarts_cons_iff.mpr ⟨ht, hnone⟩) ho hrest⟩

/-- The pieces of gaps and attributes. -/
def spell (found : List (Text × Attribute)) (last : Text) : List Piece :=
  found.flatMap (fun (gap, a) => gap.map .plain ++ [.link a]) ++ last.map .plain

@[simp] theorem spell_nil (last : Text) : spell [] last = last.map .plain := rfl

@[simp] theorem spell_cons (gap : Text) (a : Attribute) (others : List (Text × Attribute))
    (last : Text) :
    spell ((gap, a) :: others) last = gap.map .plain ++ .link a :: spell others last := by
  simp [spell]

theorem pieces_gap {gap rest : Text} (h : NoneStarts gap rest) :
    pieces (gap ++ rest) = gap.map .plain ++ pieces rest := by
  induction gap with
  | nil => rfl
  | cons c gap ih =>
    obtain ⟨hc, hgap⟩ := noneStarts_cons_iff.mp h
    rw [List.cons_append, pieces_of_none hc, ih hgap, List.map_cons, List.cons_append]

variable {t last : Text} {found : List (Text × Attribute)}

theorem Splits.pieces_eq (h : Splits t found last) : pieces t = spell found last := by
  induction h with
  | last hnone => simpa using pieces_gap hnone
  | found hnone ho _ ih =>
    rw [pieces_gap hnone, pieces_of_some (takeAttribute?_eq_some_iff_occurs.mpr ho), ih, spell_cons]

/-- The gaps and attributes of pieces. -/
def group : List Piece → List (Text × Attribute) × Text
  | [] => ([], [])
  | .link a :: ps => (([], a) :: (group ps).1, (group ps).2)
  | .plain c :: ps => match group ps with
    | ([], last) => ([], c :: last)
    | ((gap, a) :: others, last) => ((c :: gap, a) :: others, last)

@[simp] theorem group_plain (last : Text) : group (last.map .plain) = ([], last) := by
  induction last with
  | nil => rfl
  | cons c last ih => rw [List.map_cons, group, ih]

@[simp] theorem group_gap (gap : Text) (a : Attribute) (ps : List Piece) :
    group (gap.map .plain ++ .link a :: ps) = ((gap, a) :: (group ps).1, (group ps).2) := by
  induction gap with
  | nil => rfl
  | cons c gap ih => rw [List.map_cons, List.cons_append, group, ih]

theorem group_spell (found : List (Text × Attribute)) (last : Text) :
    group (spell found last) = (found, last) := by
  induction found with
  | nil => exact group_plain last
  | cons first others ih => rw [spell_cons, group_gap, ih]

theorem Splits.unique {last' : Text} {found' : List (Text × Attribute)} (h : Splits t found last)
    (h' : Splits t found' last') : found' = found ∧ last' = last := by
  have heq := congrArg group (h'.pieces_eq.symm.trans h.pieces_eq)
  rw [group_spell, group_spell] at heq
  exact Prod.mk.inj heq

theorem Splits.links_eq (h : Splits t found last) : links t = found.map (·.2.value) := by
  rw [links, h.pieces_eq]
  clear h
  induction found with
  | nil => simp [spell, List.filterMap_map]
  | cons first others ih =>
    obtain ⟨gap, a⟩ := first
    rw [spell_cons, List.filterMap_append, List.filterMap_cons, ih]
    simp [List.filterMap_map]

section Acting

variable {m : Type → Type} [Monad m] [LawfulMonad m]

theorem mapM_plain (f : Text → m Text) (gap : Text) :
    (gap.map Piece.plain).mapM (Piece.mapValueM f) = pure (gap.map .plain) := by
  induction gap with
  | nil => rfl
  | cons c gap ih => simp [Piece.mapValueM, ih]

@[simp] theorem fill_nil (values : List Text) (last : Text) : fill [] values last = last := by
  simp [fill]

@[simp] theorem fill_cons (gap : Text) (a : Attribute) (others : List (Text × Attribute)) (v : Text)
    (values : List Text) (last : Text) : fill ((gap, a) :: others) (v :: values) last =
      gap ++ Attribute.render { a with value := v } ++ fill others values last := by
  simp [fill]

theorem render_mapM_spell (f : Text → m Text) (found : List (Text × Attribute)) (last : Text) :
    render <$> (spell found last).mapM (Piece.mapValueM f) =
      (fill found · last) <$> (found.map (·.2.value)).mapM f := by
  induction found with
  | nil =>
    rw [spell_nil, mapM_plain]
    simp
  | cons first others ih =>
    obtain ⟨gap, a⟩ := first
    -- the value of the first attribute is replaced before those of the others
    have hothers : ∀ v, (fun ps => render (gap.map .plain ++ .link { a with value := v } :: ps)) <$>
          (spell others last).mapM (Piece.mapValueM f) =
        (fun values => fill ((gap, a) :: others) (v :: values) last) <$>
          (others.map (·.2.value)).mapM f := by
      intro v
      simp only [render_append, render_plain, render_cons_link, fill_cons, ← List.append_assoc]
      rw [← Functor.map_map render, ih, Functor.map_map]
    have hspelled : render <$> (spell ((gap, a) :: others) last).mapM (Piece.mapValueM f) =
        f a.value >>= fun v =>
          (fun ps => render (gap.map .plain ++ .link { a with value := v } :: ps)) <$>
            (spell others last).mapM (Piece.mapValueM f) := by
      rw [spell_cons, List.mapM_append, mapM_plain]
      simp [Piece.mapValueM]
    have hvalues : (fill ((gap, a) :: others) · last) <$>
          (((gap, a) :: others).map (·.2.value)).mapM f =
        f a.value >>= fun v =>
          (fun values => fill ((gap, a) :: others) (v :: values) last) <$>
            (others.map (·.2.value)).mapM f := by
      simp
    rw [hspelled, hvalues]
    simp only [hothers]

theorem Splits.rewriteM_eq (h : Splits t found last) (f : Text → m Text) :
    rewriteM f t = (fill found · last) <$> (found.map (·.2.value)).mapM f := by
  rw [rewriteM, h.pieces_eq, render_mapM_spell]

end Acting

theorem rewriteM_pure (f : Text → Text) (t : Text) :
    rewriteM (m := Id) (fun v => pure (f v)) t = pure (rewrite f t) := by
  have hpiece : Piece.mapValueM (m := Id) (fun v => pure (f v)) = fun p => pure (p.mapValue f) := by
    funext p
    cases p with
    | plain c => rfl
    | link a => rfl
  rw [rewriteM, hpiece, List.mapM_pure, rewrite]
  rfl

theorem Splits.rewrite_eq (h : Splits t found last) (f : Text → Text) :
    rewrite f t = fill found ((found.map (·.2.value)).map f) last := by
  have hid := (rewriteM_pure f t).symm.trans (h.rewriteM_eq (m := Id) fun v => pure (f v))
  rw [List.mapM_pure] at hid
  exact hid

theorem Splits.text_eq (h : Splits t found last) : t = fill found (found.map (·.2.value)) last := by
  induction h with
  | last _ => simp
  | found _ _ _ ih => rw [List.map_cons, fill_cons, ← ih, List.append_assoc]

/-- Every text splits in one way at its leftmost link attributes. Rewriting calls its function for
the values of these, from first to last, and for nothing else. It puts the answers in their places
and keeps the rest of the text, which stays as it is if the function changes nothing. -/
theorem rewrite_splits (t : Text) :
    ∃ found last, Splits t found last ∧
      (∀ found' last', Splits t found' last' → found' = found ∧ last' = last) ∧
      let values := found.map (·.2.value)
      t = fill found values last ∧ links t = values ∧
      (∀ f, rewrite f t = fill found (values.map f) last) ∧
      (∀ (m : Type → Type) [Monad m] [LawfulMonad m] (f : Text → m Text),
        rewriteM f t = (fill found · last) <$> values.mapM f) ∧
      rewrite id t = t := by
  obtain ⟨found, last, h⟩ := exists_splits t
  refine ⟨found, last, h, fun _ _ h' => h.unique h', h.text_eq, h.links_eq, h.rewrite_eq,
    fun m _ _ f => h.rewriteM_eq f, ?_⟩
  rw [h.rewrite_eq, List.map_id, ← h.text_eq]

/-- The first quote is never closed. The function keeps the values that it is called for. -/
theorem rewrite_splits_unclosed :
    let t : Text := "<a href=\x22x ſrc=\x27y z\x27 HREF = c>"
    let record (v : Text) : StateM (List Text) Text := do
      modify (· ++ [v])
      return "[" ++ v ++ "]"
    (rewriteM record t).run [] =
        pure ("<a href=\x22x ſrc=\x27[y z]\x27 HREF = [c]>".toList, ["y z".toList, "c".toList]) ∧
      rewrite id t = t := by
  intro t record
  obtain ⟨found, last, _, _, _, hlinks, hrewrite, hacts, hid⟩ := rewrite_splits t
  have hvalues : found.map (·.2.value) = ["y z".toList, "c".toList] :=
    hlinks.symm.trans (by decide +kernel)
  have hfill : fill found ["[y z]".toList, "[c]".toList] last =
      "<a href=\x22x ſrc=\x27[y z]\x27 HREF = [c]>".toList := by
    have hmarked := hrewrite fun v => "[" ++ v ++ "]"
    rw [hvalues] at hmarked
    exact hmarked.symm.trans (by decide +kernel)
  refine ⟨?_, hid⟩
  rw [hacts, hvalues, ← hfill]
  rfl

end StaticSite.Markup
