import Mathlib
import StaticSite.Markup.Rewriting
import StaticSite.Proofs.Text.Separated

/-! What the readers of markup find. Each of them is described by the text
that it takes, so that a text is known to hold an attribute once it is written
as one. -/

namespace StaticSite.Markup

open Text (span_iff)

theorem not_isBlank_of_isBareChar {c : Char} (h : isBareChar c = true) :
    Text.isBlank c = false := by
  simp only [isBareChar, Bool.not_eq_true', Bool.or_eq_false_iff] at h
  exact h.1

/-- A text reads as a name if it has the name's letters one by one, in any case. -/
def Reads (name t : Text) : Prop := List.Forall₂ (fun letter c => sameLetter letter c = true) name t

def IsLinkName (t : Text) : Prop := Reads "href" t ∨ Reads "src" t

theorem isBareChar_of_isAlpha {c : Char} (h : c.isAlpha = true) : isBareChar c = true := by
  have hrange : 65 ≤ c.toNat ∧ c.toNat ≤ 90 ∨ 97 ≤ c.toNat ∧ c.toNat ≤ 122 := by
    simp only [Char.isAlpha, Char.isUpper, Char.isLower, Bool.or_eq_true, Bool.and_eq_true,
      decide_eq_true_eq, UInt32.le_iff_toNat_le, ge_iff_le] at h
    exact h
  have hblank : Text.isBlank c = false := by
    simp [Text.isBlank]
    omega
  have hmark : c ∉ ['\x22', '\x27', '=', '<', '>', '\x60'] := by
    intro hc
    simp only [List.mem_cons, List.not_mem_nil, or_false] at hc
    rcases hc with rfl | rfl | rfl | rfl | rfl | rfl <;> exact absurd hrange (by decide)
  simp [isBareChar, hblank, List.contains_eq_mem, hmark]

theorem isBareChar_of_sameLetter {letter c : Char} (hl : letter.isLower = true)
    (h : sameLetter letter c = true) : isBareChar c = true := by
  rcases Bool.or_eq_true_iff.mp h with h | h
  · have hc : c.toLower = letter := by simpa using h
    apply isBareChar_of_isAlpha
    rw [← Char.isLower_toLower_eq_isAlpha, hc, hl]
  · have hc : c = 'ſ' := by simpa using (Bool.and_eq_true_iff.mp h).2
    rw [hc]
    decide

theorem Reads.bare {name t : Text} (h : Reads name t)
    (hname : name.all Char.isLower = true) : ∀ c ∈ t, isBareChar c = true := by
  induction h with
  | nil => simp
  | cons hc _ ih =>
    rw [List.all_cons, Bool.and_eq_true_iff] at hname
    rw [List.forall_mem_cons]
    exact ⟨isBareChar_of_sameLetter hname.1 hc, ih hname.2⟩

theorem IsLinkName.bare {t : Text} (h : IsLinkName t) : ∀ c ∈ t, isBareChar c = true := by
  rcases h with h | h
  · exact h.bare (by decide)
  · exact h.bare (by decide)

theorem IsLinkName.ne_nil {t : Text} (h : IsLinkName t) : t ≠ [] := by
  rintro rfl
  rcases h with h | h
  · cases h
  · cases h

theorem takeName?_eq_some_iff {name t taken rest : Text} :
    takeName? name t = some (taken, rest) ↔ t = taken ++ rest ∧ Reads name taken := by
  constructor
  · intro h
    refine ⟨takeName?_eq h, ?_⟩
    induction name generalizing t taken with
    | nil =>
      simp only [takeName?, Option.some.injEq, Prod.mk.injEq] at h
      rw [← h.1]
      exact .nil
    | cons letter name ih =>
      cases t with
      | nil => simp [takeName?] at h
      | cons c t =>
        rw [takeName?] at h
        by_cases hc : sameLetter letter c = true
        · rw [if_pos hc] at h
          obtain ⟨⟨taken', rest'⟩, htaken, he⟩ := Option.map_eq_some_iff.mp h
          simp only [Prod.mk.injEq] at he
          obtain ⟨rfl, rfl⟩ := he
          exact .cons hc (ih htaken)
        · rw [if_neg hc] at h
          cases h
  · rintro ⟨rfl, h⟩
    induction h with
    | nil => rfl
    | cons hc _ ih => simp [takeName?, hc, ih]

theorem not_sameLetter_h {c : Char} (h : sameLetter 's' c = true) : sameLetter 'h' c = false := by
  simp only [sameLetter, beq_self_eq_true, Bool.true_and, Bool.or_eq_true, beq_iff_eq] at h
  rcases h with h | rfl
  · simp [sameLetter, h]
  · decide

theorem takeLinkName?_eq_some_iff {t taken rest : Text} :
    takeLinkName? t = some (taken, rest) ↔ t = taken ++ rest ∧ IsLinkName taken := by
  constructor
  · intro h
    rcases Option.or_eq_some_iff.mp h with h | ⟨_, h⟩
    · obtain ⟨ht, hname⟩ := takeName?_eq_some_iff.mp h
      exact ⟨ht, .inl hname⟩
    · obtain ⟨ht, hname⟩ := takeName?_eq_some_iff.mp h
      exact ⟨ht, .inr hname⟩
  · rintro ⟨rfl, hname | hname⟩
    · rw [takeLinkName?, takeName?_eq_some_iff.mpr ⟨rfl, hname⟩, Option.some_or]
    -- no text starts with both names
    · have hother : takeName? "href" (taken ++ rest) = none := by
        cases hname with
        | cons hc _ => simp [takeName?, not_sameLetter_h hc]
      rw [takeLinkName?, hother, Option.none_or]
      exact takeName?_eq_some_iff.mpr ⟨rfl, hname⟩

theorem takeEquals?_eq_some_iff {t equals rest : Text} :
    takeEquals? t = some (equals, rest) ↔
      ∃ before after, t = equals ++ rest ∧ equals = before ++ '=' :: after ∧
        (∀ c ∈ before, Text.isBlank c = true) ∧ (∀ c ∈ after, Text.isBlank c = true) ∧
        ∀ c, rest.head? = some c → Text.isBlank c = false := by
  constructor
  · intro h
    have ht := takeEquals?_eq h
    rw [takeEquals?] at h
    split at h
    · rename_i tail _
      simp only [Option.some.injEq, Prod.mk.injEq] at h
      obtain ⟨_, hbefore, _⟩ := span_iff.mp ⟨(rfl : t.takeWhile Text.isBlank = _), rfl⟩
      obtain ⟨_, hafter, hrest⟩ := span_iff.mp ⟨(rfl : tail.takeWhile Text.isBlank = _), h.2⟩
      exact ⟨_, _, ht, h.1.symm, hbefore, hafter, hrest⟩
    · cases h
  · rintro ⟨before, after, rfl, rfl, hbefore, hafter, hrest⟩
    have hsign : ∀ c, ('=' :: (after ++ rest)).head? = some c → Text.isBlank c = false := by
      intro c hc
      rw [← Option.some.inj hc]
      decide
    have hfirst := span_iff.mpr ⟨rfl, hbefore, hsign⟩
    have hsecond := span_iff.mpr ⟨rfl, hafter, hrest⟩
    rw [List.append_assoc, List.cons_append]
    simp only [takeEquals?, hfirst.1, hfirst.2, hsecond.1, hsecond.2]

/-- How far a value reaches: to the next mark of its own kind, or over all the characters
that need no marks. -/
structure Quoting.Encloses (q : Quoting) (value rest : Text) : Prop where
  no_mark : ∀ m ∈ q.mark, m ∉ value
  of_bare : q = .bare → value ≠ [] ∧ (∀ c ∈ value, isBareChar c = true) ∧
    ∀ c, rest.head? = some c → isBareChar c = false

theorem Quoting.eq_bare_or_mark (q : Quoting) : q = .bare ∨ ∃ m, q.mark = [m] := by
  cases q with
  | double => exact .inr ⟨_, rfl⟩
  | single => exact .inr ⟨_, rfl⟩
  | bare => exact .inl rfl

theorem Quoting.mark_not_bare {q : Quoting} {m : Char} (h : m ∈ q.mark) :
    isBareChar m = false ∧ Text.isBlank m = false := by
  cases q with
  | double =>
    rw [List.mem_singleton.mp h]
    decide
  | single =>
    rw [List.mem_singleton.mp h]
    decide
  | bare => cases h

theorem Quoting.Encloses.head_not_blank {q : Quoting} {value rest : Text}
    (h : q.Encloses value rest) :
    ∀ c, (q.mark ++ value ++ q.mark ++ rest).head? = some c → Text.isBlank c = false := by
  intro c hc
  rcases q.eq_bare_or_mark with rfl | ⟨m, hmark⟩
  · obtain ⟨hne, hbare, _⟩ := h.of_bare rfl
    obtain ⟨d, value, rfl⟩ := List.exists_cons_of_ne_nil hne
    obtain rfl : d = c := Option.some.inj hc
    exact not_isBlank_of_isBareChar (hbare d List.mem_cons_self)
  · have hm : m ∈ q.mark := hmark ▸ List.mem_cons_self
    rw [hmark] at hc
    obtain rfl : m = c := Option.some.inj hc
    exact (Quoting.mark_not_bare hm).2

theorem takeValue?_eq_some_iff {t value rest : Text} {q : Quoting} :
    takeValue? t = some (q, value, rest) ↔
      t = q.mark ++ value ++ q.mark ++ rest ∧ q.Encloses value rest := by
  constructor
  · intro h
    refine ⟨takeValue?_eq h, ?_⟩
    rw [takeValue?.eq_def] at h
    split at h
    · split at h
      · simp only [Option.some.injEq, Prod.mk.injEq] at h
        obtain ⟨rfl, rfl, rfl⟩ := h
        exact ⟨by simpa [Quoting.mark] using Text.not_mem_takeWhile_ne _ _, by simp⟩
      · cases h
    · split at h
      · simp only [Option.some.injEq, Prod.mk.injEq] at h
        obtain ⟨rfl, rfl, rfl⟩ := h
        exact ⟨by simpa [Quoting.mark] using Text.not_mem_takeWhile_ne _ _, by simp⟩
      · cases h
    · by_cases hnil : t.takeWhile isBareChar = []
      · rw [if_pos hnil] at h
        cases h
      · simp only [if_neg hnil, Option.some.injEq, Prod.mk.injEq] at h
        obtain ⟨rfl, rfl, rfl⟩ := h
        have hspan := span_iff.mp ⟨(rfl : t.takeWhile isBareChar = _), rfl⟩
        exact ⟨by simp [Quoting.mark], fun _ => ⟨hnil, hspan.2⟩⟩
  · rintro ⟨rfl, h⟩
    cases q with
    | double =>
      obtain ⟨htake, hdrop⟩ := Text.span_ne (h.no_mark '\x22' List.mem_cons_self) rest
      simp only [Quoting.mark, List.append_assoc, List.cons_append, List.nil_append, takeValue?,
        htake, hdrop]
    | single =>
      obtain ⟨htake, hdrop⟩ := Text.span_ne (h.no_mark '\x27' List.mem_cons_self) rest
      simp only [Quoting.mark, List.append_assoc, List.cons_append, List.nil_append, takeValue?,
        htake, hdrop]
    | bare =>
      obtain ⟨hne, hbare, hrest⟩ := h.of_bare rfl
      obtain ⟨htake, hdrop⟩ := span_iff.mpr ⟨rfl, hbare, hrest⟩
      obtain ⟨c, value, rfl⟩ := List.exists_cons_of_ne_nil hne
      have hc := hbare c List.mem_cons_self
      simp only [Quoting.mark, List.nil_append, List.append_nil]
      rw [takeValue?.eq_def]
      split
      · rename_i he
        rw [(List.cons.inj he).1] at hc
        exact absurd hc (by decide)
      · rename_i he
        rw [(List.cons.inj he).1] at hc
        exact absurd hc (by decide)
      · simp only [htake, hdrop, if_neg hne]

/-- A blank, a link name and an equals sign between blanks. -/
def IsLead (t : Text) : Prop :=
  ∃ blank name before after, t = blank :: (name ++ (before ++ '=' :: after)) ∧
    Text.isBlank blank = true ∧ IsLinkName name ∧
    (∀ c ∈ before, Text.isBlank c = true) ∧ ∀ c ∈ after, Text.isBlank c = true

theorem takeAttribute?_eq_some_iff {t rest : Text} {a : Attribute} :
    takeAttribute? t = some (a, rest) ↔
      t = a.render ++ rest ∧ IsLead a.lead ∧ a.quoting.Encloses a.value rest := by
  constructor
  · intro h
    refine ⟨(takeAttribute?_eq_some h).1, ?_⟩
    cases t with
    | nil => simp [takeAttribute?] at h
    | cons blank t =>
      rw [takeAttribute?] at h
      split at h
      · rename_i hblank
        simp only [Option.bind_eq_bind, Option.bind_eq_some_iff, Option.some.injEq,
          Prod.mk.injEq] at h
        obtain ⟨⟨name, t₁⟩, hname, ⟨equals, t₂⟩, hequals, ⟨q, value, t₃⟩, hvalue, rfl, rfl⟩ := h
        obtain ⟨before, after, _, rfl, hbefore, hafter, _⟩ := takeEquals?_eq_some_iff.mp hequals
        have hlink := (takeLinkName?_eq_some_iff.mp hname).2
        exact ⟨⟨blank, name, before, after, rfl, hblank, hlink, hbefore, hafter⟩,
          (takeValue?_eq_some_iff.mp hvalue).2⟩
      · cases h
  · rintro ⟨rfl, hlead, hvalue⟩
    obtain ⟨lead, q, value⟩ := a
    obtain ⟨blank, name, before, after, rfl, hblank, hname, hbefore, hafter⟩ := hlead
    change q.Encloses value rest at hvalue
    have htext : Attribute.render ⟨blank :: (name ++ (before ++ '=' :: after)), q, value⟩ ++ rest =
        blank :: (name ++ ((before ++ '=' :: after) ++ (q.mark ++ value ++ q.mark ++ rest))) := by
      simp [Attribute.render]
    have hlink := takeLinkName?_eq_some_iff.mpr ⟨(rfl : _ = name ++
      ((before ++ '=' :: after) ++ (q.mark ++ value ++ q.mark ++ rest))), hname⟩
    have hequals := takeEquals?_eq_some_iff.mpr
      ⟨before, after, rfl, rfl, hbefore, hafter, hvalue.head_not_blank⟩
    have hvalue := takeValue?_eq_some_iff.mpr ⟨rfl, hvalue⟩
    rw [htext, takeAttribute?, if_pos hblank]
    simp only [Option.bind_eq_bind, hlink, hequals, hvalue, Option.bind_some, List.cons_append]

end StaticSite.Markup
