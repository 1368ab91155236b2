import StaticSite.Proofs.Number.Shortest
import StaticSite.Proofs.Text.Separated
import StaticSite.Proofs.Text.Trimmed

/-! Spellings of numbers. A spelling can be read in one way only and means a
number that is rounded to the one spelled, so no two numbers share it. -/

namespace StaticSite

namespace Binary64

def signed (negative : Bool) (t : Text) : Text := (if negative then "-" else "") ++ t

def fractionText (fraction : Text) : Text := if fraction = [] then [] else '.' :: fraction

def exponentText : Option Int → Text
  | none => []
  | some i => 'e' :: (toString i).toList

/-- Digits before and after a point, and an exponent. What is missing is left out. -/
def numeral (whole fraction : Text) (exponent : Option Int) : Text :=
  whole ++ (fractionText fraction ++ exponentText exponent)

def decimal (ds : Text) (k : Int) : ℚ := Nat.ofDigitChars 10 ds 0 * 10 ^ k

/-- A text that is read as a number, which may be a fraction. -/
def Spells (t : Text) (y : ℚ) : Prop :=
  ∃ whole fraction exponent, t = numeral whole fraction exponent ∧ whole ≠ [] ∧
    (∀ c ∈ whole, c.isDigit = true) ∧ (∀ c ∈ fraction, c.isDigit = true) ∧
    y = decimal (whole ++ fraction) (exponent.getD 0 - fraction.length)

theorem signed_inj {s s' : Bool} {t t' : Text} (ht : t.head? ≠ some '-')
    (ht' : t'.head? ≠ some '-') (h : signed s t = signed s' t') : s = s' ∧ t = t' := by
  cases s <;> cases s'
  · exact ⟨rfl, h⟩
  · exact absurd (congrArg List.head? h) ht
  · exact absurd (congrArg List.head? h).symm ht'
  · exact ⟨rfl, List.cons.inj h |>.2⟩

theorem toString_int_eq (i : Int) :
    (toString i).toList = signed (i < 0) (Nat.toDigits 10 i.natAbs) := by
  rw [Int.toString_eq_repr, Int.repr_eq_if]
  by_cases hi : 0 ≤ i
  · have habs : i.toNat = i.natAbs := by omega
    rw [if_pos hi, Nat.toList_repr, habs, signed, if_neg (by simpa using hi)]
    rfl
  · have habs : (-i).toNat = i.natAbs := by omega
    rw [if_neg hi, String.toList_append, Nat.toList_repr, habs, signed,
      if_pos (by simpa using hi)]

theorem head?_digits {ds : Text} (h : ∀ c ∈ ds, c.isDigit = true) : ds.head? ≠ some '-' := by
  intro hhead
  have hdigit : '-'.isDigit = true := h _ (List.mem_of_head? hhead)
  cases hdigit

theorem isDigit_toDigits (n : Nat) : ∀ c ∈ Nat.toDigits 10 n, c.isDigit = true := fun _ hc =>
  Nat.isDigit_of_mem_toDigits (by decide) (by decide) hc

theorem int_eq_of_digits {i j : Int} (hsign : decide (i < 0) = decide (j < 0))
    (hdigits : Nat.toDigits 10 i.natAbs = Nat.toDigits 10 j.natAbs) : i = j := by
  have habs := congrArg (Nat.ofDigitChars 10 · 0) hdigits
  simp only [Nat.ofDigitChars_toDigits (b := 10) (by decide) (by decide)] at habs
  rw [decide_eq_decide] at hsign
  omega

theorem toString_int_inj {i j : Int} (h : (toString i).toList = (toString j).toList) : i = j := by
  rw [toString_int_eq, toString_int_eq] at h
  obtain ⟨hsign, hdigits⟩ := signed_inj (head?_digits (isDigit_toDigits _))
    (head?_digits (isDigit_toDigits _)) h
  exact int_eq_of_digits hsign hdigits

theorem head?_exponentText {x : Option Int} {c : Char} (h : (exponentText x).head? = some c) :
    c = 'e' := by
  cases x with
  | none => cases h
  | some i => exact (Option.some.inj h).symm

theorem exponentText_inj {x x' : Option Int} (h : exponentText x = exponentText x') : x = x' := by
  cases x with
  | none =>
    cases x' with
    | none => rfl
    | some j => cases h
  | some i =>
    cases x' with
    | none => cases h
    | some j => rw [toString_int_inj (List.cons.inj h).2]

theorem numeral_inj {w f w' f' : Text} {x x' : Option Int} (hw : ∀ c ∈ w, c.isDigit = true)
    (hf : ∀ c ∈ f, c.isDigit = true) (hw' : ∀ c ∈ w', c.isDigit = true)
    (hf' : ∀ c ∈ f', c.isDigit = true) (h : numeral w f x = numeral w' f' x') :
    w = w' ∧ f = f' ∧ x = x' := by
  have hexponent : ∀ x c, (exponentText x).head? = some c → c.isDigit = false := by
    intro x c hc
    rw [head?_exponentText hc]
    rfl
  have hrest : ∀ f x c, (fractionText f ++ exponentText x).head? = some c → c.isDigit = false := by
    intro f x c hc
    by_cases hf : f = []
    · rw [hf] at hc
      exact hexponent x c hc
    · rw [fractionText, if_neg hf] at hc
      rw [← Option.some.inj hc]
      rfl
  obtain ⟨rfl, hparts⟩ := Text.append_inj_of_span hw hw' (hrest f x) (hrest f' x') h
  refine ⟨rfl, ?_⟩
  rw [fractionText, fractionText] at hparts
  by_cases hempty : f = []
  · by_cases hempty' : f' = []
    · rw [if_pos hempty, if_pos hempty'] at hparts
      exact ⟨hempty.trans hempty'.symm, exponentText_inj hparts⟩
    · rw [if_pos hempty, if_neg hempty'] at hparts
      have hpoint := head?_exponentText (congrArg List.head? hparts)
      cases hpoint
  · by_cases hempty' : f' = []
    · rw [if_neg hempty, if_pos hempty'] at hparts
      have hpoint := head?_exponentText (congrArg List.head? hparts).symm
      cases hpoint
    · rw [if_neg hempty, if_neg hempty'] at hparts
      obtain ⟨hfraction, htail⟩ := Text.append_inj_of_span hf hf' (hexponent x) (hexponent x')
        (List.cons.inj hparts).2
      exact ⟨hfraction, exponentText_inj htail⟩

theorem Spells.unique {t : Text} {y y' : ℚ} (h : Spells t y) (h' : Spells t y') : y = y' := by
  obtain ⟨w, f, x, rfl, _, hw, hf, rfl⟩ := h
  obtain ⟨w', f', x', heq, _, hw', hf', rfl⟩ := h'
  obtain ⟨rfl, rfl, rfl⟩ := numeral_inj hw hf hw' hf' heq
  rfl

theorem decimal_append_zeros (ds : Text) (n : Nat) (k : Int) :
    decimal (ds ++ List.replicate n '0') k = decimal ds (k + n) := by
  rw [decimal, decimal, Nat.ofDigitChars_append, Nat.ofDigitChars_replicate_zero,
    zpow_add₀ (by norm_num), zpow_natCast]
  push_cast
  ring

theorem decimal_zeros_append (n : Nat) (ds : Text) (k : Int) :
    decimal (List.replicate n '0' ++ ds) k = decimal ds k := by
  rw [decimal, decimal, Nat.ofDigitChars_append, Nat.ofDigitChars_replicate_zero, Nat.mul_zero]

/-- Numerals that are not whole numbers have a character that is no digit. -/
theorem spells_numeral {t w f : Text} {x : Option Int} {y : ℚ} (ht : t = numeral w f x)
    (hne : w ≠ []) (hdigits : ∀ c ∈ w ++ f, c.isDigit = true) (hmore : f ≠ [] ∨ x ≠ none)
    (hy : y = decimal (w ++ f) (x.getD 0 - f.length)) :
    Spells t y ∧ ∃ c ∈ t, c.isDigit = false := by
  subst ht
  rw [List.forall_mem_append] at hdigits
  refine ⟨⟨w, f, x, rfl, hne, hdigits.1, hdigits.2, hy⟩, ?_⟩
  rcases hmore with hmore | hmore
  · exact ⟨'.', by simp [numeral, fractionText, hmore], rfl⟩
  · obtain ⟨i, rfl⟩ := Option.ne_none_iff_exists'.mp hmore
    exact ⟨'e', by simp [numeral, exponentText], rfl⟩

theorem isDigit_zeros (n : Nat) : ∀ c ∈ List.replicate n '0', c.isDigit = true := by
  intro c hc
  rw [List.eq_of_mem_replicate hc]
  rfl

theorem spells_layout {ds : Text} (hne : ds ≠ []) (hds : ∀ c ∈ ds, c.isDigit = true) (k : Int) :
    Spells (layout ⟨false⟩ ds k) (decimal ds k) ∧
      ∃ c ∈ layout ⟨false⟩ ds k, c.isDigit = false := by
  have hlength : 0 < ds.length := List.length_pos_iff.mpr hne
  simp only [layout, Bool.false_and, if_false, Bool.false_eq_true]
  split
  · rename_i hk
    have hzeros : ds ++ List.replicate k.toNat '0' ++ ['0'] =
        ds ++ List.replicate (k.toNat + 1) '0' := by
      rw [List.append_assoc, ← List.replicate_succ']
    refine spells_numeral (w := ds ++ List.replicate k.toNat '0') (f := ['0']) (x := none)
      (by simp [numeral, fractionText, exponentText]) (by simp [hne]) ?_ (.inl (by simp)) ?_
    · rw [hzeros]
      exact List.forall_mem_append.mpr ⟨hds, isDigit_zeros _⟩
    · rw [hzeros, decimal_append_zeros]
      congr 1
      simp
      omega
  split
  · rename_i hk
    have hdrop : ds.drop (ds.length + k).toNat ≠ [] := by
      rw [Ne, List.drop_eq_nil_iff]
      omega
    refine spells_numeral (w := ds.take (ds.length + k).toNat) (f := ds.drop (ds.length + k).toNat)
      (x := none) ?_ ?_ ?_ (.inl hdrop) ?_
    · simp [numeral, fractionText, exponentText, hdrop]
    · rw [Ne, List.take_eq_nil_iff, or_iff_left hne]
      omega
    · rwa [List.take_append_drop]
    · rw [List.take_append_drop]
      congr 1
      rw [List.length_drop, Option.getD_none]
      omega
  split
  · rename_i hk
    refine spells_numeral (w := ['0']) (f := List.replicate (-(ds.length + k)).toNat '0' ++ ds)
      (x := none) ?_ (by simp) ?_ (.inl (by simp [hne])) ?_
    · simp [numeral, fractionText, exponentText, hne]
    · rw [← List.append_assoc]
      exact List.forall_mem_append.mpr
        ⟨List.forall_mem_append.mpr ⟨isDigit_zeros 1, isDigit_zeros _⟩, hds⟩
    · have hzeros : ['0'] ++ (List.replicate (-(ds.length + k)).toNat '0' ++ ds) =
          List.replicate ((-(ds.length + k)).toNat + 1) '0' ++ ds := rfl
      rw [hzeros, decimal_zeros_append]
      congr 1
      simp
      omega
  · obtain ⟨d, rest, rfl⟩ := List.exists_cons_of_ne_nil hne
    refine spells_numeral (w := [d]) (f := rest) (x := some ((d :: rest).length + k - 1)) ?_
      (by simp) hds (.inr (by simp)) ?_
    · cases rest <;> simp [numeral, fractionText, exponentText]
    · congr 1
      simp
      omega

theorem trimZeros_spec {digits : Nat} (h : 0 < digits) (j : Int) :
    let r := trimZeros digits j
    r.1 ≠ [] ∧ (∀ c ∈ r.1, c.isDigit = true) ∧ decimal r.1 r.2 = digits * 10 ^ j := by
  intro r
  have hparts := List.rdropWhile_append_rtakeWhile (p := (· == '0')) (l := Nat.toDigits 10 digits)
  have hzeros : (Nat.toDigits 10 digits).rtakeWhile (· == '0') =
      List.replicate ((Nat.toDigits 10 digits).rtakeWhile (· == '0')).length '0' :=
    List.eq_replicate_of_mem fun c hc =>
      beq_iff_eq.mp (List.mem_rtakeWhile_imp (p := (· == '0')) hc)
  generalize ((Nat.toDigits 10 digits).rtakeWhile (· == '0')).length = n at hzeros
  rw [hzeros] at hparts
  have hkept : r.1 ++ List.replicate n '0' = Nat.toDigits 10 digits := hparts
  have hcount : r.2 = j + n := by
    have hlength := congrArg List.length hkept
    rw [List.length_append, List.length_replicate] at hlength
    change j + ((Nat.toDigits 10 digits).length - r.1.length : Nat) = j + n
    omega
  have hvalue : decimal (Nat.toDigits 10 digits) j = digits * 10 ^ j := by
    rw [decimal, Nat.ofDigitChars_toDigits (by decide) (by decide)]
  refine ⟨?_, ?_, ?_⟩
  · intro hnil
    have hzero := @Nat.ofDigitChars_toDigits 10 digits (by decide) (by decide)
    rw [← hkept, hnil, List.nil_append, Nat.ofDigitChars_replicate_zero, Nat.mul_zero] at hzero
    omega
  · intro c hc
    exact isDigit_toDigits digits c (hkept ▸ List.mem_append_left _ hc)
  · rw [hcount, ← decimal_append_zeros, hkept, hvalue]

theorem pos_of_inRounding {m : Nat} {e : Int} {y : ℚ} (hm : 0 < m) (h : InRounding m e y) :
    0 < y := by
  have hpos : (0 : ℚ) < 2 ^ (e - 2) := zpow_pos (by norm_num) _
  have hlow : 0 < 4 * m - below m e := by
    rw [below]
    split <;> omega
  have hlow' : (0 : ℚ) < (4 * m - below m e : Nat) := by exact_mod_cast hlow
  exact lt_of_lt_of_le (mul_pos hlow' hpos) h.1

theorem inRounding_zero (e : Int) : InRounding 0 e 0 := by
  have hpos : (0 : ℚ) < 2 ^ (e - 2) := zpow_pos (by norm_num) _
  refine ⟨by simp, ?_, by simp⟩
  push_cast
  linarith

/-- A finite number is spelled by its sign and a number that is rounded to it. -/
theorem finiteText_spec (s : Bool) {m : Nat} {e : Int} (h : IsRounded m e) :
    ∃ t y, finiteText ⟨false⟩ s m e = signed s t ∧ Spells t y ∧ (∃ c ∈ t, c.isDigit = false) ∧
      InRounding m e y := by
  by_cases hm : m = 0
  · subst hm
    refine ⟨"0.0", 0, rfl, ?_, ⟨'.', by decide, rfl⟩, inRounding_zero e⟩
    exact ⟨['0'], ['0'], none, rfl, by simp, isDigit_zeros 1, isDigit_zeros 1,
      by simp [decimal, Nat.ofDigitChars]⟩
  · have hrounded := shortest_inRounding h (Nat.pos_of_ne_zero hm)
    have hdigits : 0 < (shortest m e).1 := by
      by_contra hzero
      have hpos := pos_of_inRounding (Nat.pos_of_ne_zero hm) hrounded
      rw [Nat.eq_zero_of_not_pos hzero, Nat.cast_zero, zero_mul] at hpos
      exact lt_irrefl _ hpos
    obtain ⟨hne, hds, hvalue⟩ := trimZeros_spec hdigits (shortest m e).2
    obtain ⟨hspells, hother⟩ := spells_layout hne hds
      (trimZeros (shortest m e).1 (shortest m e).2).2
    refine ⟨_, _, ?_, hspells, hother, ?_⟩
    · rw [finiteText, if_neg hm, signed]
    · rw [hvalue]
      exact hrounded

theorem Spells.head_isDigit {t : Text} {y : ℚ} (h : Spells t y) {c : Char} (hc : t.head? = some c) :
    c.isDigit = true := by
  obtain ⟨w, f, x, rfl, hne, hw, _, _⟩ := h
  obtain ⟨d, w, rfl⟩ := List.exists_cons_of_ne_nil hne
  rw [← Option.some.inj hc]
  exact hw d List.mem_cons_self

end Binary64

namespace Number

/-- What a number is spelled with behind its sign. -/
def Spelling : Number → Bool → Text → Prop
  | int i, s, t => s = decide (i < 0) ∧ t = Nat.toDigits 10 i.natAbs
  | float (.finite s' m e), s, t =>
    s = s' ∧ (∃ c ∈ t, c.isDigit = false) ∧ ∃ y, Binary64.Spells t y ∧ Binary64.InRounding m e y
  | float (.infinite s'), s, t => s = s' ∧ t = ".inf"
  | float .nan, s, t => s = false ∧ t = ".nan"

theorem exists_spelling {n : Number} (h : n.IsRounded) :
    ∃ s t, n.text = Binary64.signed s t ∧ n.Spelling s t := by
  cases n with
  | int i => exact ⟨_, _, Binary64.toString_int_eq i, rfl, rfl⟩
  | float x =>
    cases x with
    | finite s m e =>
      obtain ⟨t, y, htext, hspells, hother, hrounded⟩ := Binary64.finiteText_spec s h
      exact ⟨s, t, htext, rfl, hother, y, hspells, hrounded⟩
    | infinite s => exact ⟨s, ".inf", by cases s <;> rfl, rfl, rfl⟩
    | nan => exact ⟨false, ".nan", rfl, rfl, rfl⟩

theorem Spelling.head {n : Number} {s : Bool} {t : Text} (h : n.Spelling s t) {c : Char}
    (hc : t.head? = some c) : c.isDigit = true ∨ c = '.' := by
  cases n with
  | int i => exact .inl (Binary64.isDigit_toDigits _ c (h.2 ▸ List.mem_of_head? hc))
  | float x =>
    cases x with
    | finite s' m e =>
      obtain ⟨_, _, y, hspells, _⟩ := h
      exact .inl (hspells.head_isDigit hc)
    | infinite s' =>
      obtain ⟨_, rfl⟩ := h
      exact .inr (Option.some.inj hc).symm
    | nan =>
      obtain ⟨_, rfl⟩ := h
      exact .inr (Option.some.inj hc).symm

theorem Spelling.head?_ne {n : Number} {s : Bool} {t : Text} (h : n.Spelling s t) :
    t.head? ≠ some '-' := by
  intro hhead
  rcases h.head hhead with hdigit | hpoint
  · cases hdigit
  · cases hpoint

theorem text_head {n : Number} (h : n.IsRounded) {c : Char} (hc : n.text.head? = some c) :
    c.isDigit = true ∨ c = '.' ∨ c = '-' := by
  obtain ⟨s, t, htext, hspelling⟩ := exists_spelling h
  rw [htext] at hc
  cases s with
  | false => exact (hspelling.head hc).imp_right .inl
  | true => exact .inr (.inr (Option.some.inj hc).symm)

/-- Spellings of floating point numbers have a character that is no digit. -/
theorem Spelling.exists_other {x : Binary64} {s : Bool} {t : Text} (h : (float x).Spelling s t) :
    ∃ c ∈ t, c.isDigit = false := by
  cases x with
  | finite s' m e => exact h.2.1
  | infinite s' => exact ⟨'.', h.2 ▸ List.mem_cons_self, rfl⟩
  | nan => exact ⟨'.', h.2 ▸ List.mem_cons_self, rfl⟩

theorem Spelling.not_int {x : Binary64} {i : Int} {s : Bool} {t : Text}
    (h : (float x).Spelling s t) : ¬ (int i).Spelling s t := by
  rintro ⟨_, rfl⟩
  obtain ⟨c, hc, hother⟩ := h.exists_other
  rw [Binary64.isDigit_toDigits _ c hc] at hother
  cases hother

theorem Spelling.not_point {s' : Bool} {m : Nat} {e : Int} {s : Bool} {t : Text}
    (h : (float (.finite s' m e)).Spelling s t) : t.head? ≠ some '.' := by
  obtain ⟨_, _, y, hspells, _⟩ := h
  intro hhead
  have hdigit := hspells.head_isDigit hhead
  cases hdigit

theorem Spelling.eq_float {x x' : Binary64} {s : Bool} {t : Text} (hx : (float x).IsRounded)
    (hx' : (float x').IsRounded) (h : (float x).Spelling s t) (h' : (float x').Spelling s t) :
    x = x' := by
  cases x with
  | finite sx m e =>
    cases x' with
    | finite sx' m' e' =>
      obtain ⟨rfl, _, y, hspells, hrounded⟩ := h
      obtain ⟨rfl, _, y', hspells', hrounded'⟩ := h'
      rw [← hspells.unique hspells'] at hrounded'
      obtain ⟨rfl, rfl⟩ := Binary64.eq_of_inRounding hx hx' hrounded hrounded'
      rfl
    | infinite sx' => exact absurd (h'.2 ▸ rfl) h.not_point
    | nan => exact absurd (h'.2 ▸ rfl) h.not_point
  | infinite sx =>
    cases x' with
    | finite sx' m' e' => exact absurd (h.2 ▸ rfl) h'.not_point
    | infinite sx' => rw [← h.1, ← h'.1]
    | nan => exact absurd (h.2.symm.trans h'.2) (by decide)
  | nan =>
    cases x' with
    | finite sx' m' e' => exact absurd (h.2 ▸ rfl) h'.not_point
    | infinite sx' => exact absurd (h.2.symm.trans h'.2) (by decide)
    | nan => rfl

theorem Spelling.eq_int {i j : Int} {s : Bool} {t : Text} (h : (int i).Spelling s t)
    (h' : (int j).Spelling s t) : i = j := by
  obtain ⟨rfl, rfl⟩ := h
  exact Binary64.int_eq_of_digits h'.1 h'.2

theorem text_inj {n n' : Number} (h : n.IsRounded) (h' : n'.IsRounded) (heq : n.text = n'.text) :
    n = n' := by
  obtain ⟨s, t, htext, hspelling⟩ := exists_spelling h
  obtain ⟨s', t', htext', hspelling'⟩ := exists_spelling h'
  rw [htext, htext'] at heq
  obtain ⟨rfl, rfl⟩ := Binary64.signed_inj hspelling.head?_ne hspelling'.head?_ne heq
  cases n with
  | int i =>
    cases n' with
    | int j => rw [hspelling.eq_int hspelling']
    | float x' => exact absurd hspelling hspelling'.not_int
  | float x =>
    cases n' with
    | int j => exact absurd hspelling' hspelling.not_int
    | float x' => rw [hspelling.eq_float h h' hspelling']

end Number

end StaticSite
