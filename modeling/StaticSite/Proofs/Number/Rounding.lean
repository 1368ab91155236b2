import StaticSite.Proofs.Number.Shortest
import StaticSite.Yaml.PlainScalar

/-! Rounding of fractions. The exponent is chosen such that 53 bits are before
the point, as far as it may be that small, and rounding up to one bit more
raises it. -/

namespace StaticSite.Binary64

theorem inUnits_scale (num : Nat) {den : Nat} (hden : 0 < den) (e : Int) :
    ∃ scale : ℚ, 0 < scale ∧ ((inUnits num den e).1 : ℚ) = num / den * scale ∧
      ∀ k : Nat, (k : ℚ) * (inUnits num den e).2 = k * 2 ^ e * scale :=
  scale_fraction (b := 2) (by decide) num hden e

theorem lt_inUnits_iff (num k : Nat) {den : Nat} (hden : 0 < den) (e : Int) :
    (inUnits num den e).1 < k * (inUnits num den e).2 ↔ (num : ℚ) / den < k * 2 ^ e := by
  obtain ⟨scale, hpos, hnum, hk⟩ := inUnits_scale num hden e
  rw [← @Nat.cast_lt ℚ, Nat.cast_mul, hnum, hk, mul_lt_mul_iff_left₀ hpos]

theorem inUnits_pos {den : Nat} (hden : 0 < den) (num : Nat) (e : Int) :
    0 < (inUnits num den e).2 := Nat.mul_pos hden (Nat.pow_pos (by decide))

theorem log2_bounds {n : Nat} (h : 0 < n) :
    (2 : ℚ) ^ (n.log2 : Int) ≤ n ∧ (n : ℚ) < 2 ^ (n.log2 + 1 : Int) := by
  have hlow := Nat.log2_self_le (Nat.pos_iff_ne_zero.mp h)
  have hhigh := @Nat.lt_log2_self n
  constructor
  · rw [zpow_natCast]
    exact_mod_cast hlow
  · exact_mod_cast hhigh

/-- The bits of numerator and denominator leave 53 or 54 bits before the point. -/
theorem quotient_bounds {num den : Nat} (hnum : 0 < num) (hden : 0 < den) :
    let e : Int := num.log2 - den.log2 - 53
    (2 ^ 52 : Nat) * (2 : ℚ) ^ e ≤ num / den ∧ (num : ℚ) / den < (2 ^ 54 : Nat) * 2 ^ e := by
  intro e
  have hpos : (0 : ℚ) < den := by exact_mod_cast hden
  obtain ⟨hnumLow, hnumHigh⟩ := log2_bounds hnum
  obtain ⟨hdenLow, hdenHigh⟩ := log2_bounds hden
  have hunit : (0 : ℚ) < 2 ^ e := zpow_pos (by norm_num) _
  have hlow : (2 : ℚ) ^ (num.log2 : Int) = (2 ^ 52 : Nat) * 2 ^ e * 2 ^ (den.log2 + 1 : Int) := by
    have hexp : (num.log2 : Int) = (52 : Nat) + e + (den.log2 + 1) := by omega
    rw [hexp, zpow_add₀ (by norm_num), zpow_add₀ (by norm_num), zpow_natCast]
    push_cast
    rfl
  have hhigh : (2 : ℚ) ^ (num.log2 + 1 : Int) = (2 ^ 54 : Nat) * 2 ^ e * 2 ^ (den.log2 : Int) := by
    have hexp : (num.log2 + 1 : Int) = (54 : Nat) + e + den.log2 := by omega
    rw [hexp, zpow_add₀ (by norm_num), zpow_add₀ (by norm_num), zpow_natCast]
    push_cast
    rfl
  constructor
  · rw [le_div_iff₀ hpos]
    calc (2 ^ 52 : Nat) * (2 : ℚ) ^ e * den ≤ (2 ^ 52 : Nat) * 2 ^ e * 2 ^ (den.log2 + 1 : Int) := by
          gcongr
      _ = 2 ^ (num.log2 : Int) := hlow.symm
      _ ≤ num := hnumLow
  · rw [div_lt_iff₀ hpos]
    calc (num : ℚ) < 2 ^ (num.log2 + 1 : Int) := hnumHigh
      _ = (2 ^ 54 : Nat) * 2 ^ e * 2 ^ (den.log2 : Int) := hhigh
      _ ≤ (2 ^ 54 : Nat) * 2 ^ e * den := by gcongr

theorem exponentFor_eq (num den : Nat) :
    let e : Int := num.log2 - den.log2 - 53
    exponentFor num den = max leastExponent
      (if (inUnits num den e).1 / (inUnits num den e).2 < 2 ^ 53 then e else e + 1) := rfl

/-- The exponent that leaves 53 bits before the point, which may be too small. -/
theorem exists_exponent {num den : Nat} (hnum : 0 < num) (hden : 0 < den) :
    ∃ e : Int, exponentFor num den = max leastExponent e ∧
      (2 ^ 52 : Nat) * (2 : ℚ) ^ e ≤ num / den ∧ (num : ℚ) / den < (2 ^ 53 : Nat) * 2 ^ e := by
  obtain ⟨hlow, hhigh⟩ := quotient_bounds hnum hden
  have heq := exponentFor_eq num den
  generalize (num.log2 - den.log2 - 53 : Int) = e at hlow hhigh heq
  have hfits := lt_inUnits_iff num (2 ^ 53) hden e
  rw [← Nat.div_lt_iff_lt_mul (inUnits_pos hden num e)] at hfits
  by_cases hsmall : (inUnits num den e).1 / (inUnits num den e).2 < 2 ^ 53
  · exact ⟨e, by rw [heq, if_pos hsmall], hlow, hfits.mp hsmall⟩
  · have hge := not_lt.mp (hfits.not.mp hsmall)
    have hunit : (2 : ℚ) ^ (e + 1) = 2 * 2 ^ e := by rw [zpow_add_one₀ (by norm_num), mul_comm]
    refine ⟨e + 1, by rw [heq, if_neg hsmall], ?_, ?_⟩
    · rw [hunit]
      push_cast at hge ⊢
      linarith
    · rw [hunit]
      push_cast at hhigh ⊢
      linarith

theorem exponentFor_spec {num den : Nat} (hnum : 0 < num) (hden : 0 < den) :
    let e := exponentFor num den
    leastExponent ≤ e ∧ (num : ℚ) / den < (2 ^ 53 : Nat) * 2 ^ e ∧
      (e = leastExponent ∨ (2 ^ 52 : Nat) * (2 : ℚ) ^ e ≤ num / den) := by
  obtain ⟨e, he, hlow, hhigh⟩ := exists_exponent hnum hden
  dsimp only
  rw [he]
  by_cases hleast : leastExponent ≤ e
  · rw [max_eq_right hleast]
    exact ⟨hleast, hhigh, .inr hlow⟩
  · have hle : e ≤ leastExponent := (not_le.mp hleast).le
    have hpow : (2 : ℚ) ^ e ≤ 2 ^ leastExponent := zpow_le_zpow_right₀ (by norm_num) hle
    rw [max_eq_left hle]
    refine ⟨le_refl _, hhigh.trans_le ?_, .inl rfl⟩
    gcongr

theorem roundQuotient_le {num den k : Nat} (h : num < k * den) : roundQuotient num den ≤ k := by
  have hdiv : num / den < k := Nat.div_lt_of_lt_mul (by rwa [Nat.mul_comm] at h)
  simp only [roundQuotient]
  split <;> omega

theorem le_roundQuotient {num den k : Nat} (hden : 0 < den) (h : k * den ≤ num) :
    k ≤ roundQuotient num den := by
  have hdiv : k ≤ num / den := (Nat.le_div_iff_mul_le hden).mpr h
  simp only [roundQuotient]
  split <;> omega

theorem ofFraction_isRounded (negative : Bool) (num : Nat) {den : Nat} (hden : 0 < den) :
    (Number.float (ofFraction negative num den)).IsRounded := by
  rw [ofFraction]
  by_cases hzero : num = 0
  · rw [if_pos hzero]
    exact ⟨by decide, le_refl _, .inr rfl⟩
  · have hnum := Nat.pos_of_ne_zero hzero
    obtain ⟨hleast, hhigh, hlow⟩ := exponentFor_spec hnum hden
    rw [if_neg hzero]
    have hle := roundQuotient_le ((lt_inUnits_iff num (2 ^ 53) hden _).mpr hhigh)
    have hfilled : 2 ^ 52 ≤ roundQuotient (inUnits num den (exponentFor num den)).1
        (inUnits num den (exponentFor num den)).2 ∨ exponentFor num den = leastExponent := by
      refine hlow.symm.imp_left fun hlow => le_roundQuotient (inUnits_pos hden num _) ?_
      exact not_lt.mp ((lt_inUnits_iff num (2 ^ 52) hden _).not.mpr (not_lt.mpr hlow))
    dsimp only
    generalize roundQuotient (inUnits num den (exponentFor num den)).1
      (inUnits num den (exponentFor num den)).2 = m at hle hfilled ⊢
    by_cases hmore : m = Nat.pow 2 53
    · rw [if_pos hmore]
      dsimp only
      split
      · trivial
      · exact ⟨by decide, by omega, .inl (le_refl _)⟩
    · rw [if_neg hmore]
      dsimp only
      split
      · trivial
      · exact ⟨lt_of_le_of_ne hle hmore, hleast, hfilled⟩

theorem ofDecimal_isRounded (negative : Bool) (digits : Nat) (exponent : Int) :
    (Number.float (ofDecimal negative digits exponent)).IsRounded := by
  have hzero : (Number.float (finite negative 0 leastExponent)).IsRounded :=
    ⟨by decide, le_refl _, .inr rfl⟩
  rw [ofDecimal]
  split
  · exact hzero
  split
  · trivial
  split
  · exact hzero
  · exact ofFraction_isRounded negative _ (Nat.pow_pos (by decide))

end StaticSite.Binary64
