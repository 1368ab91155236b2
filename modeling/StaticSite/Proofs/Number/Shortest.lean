import Mathlib.Data.Nat.Cast.Order.Field
import Mathlib.Tactic.FieldSimp
import StaticSite.Proofs.Number.Interval

/-! The decimal that spells a number is rounded to it. The decimals that the
search tries are tested, and the last one, which is not, has 17 digits and is
near enough. -/

namespace StaticSite.Binary64

theorem two_quarters (a : Nat) (e : Int) :
    ((a * Nat.pow 2 (e - 2).toNat : Nat) : ℚ) / (Nat.pow 2 (2 - e).toNat : Nat) =
      a * 2 ^ (e - 2) := by
  have hpos : (0 : ℚ) < 2 ^ (2 - e).toNat := by positivity
  have hexp : (2 : ℚ) ^ (e - 2).toNat = 2 ^ (e - 2) * 2 ^ (2 - e).toNat := by
    rw [← zpow_natCast, ← zpow_natCast, ← zpow_add₀ (by norm_num)]
    congr 1
    omega
  simp only [Nat.pow_eq]
  push_cast
  rw [hexp, ← mul_assoc, mul_div_assoc, div_self hpos.ne', mul_one]

/-- Fractions and multiples of a power are compared as integers, by one scale. -/
theorem scale_fraction {b : Nat} (hb : 0 < b) (num : Nat) {den : Nat} (hden : 0 < den) (j : Int) :
    ∃ scale : ℚ, 0 < scale ∧ ((num * Nat.pow b (-j).toNat : Nat) : ℚ) = num / den * scale ∧
      ∀ c : Nat, (c : ℚ) * (den * Nat.pow b j.toNat : Nat) = c * b ^ j * scale := by
  have hpos : (0 : ℚ) < den := by exact_mod_cast hden
  have hbase : (0 : ℚ) < b := by exact_mod_cast hb
  have hexp : (b : ℚ) ^ j.toNat = b ^ j * b ^ (-j).toNat := by
    rw [← zpow_natCast, ← zpow_natCast, ← zpow_add₀ hbase.ne']
    congr 1
    omega
  refine ⟨den * b ^ (-j).toNat, by positivity, ?_, ?_⟩
  · simp only [Nat.pow_eq]
    push_cast
    field_simp
  · intro c
    simp only [Nat.pow_eq]
    push_cast
    rw [hexp]
    ring

theorem inTens_scale (num : Nat) {den : Nat} (hden : 0 < den) (j : Int) :
    ∃ scale : ℚ, 0 < scale ∧ ((inTens num den j).1 : ℚ) = num / den * scale ∧
      ∀ c : Nat, (c : ℚ) * (inTens num den j).2 = c * 10 ^ j * scale :=
  scale_fraction (b := 10) (by decide) num hden j

theorem inTens_le_iff (num c : Nat) {den : Nat} (hden : 0 < den) (j : Int) :
    (inTens num den j).1 ≤ c * (inTens num den j).2 ↔ (num : ℚ) / den ≤ c * 10 ^ j := by
  obtain ⟨scale, hpos, hnum, hc⟩ := inTens_scale num hden j
  rw [← @Nat.cast_le ℚ, Nat.cast_mul, hnum, hc, mul_le_mul_iff_left₀ hpos]

theorem le_inTens_iff (num c : Nat) {den : Nat} (hden : 0 < den) (j : Int) :
    c * (inTens num den j).2 ≤ (inTens num den j).1 ↔ (c : ℚ) * 10 ^ j ≤ num / den := by
  obtain ⟨scale, hpos, hnum, hc⟩ := inTens_scale num hden j
  rw [← @Nat.cast_le ℚ, Nat.cast_mul, hnum, hc, mul_le_mul_iff_left₀ hpos]

/-- The test of a multiple of `10 ^ j` against the bounds. -/
def isInside (low high den : Nat) (closed : Bool) (j : Int) (c : Nat) : Bool :=
  let (l, d) := inTens low den j
  let (h, _) := inTens high den j
  if closed then l ≤ c * d && c * d ≤ h else l < c * d && c * d < h

theorem isInside_of_nearestOnGrid {low mid high den c : Nat} {closed : Bool} {j : Int}
    (h : nearestOnGrid low mid high den closed j = some c) : isInside low high den closed j c := by
  obtain ⟨best, other, hfound⟩ : ∃ best other, nearestOnGrid low mid high den closed j =
      if isInside low high den closed j best then some best
      else if isInside low high den closed j other then some other else none := ⟨_, _, rfl⟩
  rw [hfound] at h
  by_cases hbest : isInside low high den closed j best = true
  · rw [if_pos hbest, Option.some.injEq] at h
    exact h ▸ hbest
  · rw [if_neg hbest] at h
    obtain ⟨hother, hc⟩ := Option.ite_none_right_eq_some.mp h
    rw [Option.some.injEq] at hc
    exact hc ▸ hother

theorem isInside_iff {low high den c : Nat} {closed : Bool} {j : Int} (hden : 0 < den) :
    isInside low high den closed j c ↔
      let y : ℚ := c * 10 ^ j
      (low : ℚ) / den ≤ y ∧ y ≤ high / den ∧
        (closed = false → (low : ℚ) / den < y ∧ y < high / den) := by
  have hlow := inTens_le_iff low c hden j
  have hhigh := le_inTens_iff high c hden j
  have hlow' := le_inTens_iff low c hden j
  have hhigh' := inTens_le_iff high c hden j
  have hsame : (inTens high den j).2 = (inTens low den j).2 := rfl
  rw [hsame] at hhigh hhigh'
  cases closed with
  | true => simp [isInside, hlow, hhigh]
  | false =>
    rw [← not_lt, ← not_lt, not_iff_not] at hlow' hhigh'
    simp only [isInside, Bool.false_eq_true, if_false, Bool.and_eq_true, decide_eq_true_eq, hlow',
      hhigh', forall_const]
    exact ⟨fun h => ⟨h.1.le, h.2.le, h⟩, fun h => h.2.2⟩

theorem roundQuotient_near (num : Nat) {den : Nat} (hden : 0 < den) :
    2 * num ≤ 2 * (roundQuotient num den * den) + den ∧
      2 * (roundQuotient num den * den) ≤ 2 * num + den := by
  have hdiv := Nat.div_add_mod num den
  have hmod := Nat.mod_lt num hden
  rw [Nat.mul_comm] at hdiv
  simp only [roundQuotient]
  split
  · rw [Nat.add_mul]
    omega
  · omega

theorem roundQuotient_inTens (num : Nat) {den : Nat} (hden : 0 < den) (j : Int) :
    let y : ℚ := roundQuotient (inTens num den j).1 (inTens num den j).2 * 10 ^ j
    2 * (num / den : ℚ) ≤ 2 * y + 10 ^ j ∧ 2 * y ≤ 2 * (num / den : ℚ) + 10 ^ j := by
  intro y
  obtain ⟨scale, hpos, hnum, hc⟩ := inTens_scale num hden j
  have hunit : 0 < (inTens num den j).2 := Nat.mul_pos hden (Nat.pow_pos (by decide))
  obtain ⟨hup, hdown⟩ := roundQuotient_near (inTens num den j).1 hunit
  have hone := hc 1
  have hy := hc (roundQuotient (inTens num den j).1 (inTens num den j).2)
  rw [Nat.cast_one, one_mul, one_mul] at hone
  have hup' : 2 * (num / den * scale) ≤ 2 * (y * scale) + 10 ^ j * scale := by
    rw [← hnum, ← hy, ← hone]
    exact_mod_cast hup
  have hdown' : 2 * (y * scale) ≤ 2 * (num / den * scale) + 10 ^ j * scale := by
    rw [← hnum, ← hy, ← hone]
    exact_mod_cast hdown
  constructor
  · refine le_of_mul_le_mul_right ?_ hpos
    linarith
  · refine le_of_mul_le_mul_right ?_ hpos
    linarith

theorem firstGrid_cases (low mid high den : Nat) (closed : Bool) (top : Int) (fuel n : Nat) :
    let r := firstGrid low mid high den closed top fuel n
    nearestOnGrid low mid high den closed r.2 = some r.1 ∨
      r.2 = top - (n + fuel : Nat) ∧
        r.1 = roundQuotient (inTens mid den r.2).1 (inTens mid den r.2).2 := by
  induction fuel generalizing n with
  | zero => exact .inr ⟨rfl, rfl⟩
  | succ fuel ih =>
    rw [firstGrid]
    cases hgrid : nearestOnGrid low mid high den closed (top - n) with
    | some c => exact .inl hgrid
    | none =>
      have hnext : n + 1 + fuel = n + (fuel + 1) := by omega
      rw [← hnext]
      exact ih (n + 1)

theorem le_of_firstPlace {num den : Nat} (hden : 0 < den) {fuel place : Nat}
    (h : (10 : ℚ) ^ (-((place + fuel : Nat) : Int)) ≤ num / den) :
    (10 : ℚ) ^ firstPlace num den fuel place ≤ num / den := by
  have hpos : (0 : ℚ) < den := by exact_mod_cast hden
  induction fuel generalizing place with
  | zero => exact h
  | succ fuel ih =>
    rw [firstPlace]
    by_cases hfound : num * Nat.pow 10 place ≥ den
    · have hle : (den : ℚ) ≤ num * 10 ^ place := by exact_mod_cast hfound
      rw [if_pos hfound, zpow_neg, zpow_natCast, le_div_iff₀ hpos, inv_mul_le_iff₀ (by positivity)]
      rwa [mul_comm] at hle
    · have hnext : place + 1 + fuel = place + (fuel + 1) := by omega
      rw [if_neg hfound]
      exact ih (by rwa [hnext])

theorem le_of_decimalExponent {num den : Nat} (hden : 0 < den)
    (h : (10 : ℚ) ^ (-401 : Int) ≤ num / den) :
    (10 : ℚ) ^ decimalExponent num den ≤ num / den := by
  rw [decimalExponent]
  by_cases hge : num ≥ den
  · have hone : 0 < num / den := Nat.div_pos hge hden
    have hlength := @Nat.length_toDigits_pos 10 (num / den)
    generalize hn : (Nat.toDigits 10 (num / den)).length = n at hlength ⊢
    have hdigits : 10 ^ (n - 1) ≤ num / den := by
      by_cases hfirst : n - 1 = 0
      · rw [hfirst, pow_zero]
        exact hone
      · have hle := Nat.length_toDigits_le_iff (n := num / den) (b := 10) (by decide)
          (Nat.pos_of_ne_zero hfirst)
        exact not_lt.mp fun hlt => by
          have := hle.mpr hlt
          omega
    have hexp : (10 : ℚ) ^ ((n : Int) - 1) = ((10 ^ (n - 1) : Nat) : ℚ) := by
      have hcast : (n : Int) - 1 = (n - 1 : Nat) := by omega
      rw [hcast, zpow_natCast, Nat.cast_pow, Nat.cast_ofNat]
    rw [if_pos hge, hexp]
    exact le_trans (Nat.cast_le.mpr hdigits) Nat.cast_div_le
  · rw [if_neg hge]
    exact le_of_firstPlace hden h

theorem least_le_quarters {m : Nat} {e : Int} (h : leastExponent ≤ e) (hm : 0 < m) :
    (10 : ℚ) ^ (-401 : Int) ≤ (4 * m : Nat) * 2 ^ (e - 2) := by
  have hm' : (1 : ℚ) ≤ m := by exact_mod_cast hm
  have hleast : (2 : ℚ) ^ (-1074 : Int) ≤ 2 ^ e := zpow_le_zpow_right₀ (by norm_num) h
  have htiny : (10 : ℚ) ^ (-401 : Int) ≤ 2 ^ (-1074 : Int) := by
    have hpow : (2 : ℚ) ^ 1074 ≤ 10 ^ 401 :=
      calc (2 : ℚ) ^ 1074 ≤ 2 ^ (3 * 401) := pow_le_pow_right₀ (by norm_num) (by norm_num)
        _ = (2 ^ 3) ^ 401 := pow_mul 2 3 401
        _ ≤ 10 ^ 401 := pow_le_pow_left₀ (by norm_num) (by norm_num) 401
    exact inv_anti₀ (by positivity) hpow
  have hunit : (2 : ℚ) ^ e = 4 * 2 ^ (e - 2) := by
    rw [zpow_sub₀ (by norm_num)]
    ring
  have hpos : (0 : ℚ) < 2 ^ (e - 2) := zpow_pos (by norm_num) _
  calc (10 : ℚ) ^ (-401 : Int) ≤ 2 ^ e := htiny.trans hleast
    _ = 4 * 1 * 2 ^ (e - 2) := by rw [hunit, mul_one]
    _ ≤ 4 * m * 2 ^ (e - 2) := by gcongr
    _ = (4 * m : Nat) * 2 ^ (e - 2) := by push_cast; rfl

/-- A decimal with 17 digits that is nearest to a number is rounded to it. -/
theorem inRounding_of_near {m : Nat} {e : Int} (h : IsRounded m e) (hm : 0 < m) {y unit : ℚ}
    (hunit : unit * 10 ^ 16 ≤ (4 * m : Nat) * 2 ^ (e - 2))
    (hup : 2 * ((4 * m : Nat) * 2 ^ (e - 2)) ≤ 2 * y + unit)
    (hdown : 2 * y ≤ 2 * ((4 * m : Nat) * 2 ^ (e - 2)) + unit) : InRounding m e y := by
  have hpos : (0 : ℚ) < 2 ^ (e - 2) := zpow_pos (by norm_num) _
  have hbelow : unit < 2 * below m e * 2 ^ (e - 2) := by
    rw [below]
    split
    · rename_i hpower
      rw [hpower.1] at hunit
      push_cast at hunit ⊢
      linarith
    · have hlt : (m : ℚ) * 2 ^ (e - 2) ≤ 2 ^ 53 * 2 ^ (e - 2) := by
        have hle : (m : ℚ) ≤ 2 ^ 53 := by exact_mod_cast h.mantissa_lt.le
        gcongr
      push_cast at hunit ⊢
      linarith
  have htwo : (below m e : ℚ) * 2 ^ (e - 2) ≤ 2 * 2 ^ (e - 2) := by
    have hle : (below m e : ℚ) ≤ 2 := by
      rw [below]
      split <;> norm_num
    gcongr
  have hlow : ((4 * m - below m e : Nat) : ℚ) = (4 * m : Nat) - below m e := by
    refine Nat.cast_sub ?_
    rw [below]
    split <;> omega
  have hstrict : ((4 * m - below m e : Nat) : ℚ) * 2 ^ (e - 2) < y ∧
      y < (4 * m + 2 : Nat) * 2 ^ (e - 2) := by
    rw [hlow, sub_mul, Nat.cast_add, add_mul]
    constructor
    · linarith
    · push_cast at *
      linarith
  exact ⟨hstrict.1.le, hstrict.2.le, fun _ => hstrict⟩

theorem shortest_inRounding {m : Nat} {e : Int} (h : IsRounded m e) (hm : 0 < m) :
    InRounding m e ((shortest m e).1 * 10 ^ (shortest m e).2) := by
  have hden : 0 < Nat.pow 2 (2 - e).toNat := Nat.pow_pos (by decide)
  have hmid := two_quarters (4 * m) e
  -- Either a tested decimal ends the search, or the untested one of 17 digits does.
  rcases firstGrid_cases ((4 * m - below m e) * Nat.pow 2 (e - 2).toNat)
    (4 * m * Nat.pow 2 (e - 2).toNat) ((4 * m + 2) * Nat.pow 2 (e - 2).toNat)
    (Nat.pow 2 (2 - e).toNat) (m % 2 = 0)
    (decimalExponent (4 * m * Nat.pow 2 (e - 2).toNat) (Nat.pow 2 (2 - e).toNat)) 16 0 with
    hfound | ⟨hj, hc⟩
  · have hclosed : decide (m % 2 = 0) = false ↔ m % 2 = 1 := by simp
    have hinside := (isInside_iff hden).mp (isInside_of_nearestOnGrid hfound)
    rw [two_quarters (4 * m - below m e) e, two_quarters (4 * m + 2) e, hclosed] at hinside
    exact hinside
  · have htop := le_of_decimalExponent hden (by rw [hmid]; exact least_le_quarters h.least_le hm)
    have hnear := roundQuotient_inTens (4 * m * Nat.pow 2 (e - 2).toNat) hden (shortest m e).2
    have hunit : (10 : ℚ) ^ (shortest m e).2 * 10 ^ 16 = 10 ^
        decimalExponent (4 * m * Nat.pow 2 (e - 2).toNat) (Nat.pow 2 (2 - e).toNat) := by
      rw [← zpow_natCast, ← zpow_add₀ (by norm_num)]
      congr 1
      have hexp : (shortest m e).2 = _ := hj
      omega
    rw [← hunit, hmid] at htop
    rw [hmid] at hnear
    have hdigits : (shortest m e).1 = _ := hc
    rw [hdigits]
    exact inRounding_of_near h hm htop hnear.1 hnear.2

end StaticSite.Binary64
