import Mathlib.Algebra.Order.Field.Basic
import Mathlib.Data.Rat.Cast.Order
import Mathlib.Tactic.Linarith
import Mathlib.Tactic.Positivity
import Mathlib.Tactic.Ring
import StaticSite.Number.Basic

/-! The numbers that are rounded to a given one. Rounding intervals of different
numbers have no number in common: they meet at most in a bound, and of two
neighbours only the even one has its bounds. -/

namespace StaticSite

namespace Binary64

/-- The form that rounding gives: a mantissa of 53 bits, or the least exponent. -/
structure IsRounded (m : Nat) (e : Int) : Prop where
  mantissa_lt : m < 2 ^ 53
  least_le : leastExponent ≤ e
  filled : 2 ^ 52 ≤ m ∨ e = leastExponent

/-- The distance of the lower bound, in quarters of the last place. -/
def below (m : Nat) (e : Int) : Nat := if m = 2 ^ 52 ∧ e > leastExponent then 1 else 2

/-- Between the bounds of a number, which belong to it if its mantissa is even. -/
def InRounding (m : Nat) (e : Int) (y : ℚ) : Prop :=
  let low : ℚ := (4 * m - below m e : Nat) * 2 ^ (e - 2)
  let high : ℚ := (4 * m + 2 : Nat) * 2 ^ (e - 2)
  low ≤ y ∧ y ≤ high ∧ (m % 2 = 1 → low < y ∧ y < high)

/-- The upper bound of a number against the lower bound of a greater one, in the units of
the former. -/
theorem quarters_le {m m' : Nat} {e e' : Int} (h : IsRounded m e) (h' : IsRounded m' e')
    (hlt : e < e' ∨ e = e' ∧ m < m') :
    let low := (4 * m' - below m' e') * 2 ^ (e' - e).toNat
    4 * m + 2 ≤ low ∧ (4 * m + 2 = low → m % 2 = 1 ∨ m' % 2 = 1) := by
  intro low
  have hm := h.mantissa_lt
  have hleast := h.least_le
  rcases hlt with hlt | ⟨rfl, hlt⟩
  · have hm' : 2 ^ 52 ≤ m' := h'.filled.resolve_right (by omega)
    have htwo : 2 ≤ 2 ^ (e' - e).toNat := Nat.le_self_pow (by omega) 2
    have hlow : (4 * m' - below m' e') * 2 ≤ low := Nat.mul_le_mul_left _ htwo
    rw [below] at hlow
    split at hlow <;> omega
  · have hlow : low = 4 * m' - below m' e := by simp [low]
    rw [hlow, below]
    split <;> omega

theorem not_inRounding_of_lt {m m' : Nat} {e e' : Int} (h : IsRounded m e) (h' : IsRounded m' e')
    (hlt : e < e' ∨ e = e' ∧ m < m') {y : ℚ} (hy : InRounding m e y) :
    ¬ InRounding m' e' y := by
  intro hy'
  obtain ⟨hle, hodd⟩ := quarters_le h h' hlt
  obtain ⟨_, hhigh, hopen⟩ := hy
  obtain ⟨hlow, _, hopen'⟩ := hy'
  have hunit : (2 : ℚ) ^ (e' - 2) = 2 ^ (e' - e).toNat * 2 ^ (e - 2) := by
    have hexp : e' - 2 = ((e' - e).toNat : Int) + (e - 2) := by omega
    rw [hexp, zpow_add₀ (by norm_num), zpow_natCast]
  have hbound : ((4 * m' - below m' e' : Nat) : ℚ) * 2 ^ (e' - 2) =
      ((4 * m' - below m' e') * 2 ^ (e' - e).toNat : Nat) * 2 ^ (e - 2) := by
    rw [hunit]
    push_cast
    ring
  have hpos : (0 : ℚ) < 2 ^ (e - 2) := zpow_pos (by norm_num) _
  rw [hbound] at hlow hopen'
  have heq : 4 * m + 2 = (4 * m' - below m' e') * 2 ^ (e' - e).toNat := by
    refine hle.antisymm ?_
    have hmul := hlow.trans hhigh
    exact_mod_cast le_of_mul_le_mul_right hmul hpos
  rw [← heq] at hlow hopen'
  rcases hodd heq with hm | hm
  · exact absurd hlow (not_le.mpr (hopen hm).2)
  · exact absurd hhigh (not_le.mpr (hopen' hm).1)

theorem eq_of_inRounding {m m' : Nat} {e e' : Int} {y : ℚ} (h : IsRounded m e)
    (h' : IsRounded m' e') (hy : InRounding m e y) (hy' : InRounding m' e' y) :
    m = m' ∧ e = e' := by
  by_contra hne
  have hor : (e < e' ∨ e = e' ∧ m < m') ∨ e' < e ∨ e' = e ∧ m' < m := by omega
  rcases hor with hlt | hlt
  · exact not_inRounding_of_lt h h' hlt hy hy'
  · exact not_inRounding_of_lt h' h hlt hy' hy

end Binary64

/-- Floating point numbers that are finite have the form that rounding gives. -/
def Number.IsRounded : Number → Prop
  | float (.finite _ m e) => Binary64.IsRounded m e
  | _ => True

end StaticSite
