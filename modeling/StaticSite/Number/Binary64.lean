import StaticSite.Text.Basic

/-! Binary floating point numbers of 64 bits, by their exact values. -/

namespace StaticSite

/-- A finite number is `mantissa * 2 ^ exponent` with a sign. Rounding gives the form with
a mantissa of 53 bits, or the least exponent. -/
inductive Binary64 where
  | finite (negative : Bool) (mantissa : Nat) (exponent : Int)
  | infinite (negative : Bool)
  | nan
  deriving DecidableEq

namespace Binary64

def leastExponent : Int := -1074

def greatestExponent : Int := 971

/-- The nearest integer; a half goes to the even neighbour. -/
def roundQuotient (num den : Nat) : Nat :=
  let q := num / den
  let twice := 2 * (num % den)
  if twice > den ∨ (twice = den ∧ q % 2 = 1) then q + 1 else q

/-- The quotient `num / den` in units of `2 ^ e`, as a fraction. -/
def inUnits (num den : Nat) (e : Int) : Nat × Nat :=
  (num * Nat.pow 2 (-e).toNat, den * Nat.pow 2 e.toNat)

/-- The exponent that leaves 53 bits before the point, if it is in range. -/
def exponentFor (num den : Nat) : Int :=
  let e : Int := num.log2 - den.log2 - 53
  let (n, d) := inUnits num den e
  max leastExponent (if n / d < Nat.pow 2 53 then e else e + 1)

def ofFraction (negative : Bool) (num den : Nat) : Binary64 :=
  if num = 0 then finite negative 0 leastExponent
  else
    let e := exponentFor num den
    let (n, d) := inUnits num den e
    let m := roundQuotient n d
    let (m, e) := if m = Nat.pow 2 53 then (Nat.pow 2 52, e + 1) else (m, e)
    if e > greatestExponent then infinite negative else finite negative m e

/-- The number nearest to `digits * 10 ^ exponent`. Exponents far out of range are
settled by the length of the digits. -/
def ofDecimal (negative : Bool) (digits : Nat) (exponent : Int) : Binary64 :=
  let top := exponent + digits.log2
  if digits = 0 then finite negative 0 leastExponent
  else if exponent > 400 then infinite negative
  else if top < -1200 then finite negative 0 leastExponent
  else ofFraction negative (digits * Nat.pow 10 exponent.toNat) (Nat.pow 10 (-exponent).toNat)

def ofInt (i : Int) : Binary64 := ofFraction (i < 0) i.natAbs 1

def isFinite : Binary64 → Bool
  | finite .. => true
  | _ => false

/-- Zeros are the same number whatever their sign, and not-a-number is the same as itself. -/
def same : Binary64 → Binary64 → Bool
  | finite n m e, finite n' m' e' => (m == 0 && m' == 0) || (n == n' && m == m' && e == e')
  | infinite n, infinite n' => n == n'
  | nan, nan => true
  | _, _ => false

end Binary64

end StaticSite
