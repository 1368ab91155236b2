import StaticSite.Number.Binary64

/-! The shortest decimal that reads back as a given number, and its spelling. -/

namespace StaticSite.Binary64

/-- A fraction by numerator and denominator times `10 ^ (-j)`. -/
def inTens (num den : Nat) (j : Int) : Nat × Nat :=
  (num * Nat.pow 10 (-j).toNat, den * Nat.pow 10 j.toNat)

/-- The place of the first digit of a fraction below one, searched downwards. -/
def firstPlace (num den : Nat) : Nat → Nat → Int
  | 0, place => -place
  | fuel + 1, place =>
    if num * Nat.pow 10 place ≥ den then -place else firstPlace num den fuel (place + 1)

/-- The exponent of the first decimal digit of a positive fraction. -/
def decimalExponent (num den : Nat) : Int :=
  if num ≥ den then (Nat.toDigits 10 (num / den)).length - 1 else firstPlace num den 400 1

/-- The multiple of `10 ^ j` that is nearest to `mid` of those between `low` and `high`;
all three are numerators over `den`. A tie goes to the even multiple. -/
def nearestOnGrid (low mid high den : Nat) (closed : Bool) (j : Int) : Option Nat :=
  let (l, d) := inTens low den j
  let (v, _) := inTens mid den j
  let (h, _) := inTens high den j
  let inside (c : Nat) : Bool := if closed then l ≤ c * d && c * d ≤ h else l < c * d && c * d < h
  let down := v / d
  let best := roundQuotient v d
  let other := if best = down then down + 1 else down
  if inside best then some best else if inside other then some other else none

def firstGrid (low mid high den : Nat) (closed : Bool) (top : Int) : Nat → Nat → Nat × Int
  | 0, n => (roundQuotient (inTens mid den (top - n)).1 (inTens mid den (top - n)).2, top - n)
  | fuel + 1, n => match nearestOnGrid low mid high den closed (top - n) with
    | some c => (c, top - n)
    | none => firstGrid low mid high den closed top fuel (n + 1)

/-- Digits and exponent of the shortest decimal within rounding distance of a positive number. -/
def shortest (m : Nat) (e : Int) : Nat × Int :=
  let den := Nat.pow 2 (2 - e).toNat
  let scale := Nat.pow 2 (e - 2).toNat
  let below := if m = Nat.pow 2 52 ∧ e > leastExponent then 1 else 2
  let mid := 4 * m * scale
  firstGrid ((4 * m - below) * scale) mid ((4 * m + 2) * scale) den (m % 2 = 0)
    (decimalExponent mid den) 16 0

/-- Digits without final zeros, and the exponent of the last digit. -/
def trimZeros (digits : Nat) (exponent : Int) : List Char × Int :=
  let ds := Nat.toDigits 10 digits
  let kept := Text.dropEnd (· == '0') ds
  (kept, exponent + (ds.length - kept.length : Nat))

structure ExponentStyle where
  plus : Bool

/-- Numbers from `10 ^ (-5)` on and below `10 ^ 16` are written with a point only. -/
def layout (style : ExponentStyle) (ds : Text) (k : Int) : Text :=
  let kk : Int := ds.length + k
  let exponent : Text :=
    (if style.plus && kk - 1 > 0 then "+" else "") ++ (toString (kk - 1)).toList
  if 0 ≤ k ∧ kk ≤ 16 then ds ++ List.replicate k.toNat '0' ++ ".0"
  else if 0 < kk ∧ kk ≤ 16 then ds.take kk.toNat ++ "." ++ ds.drop kk.toNat
  else if -5 < kk ∧ kk ≤ 0 then "0." ++ List.replicate (-kk).toNat '0' ++ ds
  else match ds with
    | [d] => d :: "e" ++ exponent
    | d :: rest => d :: "." ++ rest ++ "e" ++ exponent
    | [] => []

def finiteText (style : ExponentStyle) (negative : Bool) (m : Nat) (e : Int) : Text :=
  (if negative then "-" else "") ++
    if m = 0 then ("0.0" : Text)
    else
      let (digits, exponent) := shortest m e
      let (ds, k) := trimZeros digits exponent
      layout style ds k

end StaticSite.Binary64
