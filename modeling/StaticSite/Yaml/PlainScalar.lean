import StaticSite.Number.Basic

/-! What a scalar without quotes and tags means, by its text alone: nothing,
a truth value, a number, or the text itself. -/

namespace StaticSite.Yaml.PlainScalar

def nullWords : List Text := ["null", "Null", "NULL", "~"]

def isNullWord (t : Text) : Bool := nullWords.contains t

def isNull (t : Text) : Bool := t = [] || isNullWord t

def trueWords : List Text := ["true", "True", "TRUE"]

def falseWords : List Text := ["false", "False", "FALSE"]

def bool? (t : Text) : Option Bool :=
  if trueWords.contains t then some true
  else if falseWords.contains t then some false
  else none

def isSign (c : Char) : Bool := c == '+' || c == '-'

def splitSign : Text → Bool × Text
  | '-' :: t => (true, t)
  | '+' :: t => (false, t)
  | t => (false, t)

/-- Digits after a leading zero are a text. -/
def isPadded (t : Text) : Bool :=
  match (splitSign t).2 with
  | '0' :: d :: t => d.isDigit && t.all Char.isDigit
  | _ => false

def digit? (radix : Nat) (c : Char) : Option Nat :=
  let d := if c.isDigit then c.toNat - 48
    else if c.isAlpha then c.toLower.toNat - 87
    else radix
  if d < radix then some d else none

def natural? (radix : Nat) (t : Text) : Option Nat :=
  if t = [] then none else t.foldlM (fun n c => (digit? radix c).map (radix * n + ·)) 0

def magnitude? : Text → Option Nat
  | '0' :: 'x' :: t => natural? 16 t
  | '0' :: 'o' :: t => natural? 8 t
  | '0' :: 'b' :: t => natural? 2 t
  | t => natural? 10 t

/-- The integer that a text spells, if 128 bits are enough for it. -/
def wideInt? (t : Text) : Option Int := do
  let (negative, t') := splitSign t
  if isPadded t then none
  let n ← magnitude? t'
  if negative then if n ≤ Nat.pow 2 127 then some (-n) else none
  else if n < Nat.pow 2 128 then some n else none

def takeDigits (t : Text) : Text × Text := (t.takeWhile Char.isDigit, t.dropWhile Char.isDigit)

def exponent? : Text → Option Int
  | [] => some 0
  | c :: t =>
    if c = 'e' ∨ c = 'E' then
      let (negative, t) := splitSign t
      if t.all Char.isDigit then
        (natural? 10 t).map fun n => if negative then -(n : Int) else n
      else none
    else none

/-- A decimal number with a point or an exponent, or without. -/
def decimal? (t : Text) : Option Binary64 := do
  let (negative, t) := splitSign t
  let (whole, t) := takeDigits t
  let (fraction, t) := match t with
    | '.' :: t => takeDigits t
    | t => ([], t)
  let digits ← natural? 10 (whole ++ fraction)
  let e ← exponent? t
  let x := Binary64.ofDecimal negative digits (e - fraction.length)
  if x.isFinite then some x else none

def infinityWords : List Text := [".inf", ".Inf", ".INF"]

def nanWords : List Text := [".nan", ".NaN", ".NAN"]

/-- A floating point number. A second sign is none, and not-a-number has no sign. -/
def float? (t : Text) : Option Binary64 :=
  match t with
  | '+' :: t =>
    if t.head?.any isSign then none
    else if infinityWords.contains t then some (.infinite false)
    else decimal? t
  | '-' :: t' => if infinityWords.contains t' then some (.infinite true) else decimal? t
  | t =>
    if infinityWords.contains t then some (.infinite false)
    else if nanWords.contains t then some .nan
    else decimal? t

end StaticSite.Yaml.PlainScalar
