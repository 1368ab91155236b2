import StaticSite.Yaml.PlainScalar
import StaticSite.Yaml.Cursor

/-! How a text is written as a scalar. Texts that would be read as another type
get quotes, texts of several lines become blocks where they can. -/

namespace StaticSite.Yaml

/-- Characters that may be written as they are. -/
def isPrintable (c : Char) : Bool :=
  let n := c.toNat
  n == 10 || (0x20 ≤ n && n ≤ 0x7E) || (0xA0 ≤ n && n ≤ 0xD7FF) ||
    (0xE000 ≤ n && n ≤ 0xFFFD && n != 0xFEFF) || 0x10000 ≤ n

/-- Whether two characters for which `p` and `q` hold follow each other. -/
def hasPair (p q : Char → Bool) : Text → Bool
  | a :: b :: t => (p a && q b) || hasPair p q (b :: t)
  | _ => false

namespace Spelling

def isSpace (c : Char) : Bool := c == ' '

def isEdge (c : Char) : Bool := isSpace c || isBreak c

def hasSpaceBeforeBreak (t : Text) : Bool := hasPair isSpace isBreak t

def hasSpaceAfterBreak (t : Text) : Bool := hasPair isBreak isSpace t

/-- Whether a mark within the text would end the scalar or begin a comment. -/
def hasInnerMark : Text → Bool
  | a :: b :: t =>
    (a == ':' && atBlank (b :: t)) || (b == '#' && atBlank (a :: b :: t)) || hasInnerMark (b :: t)
  | [a] => a == ':'
  | [] => false

/-- Whether the text would not be read as a plain scalar from its start. -/
def hasLeadingMark (t : Text) : Bool :=
  t.startsWith "---" || t.startsWith "..." ||
    match t with
    | c :: t => (",[]\x7b\x7d#&*!|>'\x22%@\x60" : Text).contains c ||
      (("?:-" : Text).contains c && atBlank t)
    | [] => false

def allowsSingle (t : Text) : Bool :=
  t.all isPrintable && !hasSpaceBeforeBreak t && !hasSpaceAfterBreak t

def allowsBlock (t : Text) : Bool :=
  t ≠ [] && t.all isPrintable && !hasSpaceBeforeBreak t && !(t.getLast?.any isSpace)

def allowsPlain (t : Text) : Bool :=
  allowsSingle t && !t.any isBreak && !(t.head?.any isEdge) && !(t.getLast?.any isEdge) &&
    !hasLeadingMark t && !hasInnerMark t

/-- Whether a plain scalar of this text would not be read as a text. -/
def readsAsOther (t : Text) : Bool :=
  PlainScalar.isNull t || (PlainScalar.bool? t).isSome || (PlainScalar.wideInt? t).isSome ||
    PlainScalar.isPadded t || (PlainScalar.float? t).isSome

/-- Keys of one line are written in front of their colon. -/
def isSimpleKey (t : Text) : Bool := !t.any isBreak && t.octets ≤ 128

def padding (n : Nat) : Text := List.replicate n ' '

def hexText (width n : Nat) : Text :=
  let ds := Text.upper (Nat.toDigits 16 n)
  List.replicate (width - ds.length) '0' ++ ds

def escape (c : Char) : Text :=
  match c with
  | '\x00' => "0"
  | '\x07' => "a"
  | '\x08' => "b"
  | '\t' => "t"
  | '\n' => "n"
  | '\x0b' => "v"
  | '\x0c' => "f"
  | '\r' => "r"
  | '\x1b' => "e"
  | '\x22' => "\x22"
  | '\\' => "\\"
  | '\u0085' => "N"
  | '\u2028' => "L"
  | '\u2029' => "P"
  | c =>
    let n := c.toNat
    if n ≤ 0xFF then 'x' :: hexText 2 n
    else if n ≤ 0xFFFF then 'u' :: hexText 4 n
    else 'U' :: hexText 8 n

def double (t : Text) : Text :=
  let char (c : Char) : Text :=
    if !isPrintable c || isBreak c || c == '\x22' || c == '\\' then '\\' :: escape c else [c]
  '\x22' :: t.flatMap char ++ "\x22"

/-- Lines after the first begin with blanks; `broken` says that the last character was a break. -/
def indented (n : Nat) (char : Char → Text) (broken : Bool) : Text → Text
  | [] => []
  | c :: t =>
    if isBreak c then c :: indented n char true t
    else (if broken then padding n else []) ++ char c ++ indented n char false t

def single (n : Nat) (t : Text) : Text :=
  let char (c : Char) : Text := if c = '\x27' then "''" else [c]
  let ending := if t.getLast?.any isBreak then padding n else []
  '\x27' :: indented n char false t ++ ending ++ "'"

/-- The mark of a block: its indentation if the text does not show it, and what becomes of
the line breaks at its end. -/
def blockMark (t : Text) : Text :=
  let hint : Text := if t.head?.any isEdge then "2" else ""
  let chomping : Text := match t.reverse with
    | [] => "-"
    | [c] => if isBreak c then "+" else "-"
    | c :: d :: _ => if !isBreak c then "-" else if isBreak d then "+" else ""
  "|" ++ hint ++ chomping

def block (n : Nat) (t : Text) : Text := blockMark t ++ "\n" ++ indented n (fun c => [c]) true t

/-- A text as a scalar whose further lines begin with `n` blanks. -/
def ofText (n : Nat) (t : Text) : Text :=
  if t.contains '\n' then if allowsBlock t then block n t else double t
  else if !readsAsOther t && allowsPlain t then t
  else if allowsSingle t then single n t
  else double t

end Spelling

end StaticSite.Yaml
