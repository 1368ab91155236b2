import StaticSite.Yaml.Cursor

/-! Reading of scalars in each of their styles. Line breaks between words are
folded: one break is a space, further breaks are kept. -/

namespace StaticSite.Yaml

inductive Style where
  | plain
  | quoted
  | block
  deriving DecidableEq

/-- What stands between two words of a scalar, so far. Characters are in reverse order. -/
inductive Gap where
  | none
  | blanks (run : Text)
  | breaks (first : Option Char) (more : Text)
  deriving DecidableEq

namespace Gap

def addBlank (c : Char) : Gap → Gap
  | none => blanks [c]
  | blanks run => blanks (c :: run)
  | breaks first more => breaks first more

def addBreak (c : Char) : Gap → Gap
  | none => breaks (some (breakChar c)) []
  | blanks _ => breaks (some (breakChar c)) []
  | breaks first more => breaks first (breakChar c :: more)

/-- The gap as it is read, in reverse order. -/
def folded : Gap → Text
  | none => []
  | blanks run => run
  | breaks (some '\n') [] => [' ']
  | breaks (some '\n') more => more
  | breaks first more => more ++ first.toList

def isBroken : Gap → Bool
  | breaks .. => true
  | _ => false

end Gap

def simpleEscape : Char → Option Char
  | '0' => some '\x00'
  | 'a' => some '\x07'
  | 'b' => some '\x08'
  | 't' => some '\t'
  | '\t' => some '\t'
  | 'n' => some '\n'
  | 'v' => some '\x0b'
  | 'f' => some '\x0c'
  | 'r' => some '\r'
  | 'e' => some '\x1b'
  | ' ' => some ' '
  | '\x22' => some '\x22'
  | '/' => some '/'
  | '\\' => some '\\'
  | 'N' => some '\u0085'
  | '_' => some '\u00a0'
  | 'L' => some '\u2028'
  | 'P' => some '\u2029'
  | _ => none

/-- How many hexadecimal digits follow an escape of a code point. -/
def codeLength : Char → Option Nat
  | 'x' => some 2
  | 'u' => some 4
  | 'U' => some 8
  | _ => none

def hexDigit? (c : Char) : Option Nat :=
  if c.isDigit then some (c.toNat - 48)
  else if 'a' ≤ c ∧ c ≤ 'f' then some (c.toNat - 87)
  else if 'A' ≤ c ∧ c ≤ 'F' then some (c.toNat - 55)
  else none

def hexNumber? (digits : Text) : Option Nat :=
  digits.foldlM (fun n c => (hexDigit? c).map (16 * n + ·)) 0

def codePoint? (digits : Text) : Option Char := do
  let n ← hexNumber? digits
  if h : n.isValidChar then some (Char.ofNatAux n h) else none

/-- The rest of a quoted scalar after its opening mark. -/
def takeQuoted? (single : Bool) (c : Cursor) (gap : Gap) (read : Text) : Option (Text × Cursor) :=
  match _h : c.rest with
  | [] => none
  | x :: t =>
    if Text.isSpaceOrTab x then takeQuoted? single (c.skip 1) (gap.addBlank x) read
    else if _hx : isBreak x then takeQuoted? single c.skipBreak (gap.addBreak x) read
    else if c.column = 0 ∧ atDocumentMark c.rest then none
    else
      let read := gap.folded ++ read
      if x = (if single then '\x27' else '\x22') then
        if single ∧ t.head? = some '\x27' then
          takeQuoted? single (c.skip 2) .none ('\x27' :: read)
        else some (read.reverse, c.skip 1)
      else if single ∨ x ≠ '\\' then takeQuoted? single (c.skip 1) .none (x :: read)
      else match t with
        | [] => none
        | y :: digits =>
          if isBreak y then
            let c' := (c.skip 1).skipBreak
            if _hc : c'.rest.length < c.rest.length then
              takeQuoted? single c' (.breaks none []) read
            else none
          else match simpleEscape y, codeLength y with
            | some z, _ => takeQuoted? single (c.skip 2) .none (z :: read)
            | none, some n =>
              if digits.length < n then none
              else match codePoint? (digits.take n) with
                | some z => takeQuoted? single (c.skip (n + 2)) .none (z :: read)
                | none => none
            | none, none => none
termination_by c.rest.length
decreasing_by
  all_goals first
    | exact _hc
    | exact Cursor.skipBreak_lt _h _hx
    | exact Cursor.skip_lt _h _

/-- Characters that end a plain scalar inside brackets. -/
def isFlowIndicator (c : Char) : Bool := [',', '[', ']', '\x7b', '\x7d'].contains c

/-- The rest of a plain scalar, whether it ended after a line break, and the place after it. -/
def takePlain? (inFlow : Bool) (indent : Int) (c : Cursor) (gap : Gap) (read : Text) :
    Option (Text × Bool × Cursor) :=
  let done := some (read.reverse, gap.isBroken, c)
  match _h : c.rest with
  | [] => done
  | x :: t =>
    if Text.isSpaceOrTab x then
      if gap.isBroken ∧ c.column < indent ∧ x = '\t' then none
      else takePlain? inFlow indent (c.skip 1) (gap.addBlank x) read
    else if _hx : isBreak x then takePlain? inFlow indent c.skipBreak (gap.addBreak x) read
    else
      let ends := (gap ≠ .none ∧ !inFlow ∧ c.column < indent) ∨
        (gap ≠ .none ∧ c.column = 0 ∧ atDocumentMark c.rest) ∨ (gap ≠ .none ∧ x = '#')
      if ends then done
      else if inFlow ∧ x = ':' ∧ (t.head?.any fun y => isFlowIndicator y || y == '?') then none
      else if (x = ':' ∧ atBlank t) ∨ (inFlow ∧ isFlowIndicator x) then done
      else takePlain? inFlow indent (c.skip 1) .none (x :: gap.folded ++ read)
termination_by c.rest.length
decreasing_by
  all_goals first
    | exact Cursor.skipBreak_lt _h _hx
    | exact Cursor.skip_lt _h _

/-- What happens to the line breaks at the end of a block scalar. -/
inductive Chomping where
  | clip
  | strip
  | keep
  deriving DecidableEq

def chomping? : Char → Option Chomping
  | '+' => some .keep
  | '-' => some .strip
  | _ => none

/-- Chomping and indentation after the mark of a block scalar, in either order. -/
def takeHeader? (c : Cursor) : Option (Chomping × Nat × Cursor) :=
  let digit? (c : Cursor) : Option (Nat × Cursor) := match c.rest with
    | d :: _ => if d = '0' then none else if d.isDigit then some (d.toNat - 48, c.skip 1)
      else some (0, c)
    | [] => some (0, c)
  match c.rest.head?.bind chomping? with
  | some chomping => (digit? (c.skip 1)).map fun (n, c) => (chomping, n, c)
  | none => do
    let (n, c) ← digit? c
    if n = 0 then some (.clip, 0, c)
    else match c.rest.head?.bind chomping? with
      | some chomping => some (chomping, n, c.skip 1)
      | none => some (.clip, n, c)

/-- Empty lines and indentation; `indent` is zero while it is not known. Gives the line
breaks in reverse order and the deepest column. -/
def takeEmptyLines? (indent : Nat) (c : Cursor) (deepest : Nat) (breaks : Text) :
    Option (Text × Nat × Cursor) :=
  match _h : c.rest with
  | [] => some (breaks, max deepest c.column, c)
  | x :: _ =>
    let inside := indent = 0 ∨ c.column < indent
    if inside ∧ x = ' ' then takeEmptyLines? indent (c.skip 1) deepest breaks
    else if inside ∧ x = '\t' then none
    else if _hx : isBreak x then
      takeEmptyLines? indent c.skipBreak (max deepest c.column) (breakChar x :: breaks)
    else some (breaks, max deepest c.column, c)
termination_by c.rest.length
decreasing_by
  all_goals first
    | exact Cursor.skipBreak_lt _h _hx
    | exact Cursor.skip_lt _h _

/-- The lines of a block scalar. `lead` is the break before the line, `empty` the empty
lines after it in reverse order. -/
def takeLines? (literal : Bool) (indent : Nat) (c : Cursor) (lead : Option Char) (empty : Text)
    (wasBlank : Bool) (read : Text) : Option (Text × Option Char × Text × Cursor) :=
  match c.rest with
  | [] => some (read, lead, empty, c)
  | x :: _ =>
    if c.column ≠ indent then some (read, lead, empty, c)
    else
      let blank := Text.isSpaceOrTab x
      let read := empty ++
        if !literal ∧ lead = some '\n' ∧ !wasBlank ∧ !blank then
          if empty = [] then ' ' :: read else read
        else lead.toList ++ read
      let (words, c') := c.takeWhile (!isBreak ·)
      match takeEmptyLines? indent c'.skipBreak 0 [] with
      | none => none
      | some (empty, _, c'') =>
        if _h : c''.rest.length < c.rest.length then
          takeLines? literal indent c'' (c'.rest.head?.map breakChar) empty blank
            (words.reverse ++ read)
        else none
termination_by c.rest.length

/-- A block scalar after its mark; `parent` is the indentation around it. -/
def takeBlock? (literal : Bool) (parent : Int) (c : Cursor) : Option (Text × Cursor) := do
  let (chomping, increment, c) ← takeHeader? c
  let c ← c.endLine?
  let given : Nat := if increment = 0 then 0 else (max parent 0).toNat + increment
  let (empty, deepest, c) ← takeEmptyLines? given c 0 []
  let indent := if given = 0 then max deepest (max (parent + 1).toNat 1) else given
  let (read, lead, empty, c) ← takeLines? literal indent c none empty false []
  let ending : Text := match chomping with
    | .strip => []
    | .clip => lead.toList
    | .keep => empty ++ lead.toList
  some ((ending ++ read).reverse, c)

end StaticSite.Yaml
