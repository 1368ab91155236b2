import StaticSite.Text.Basic

/-! A position in a YAML text, with the line and column that indentation is
read from. Characters are counted, not octets. -/

namespace StaticSite.Yaml

structure Cursor where
  rest : Text
  index : Nat := 0
  line : Nat := 0
  column : Nat := 0

/-- Carriage return, line feed, next line, line and paragraph separator. -/
def isBreak (c : Char) : Bool :=
  c == '\n' || c == '\r' || c == '\u0085' || c == '\u2028' || c == '\u2029'

/-- The character that a line break stands for in a scalar. -/
def breakChar (c : Char) : Char := if c = '\r' ∨ c = '\u0085' then '\n' else c

/-- A text is at a break also where it ends. -/
def atBreak : Text → Bool
  | [] => true
  | c :: _ => isBreak c

def atBlank : Text → Bool
  | [] => true
  | c :: _ => Text.isSpaceOrTab c || isBreak c

/-- Three dashes or dots that stand alone at the start of a line. -/
def atDocumentMark (t : Text) : Bool :=
  (t.startsWith "---" || t.startsWith "...") && atBlank (t.drop 3)

/-- Letters, digits, dash and underscore in ASCII. -/
def isWordChar (c : Char) : Bool := c.isAlphanum || c == '-' || c == '_'

namespace Cursor

def skip (c : Cursor) (n : Nat) : Cursor :=
  { c with rest := c.rest.drop n, index := c.index + n, column := c.column + n }

/-- Past one line break, if there is one; both characters of a pair count. -/
def skipBreak (c : Cursor) : Cursor :=
  match c.rest with
  | '\r' :: '\n' :: t => ⟨t, c.index + 2, c.line + 1, 0⟩
  | b :: t => if isBreak b then ⟨t, c.index + 1, c.line + 1, 0⟩ else c
  | [] => c

/-- The characters of one line for which `p` holds, and the place after them. -/
def takeWhile (p : Char → Bool) (c : Cursor) : Text × Cursor :=
  let taken := c.rest.takeWhile p
  (taken, c.skip taken.length)

def skipBlanks (c : Cursor) : Cursor := (c.takeWhile Text.isSpaceOrTab).2

def skipLine (c : Cursor) : Cursor := (c.takeWhile (!isBreak ·)).2

/-- Blanks and a comment up to the end of the line, which is left too. -/
def endLine? (c : Cursor) : Option Cursor :=
  let c := c.skipBlanks
  let c := if c.rest.head? = some '#' then c.skipLine else c
  if atBreak c.rest then some c.skipBreak else none

theorem skip_lt {c : Cursor} {x : Char} {t : Text} (h : c.rest = x :: t) (n : Nat) :
    (c.skip (n + 1)).rest.length < c.rest.length := by
  simp only [skip, h, List.drop_succ_cons, List.length_drop, List.length_cons]
  omega

theorem skipBreak_lt {c : Cursor} {x : Char} {t : Text} (h : c.rest = x :: t)
    (hx : isBreak x = true) : c.skipBreak.rest.length < c.rest.length := by
  rw [skipBreak]
  split
  · rename_i heq
    simp only [heq, List.length_cons]
    omega
  · rename_i heq
    rw [h, List.cons.injEq] at heq
    simp [← heq.1, hx, h, heq.2]
  · rename_i heq
    simp [h] at heq

end Cursor

end StaticSite.Yaml
