import StaticSite.Text.Utf8
import StaticSite.Yaml.Scalar

/-! Tokens of a YAML text. A key is recognised only at the colon behind it, so
the scanner remembers where a key may have begun and puts the key token there. -/

namespace StaticSite.Yaml

inductive Token where
  | version (major minor : Nat)
  | tagHandle (handle : Text) (start : Octets)
  | documentStart
  | documentEnd
  | blockSequence
  | blockMapping
  | blockEnd
  | flowSequence
  | flowSequenceEnd
  | flowMapping
  | flowMappingEnd
  | entry
  | comma
  | key
  | value
  | reference (name : Text)
  | anchor (name : Text)
  | tag (handle : Text) (suffix : Octets)
  | scalar (style : Style) (text : Text)
  deriving DecidableEq

namespace Token

/-- Where a key may have begun: before which token, and at which place of the text. -/
structure Candidate where
  number : Nat
  required : Bool
  index : Nat
  line : Nat
  column : Nat

/-- The scanner between two tokens. Tokens are in reverse order; `candidates` has one place
for each open bracket and one for the text around them. -/
structure Scanner where
  cursor : Cursor
  read : List Token
  count : Nat
  indent : Int
  indents : List Int
  candidates : List (Option Candidate)
  keyAllowed : Bool

namespace Scanner

def start (t : Text) : Scanner := ⟨{ rest := t }, [], 0, -1, [], [none], true⟩

def inFlow (s : Scanner) : Bool := s.candidates.length > 1

def push (s : Scanner) (t : Token) : Scanner := { s with read := t :: s.read, count := s.count + 1 }

/-- Puts a token before the token of a given number. -/
def insert (s : Scanner) (number : Nat) (t : Token) : Scanner :=
  let later := s.count - number
  { s with read := s.read.take later ++ t :: s.read.drop later, count := s.count + 1 }

def advance (s : Scanner) (n : Nat) : Scanner := { s with cursor := s.cursor.skip n }

def setKeyAllowed (s : Scanner) (b : Bool) : Scanner := { s with keyAllowed := b }

/-- Candidates on earlier lines or more than 1024 characters back are given up. -/
def dropExpired? (s : Scanner) : Option Scanner := do
  let candidates ← s.candidates.mapM fun
    | none => some none
    | some k =>
      if k.line < s.cursor.line ∨ k.index + 1024 < s.cursor.index then
        if k.required then none else some none
      else some (some k)
  some { s with candidates }

def dropCandidate? (s : Scanner) : Option Scanner :=
  match s.candidates with
  | some k :: rest => if k.required then none else some { s with candidates := none :: rest }
  | _ => some s

def noteCandidate? (s : Scanner) : Option Scanner :=
  if s.keyAllowed then do
    let s ← s.dropCandidate?
    let c := s.cursor
    let k : Candidate := ⟨s.count, !s.inFlow && s.indent == c.column, c.index, c.line, c.column⟩
    some { s with candidates := some k :: s.candidates.tail }
  else some s

/-- Opens a block collection at a column deeper than the current one. -/
def openBlock (s : Scanner) (column : Nat) (number : Nat) (t : Token) : Scanner :=
  if s.inFlow ∨ s.indent ≥ column then s
  else { s.insert number t with indent := column, indents := s.indent :: s.indents }

def closeBlocks (column : Int) : Scanner → List Int → Scanner
  | s, [] => s
  | s, outer :: indents =>
    if s.indent > column then closeBlocks column { s.push .blockEnd with indent := outer, indents } indents
    else s

/-- Closes the block collections deeper than a column. -/
def closeTo (s : Scanner) (column : Int) : Scanner :=
  if s.inFlow then s else closeBlocks column s s.indents

/-- Past blanks, comments and line breaks. Tabs are blanks only where no key can begin. -/
def skipSpace (s : Scanner) : Scanner :=
  let c := s.cursor
  let c := if c.column = 0 ∧ c.rest.head? = some '\ufeff' then c.skip 1 else c
  let tabs := s.inFlow || !s.keyAllowed
  let c := (c.takeWhile fun x => x == ' ' || (tabs && x == '\t')).2
  let c := if c.rest.head? = some '#' then c.skipLine else c
  match c.rest with
  | x :: _ =>
    if isBreak x then
      let s' := { s with cursor := c.skipBreak, keyAllowed := s.keyAllowed || !s.inFlow }
      if _h : s'.cursor.rest.length < s.cursor.rest.length then skipSpace s' else s'
    else { s with cursor := c }
  | [] => { s with cursor := c }
termination_by s.cursor.rest.length

end Scanner

def isUriChar (verbatim : Bool) (c : Char) : Bool :=
  isWordChar c || (";/?:@&=+$.%!~*'()" : Text).contains c || (verbatim && (",[]" : Text).contains c)

/-- How many octets a UTF-8 sequence has, by its first octet. -/
def sequenceLength? (octet : Nat) : Option Nat :=
  if octet < 0x80 then some 1
  else if octet < 0xC0 then none
  else if octet < 0xE0 then some 2
  else if octet < 0xF0 then some 3
  else if octet < 0xF8 then some 4
  else none

/-- The octets of a tag and how many characters spell them; `due` octets of a sequence are
still to come. -/
def takeUri? (verbatim : Bool) : Nat → Text → Option (Octets × Nat)
  | due, '%' :: a :: b :: t => do
    let octet ← hexNumber? [a, b]
    let due ← if due = 0 then (sequenceLength? octet).map (· - 1)
      else if 0x80 ≤ octet ∧ octet < 0xC0 then some (due - 1) else none
    let (octets, n) ← takeUri? verbatim due t
    some (octet.toUInt8 :: octets, n + 3)
  | _, '%' :: _ => none
  | 0, c :: t =>
    if isUriChar verbatim c then
      (takeUri? verbatim 0 t).map fun (octets, n) => (c.toNat.toUInt8 :: octets, n + 1)
    else some ([], 0)
  | 0, [] => some ([], 0)
  | _ + 1, _ => none

/-- The part of a tag that has to have a character; octets from the first zero on are lost. -/
def takeTagPart? (verbatim : Bool) (c : Cursor) : Option (Octets × Cursor) := do
  let (octets, n) ← takeUri? verbatim 0 c.rest
  if n = 0 then none else some (octets.takeWhile (· ≠ 0), c.skip n)

/-- An exclamation mark with a word behind it, and a second mark if there is one. -/
def takeHandle? (c : Cursor) : Option (Text × Cursor) :=
  if c.rest.head? = some '!' then
    let (word, c) := (c.skip 1).takeWhile isWordChar
    if c.rest.head? = some '!' then some ('!' :: word ++ "!", c.skip 1) else some ('!' :: word, c)
  else none

def ofAscii (t : Text) : Octets := t.map (·.toNat.toUInt8)

def takeTag? (inFlow : Bool) (c : Cursor) : Option (Token × Cursor) := do
  let (t, c) ← if c.rest.startsWith "!<" then do
      let (suffix, c) ← takeTagPart? true (c.skip 2)
      if c.rest.head? = some '>' then some (Token.tag [] suffix, c.skip 1) else none
    else do
      let (handle, c) ← takeHandle? c
      if handle.length > 1 ∧ handle.getLast? = some '!' then do
        let (suffix, c) ← takeTagPart? false c
        some (Token.tag handle suffix, c)
      else do
        let (octets, n) ← takeUri? false 0 c.rest
        let suffix := (ofAscii handle.tail ++ octets).takeWhile (· ≠ 0)
        some (if suffix = [] then Token.tag [] (ofAscii "!") else Token.tag "!" suffix, c.skip n)
  if atBlank c.rest ∨ (inFlow ∧ c.rest.head? = some ',') then some (t, c) else none

def takeNumber? (c : Cursor) : Option (Nat × Cursor) :=
  let (digits, c) := c.takeWhile Char.isDigit
  if digits.length = 0 ∨ digits.length > 9 then none
  else some (digits.foldl (fun n d => 10 * n + (d.toNat - 48)) 0, c)

def takeDirective? (c : Cursor) : Option (Token × Cursor) := do
  let (name, c) := (c.skip 1).takeWhile isWordChar
  if name = [] ∨ !atBlank c.rest then none
  let (t, c) ←
    if name = ("YAML" : Text) then do
      let (major, c) ← takeNumber? c.skipBlanks
      if c.rest.head? ≠ some '.' then none
      let (minor, c) ← takeNumber? (c.skip 1)
      some (Token.version major minor, c)
    else if name = ("TAG" : Text) then do
      let (handle, c) ← takeHandle? c.skipBlanks
      if handle.length > 1 ∧ handle.getLast? ≠ some '!' then none
      if (c.rest.head?.all fun x => !Text.isSpaceOrTab x) then none
      let (start, c) ← takeTagPart? true c.skipBlanks
      if atBlank c.rest then some (Token.tagHandle handle start, c) else none
    else none
  (c.endLine?).map fun c => (t, c)

/-- A name after `*` or `&`, which has to be followed by a blank or a mark. -/
def takeName? (c : Cursor) : Option (Text × Cursor) :=
  let (name, c) := (c.skip 1).takeWhile isWordChar
  let ends := atBlank c.rest || (c.rest.head?.any (("?:,]\x7d%@\x60" : Text).contains ·))
  if name ≠ [] ∧ ends then some (name, c) else none

def cannotStartPlain (c : Char) : Bool := ("-?:,[]\x7b\x7d#&*!|>'\x22%@\x60" : Text).contains c

namespace Scanner

def openFlow? (s : Scanner) (t : Token) : Option Scanner := do
  let s ← s.noteCandidate?
  some (({ s with candidates := none :: s.candidates, keyAllowed := true }.advance 1).push t)

def closeFlow? (s : Scanner) (t : Token) : Option Scanner := do
  let s ← s.dropCandidate?
  let candidates := if s.inFlow then s.candidates.tail else s.candidates
  some (({ s with candidates, keyAllowed := false }.advance 1).push t)

def readMark? (s : Scanner) (t : Token) : Option Scanner := do
  let s ← (s.closeTo (-1)).dropCandidate?
  some (((s.setKeyAllowed false).advance 3).push t)

/-- A dash or a question mark, which opens a block where it stands if need be. -/
def readEntry? (s : Scanner) (opening t : Token) (keyAllowed : Bool) : Option Scanner := do
  if !s.inFlow ∧ !s.keyAllowed then none
  let s ← (s.openBlock s.cursor.column s.count opening).dropCandidate?
  some (((s.setKeyAllowed keyAllowed).advance 1).push t)

/-- A colon makes a key of the candidate, or stands for itself. -/
def readValue? (s : Scanner) : Option Scanner :=
  match s.candidates with
  | some k :: rest =>
    let s := (s.insert k.number .key).openBlock k.column k.number .blockMapping
    some (({ s with candidates := none :: rest, keyAllowed := false }.advance 1).push .value)
  | _ =>
    if !s.inFlow ∧ !s.keyAllowed then none
    else
      let s := s.openBlock s.cursor.column s.count .blockMapping
      some (((s.setKeyAllowed (!s.inFlow)).advance 1).push .value)

/-- A token that may begin a key, read by `take`. -/
def readWith? (s : Scanner) (take : Cursor → Option (Token × Cursor)) : Option Scanner := do
  let s ← s.noteCandidate?
  let (t, c) ← take s.cursor
  some ({ s with cursor := c, keyAllowed := false }.push t)

def readBlock? (s : Scanner) (literal : Bool) : Option Scanner := do
  let s ← s.dropCandidate?
  let (t, c) ← takeBlock? literal s.indent (s.cursor.skip 1)
  some ({ s with cursor := c, keyAllowed := true }.push (.scalar .block t))

def readPlain? (s : Scanner) : Option Scanner := do
  let s ← s.noteCandidate?
  let (t, broken, c) ← takePlain? s.inFlow (s.indent + 1) s.cursor .none []
  some ({ s with cursor := c, keyAllowed := broken }.push (.scalar .plain t))

/-- The next token, which begins with the character `x` and has `t` behind it. -/
def readToken? (s : Scanner) (x : Char) (t : Text) : Option Scanner :=
  let c := s.cursor
  let lone := atBlank t
  if c.column = 0 ∧ x = '%' then do
    let s ← (s.closeTo (-1)).dropCandidate?
    let (t, c) ← takeDirective? c
    some ({ s with cursor := c, keyAllowed := false }.push t)
  else if c.column = 0 ∧ atDocumentMark c.rest then
    s.readMark? (if x = '-' then .documentStart else .documentEnd)
  else if x = '[' then s.openFlow? .flowSequence
  else if x = '\x7b' then s.openFlow? .flowMapping
  else if x = ']' then s.closeFlow? .flowSequenceEnd
  else if x = '\x7d' then s.closeFlow? .flowMappingEnd
  else if x = ',' then do
    let s ← s.dropCandidate?
    some (((s.setKeyAllowed true).advance 1).push .comma)
  else if x = '-' ∧ lone then s.readEntry? .blockSequence .entry true
  else if x = '?' ∧ (s.inFlow ∨ lone) then s.readEntry? .blockMapping .key (!s.inFlow)
  else if x = ':' ∧ (s.inFlow ∨ lone) then s.readValue?
  else if x = '*' then s.readWith? fun c => (takeName? c).map fun (n, c) => (.reference n, c)
  else if x = '&' then s.readWith? fun c => (takeName? c).map fun (n, c) => (.anchor n, c)
  else if x = '!' then s.readWith? (takeTag? s.inFlow)
  else if x = '|' ∧ !s.inFlow then s.readBlock? true
  else if x = '>' ∧ !s.inFlow then s.readBlock? false
  else if x = '\x27' ∨ x = '\x22' then
    s.readWith? fun c => (takeQuoted? (x = '\x27') (c.skip 1) .none []).map fun (t, c) =>
      (.scalar .quoted t, c)
  else if (!cannotStartPlain x ∧ !Text.isSpaceOrTab x) ∨
      (x = '-' ∧ !(t.head?.any Text.isSpaceOrTab)) ∨
      (!s.inFlow ∧ (x = '?' ∨ x = ':') ∧ !lone) then s.readPlain?
  else none

def finish? (s : Scanner) : Option (List Token) := do
  let c := s.cursor
  let s := { s with cursor := if c.column = 0 then c else { c with column := 0, line := c.line + 1 } }
  let s ← (s.closeTo (-1)).dropCandidate?
  some s.read.reverse

def run? (s : Scanner) : Option (List Token) :=
  match (s.skipSpace).dropExpired? with
  | none => none
  | some s' =>
    let s' := s'.closeTo s'.cursor.column
    match s'.cursor.rest with
    | [] => s'.finish?
    | x :: t => match s'.readToken? x t with
      | none => none
      | some s'' =>
        if _h : s''.cursor.rest.length < s.cursor.rest.length then s''.run? else none
termination_by s.cursor.rest.length

end Scanner

/-- Characters that a YAML text may hold as such. -/
def isAllowed (c : Char) : Bool :=
  let n := c.toNat
  n == 9 || n == 10 || n == 13 || (0x20 ≤ n && n ≤ 0x7E) || n == 0x85 ||
    (0xA0 ≤ n && n ≤ 0xD7FF) || (0xE000 ≤ n && n ≤ 0xFFFD) || 0x10000 ≤ n

/-- The tokens of a text; nothing if it cannot be read. A byte order mark may come first. -/
def ofText? (t : Text) : Option (List Token) :=
  let t := (Text.stripStart? t "\ufeff").getD t
  if t.all isAllowed then (Scanner.start t).run? else none

end Token

end StaticSite.Yaml
