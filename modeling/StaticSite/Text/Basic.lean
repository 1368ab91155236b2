/-! Texts are lists of characters, so that every rule about them is a rule
about lists. A string literal may stand wherever a text is expected. -/

namespace StaticSite

abbrev Text := List Char

instance : Coe String Text := ⟨String.toList⟩

instance : LawfulBEq Text := inferInstance

namespace Text

/-- The fields between separators; there is always one more than there are separators. -/
def splitOn (sep : Char) : Text → List Text
  | [] => [[]]
  | c :: t =>
    if c = sep then [] :: splitOn sep t
    else match splitOn sep t with
      | [] => [[c]]
      | field :: fields => (c :: field) :: fields

def joinWith (sep : Char) : List Text → Text
  | [] => []
  | [field] => field
  | field :: fields => field ++ sep :: joinWith sep fields

def splitLast? (sep : Char) : Text → Option (Text × Text)
  | [] => none
  | c :: t => match splitLast? sep t with
    | some (before, after) => some (c :: before, after)
    | none => if c = sep then some ([], t) else none

def splitFirst? (sep : Char) : Text → Option (Text × Text)
  | [] => none
  | c :: t =>
    if c = sep then some ([], t)
    else (splitFirst? sep t).map fun (before, after) => (c :: before, after)

def endsWith (t tail : Text) : Bool := tail.isSuffixOf t

def startsWith (t head : Text) : Bool := head.isPrefixOf t

def stripStart? : Text → Text → Option Text
  | t, [] => some t
  | [], _ :: _ => none
  | c :: t, d :: head => if c = d then stripStart? t head else none

def dropStart (p : Char → Bool) (t : Text) : Text := t.dropWhile p

def dropEnd (p : Char → Bool) (t : Text) : Text := (t.reverse.dropWhile p).reverse

def dropEnds (p : Char → Bool) (t : Text) : Text := dropEnd p (dropStart p t)

def isSlash (c : Char) : Bool := c == '/'

@[simp] theorem isSlash_iff {c : Char} : isSlash c = true ↔ c = '/' := by simp [isSlash]

/-- The two characters that end lines of documents. -/
def isLineEnd (c : Char) : Bool := c == '\n' || c == '\r'

@[simp] theorem isLineEnd_iff {c : Char} : isLineEnd c = true ↔ c = '\r' ∨ c = '\n' := by
  simp [isLineEnd, or_comm]

def isSpaceOrTab (c : Char) : Bool := c == ' ' || c == '\t'

@[simp] theorem isSpaceOrTab_iff {c : Char} : isSpaceOrTab c = true ↔ c = ' ' ∨ c = '\t' := by
  simp [isSpaceOrTab]

/-- ASCII letters are written small, all other characters are kept. -/
def lower (t : Text) : Text := t.map Char.toLower

/-- ASCII letters are written large, all other characters are kept. -/
def upper (t : Text) : Text := t.map Char.toUpper

/-- Characters of the UTF-8 form, counted in octets. -/
def octets (t : Text) : Nat := t.foldl (fun n c => n + c.utf8Size) 0

@[simp] theorem splitOn_nil (sep : Char) : splitOn sep [] = [[]] := rfl

@[simp] theorem joinWith_nil (sep : Char) : joinWith sep [] = [] := rfl

@[simp] theorem joinWith_singleton (sep : Char) (f : Text) : joinWith sep [f] = f := rfl

@[simp] theorem joinWith_cons_cons (sep : Char) (f g : Text) (fields : List Text) :
    joinWith sep (f :: g :: fields) = f ++ sep :: joinWith sep (g :: fields) := rfl

@[simp] theorem splitOn_ne_nil (sep : Char) (t : Text) : splitOn sep t ≠ [] := by
  cases t with
  | nil => simp
  | cons c t =>
    rw [splitOn]
    split
    · simp
    · split <;> simp

@[simp] theorem joinWith_splitOn (sep : Char) (t : Text) : joinWith sep (splitOn sep t) = t := by
  induction t with
  | nil => rfl
  | cons c t ih =>
    rw [splitOn]
    split
    · rename_i h
      cases hs : splitOn sep t with
      | nil => simp at hs
      | cons field fields => rw [joinWith_cons_cons, ← hs, ih, h, List.nil_append]
    · cases hs : splitOn sep t with
      | nil => simp at hs
      | cons field fields =>
        rw [hs] at ih
        cases fields with
        | nil => simpa using ih
        | cons g fields => simpa using ih

end Text

end StaticSite
