import StaticSite.Text.Blank

/-! Link attributes in markup. A markup text is read as pieces, single
characters and attributes `href` or `src` with their values; writing the
pieces gives the text back. -/

namespace StaticSite.Markup

inductive Quoting where
  | double
  | single
  | bare
  deriving DecidableEq

/-- A link attribute: the text up to its value, and the value. -/
structure Attribute where
  lead : Text
  quoting : Quoting
  value : Text
  deriving DecidableEq

namespace Quoting

def mark : Quoting → Text
  | double => ['\x22']
  | single => ['\x27']
  | bare => []

end Quoting

def Attribute.render (a : Attribute) : Text :=
  a.lead ++ a.quoting.mark ++ a.value ++ a.quoting.mark

/-- Characters of a value that is written without quotes. -/
def isBareChar (c : Char) : Bool :=
  !(Text.isBlank c || ['\x22', '\x27', '=', '<', '>', '\x60'].contains c)

/-- Letters of attribute names are compared without case; the long s counts as an s. -/
def sameLetter (letter c : Char) : Bool := c.toLower == letter || (letter == 's' && c == 'ſ')

/-- A name at the start of a text, in any case, and the rest. -/
def takeName? : Text → Text → Option (Text × Text)
  | [], rest => some ([], rest)
  | _ :: _, [] => none
  | letter :: name, c :: rest =>
    if sameLetter letter c then (takeName? name rest).map fun (taken, rest) => (c :: taken, rest)
    else none

def takeLinkName? (t : Text) : Option (Text × Text) :=
  (takeName? "href" t).or (takeName? "src" t)

/-- The value at the start of a text, and the rest after it. -/
def takeValue? : Text → Option (Quoting × Text × Text)
  | '\x22' :: rest => match rest.dropWhile (· ≠ '\x22') with
    | _ :: after => some (.double, rest.takeWhile (· ≠ '\x22'), after)
    | [] => none
  | '\x27' :: rest => match rest.dropWhile (· ≠ '\x27') with
    | _ :: after => some (.single, rest.takeWhile (· ≠ '\x27'), after)
    | [] => none
  | rest =>
    let value := rest.takeWhile isBareChar
    if value = [] then none else some (.bare, value, rest.dropWhile isBareChar)

/-- The sign between a name and its value with the blanks around it, and the rest. -/
def takeEquals? (t : Text) : Option (Text × Text) :=
  match t.dropWhile Text.isBlank with
  | '=' :: rest =>
    some (t.takeWhile Text.isBlank ++ '=' :: rest.takeWhile Text.isBlank,
      rest.dropWhile Text.isBlank)
  | _ => none

/-- The attribute at the start of a text: a blank, a link name, `=` between blanks, a value. -/
def takeAttribute? : Text → Option (Attribute × Text)
  | [] => none
  | blank :: t =>
    if Text.isBlank blank then do
      let (name, t) ← takeLinkName? t
      let (equals, t) ← takeEquals? t
      let (quoting, value, rest) ← takeValue? t
      some (⟨blank :: name ++ equals, quoting, value⟩, rest)
    else none

end StaticSite.Markup
