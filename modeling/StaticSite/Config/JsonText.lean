import StaticSite.Config.Value

/-! Values written as JSON, with two blanks for each level. -/

namespace StaticSite

namespace Json

def hexDigits (n : Nat) : Text :=
  let ds := Nat.toDigits 16 n
  List.replicate (4 - ds.length) '0' ++ ds

def charText (c : Char) : Text :=
  match c with
  | '\x22' => "\\\x22"
  | '\\' => "\\\\"
  | '\x08' => "\\b"
  | '\x0c' => "\\f"
  | '\n' => "\\n"
  | '\r' => "\\r"
  | '\t' => "\\t"
  | c => if c.toNat < 0x20 then "\\u" ++ hexDigits c.toNat else [c]

def stringText (t : Text) : Text := '\x22' :: t.flatMap charText ++ "\x22"

def newLine (level : Nat) : Text := '\n' :: List.replicate (2 * level) ' '

/-- Parts with commas between them, each on a line of its own. -/
def lines (level : Nat) : List Text → Text
  | [] => []
  | [part] => newLine level ++ part
  | part :: parts => newLine level ++ part ++ "," ++ lines level parts

def bracketed (level : Nat) (opening closing : Text) (parts : List Text) : Text :=
  if parts = [] then opening ++ closing
  else opening ++ lines (level + 1) parts ++ newLine level ++ closing

end Json

namespace Value

mutual

def jsonAt (level : Nat) : Value → Text
  | null => "null"
  | bool b => if b then "true" else "false"
  | number n => n.jsonText
  | string t => Json.stringText t
  | sequence items => Json.bracketed level "[" "]" (jsonItems (level + 1) items)
  | mapping entries => Json.bracketed level "\x7b" "\x7d" (jsonEntries (level + 1) entries)

def jsonItems (level : Nat) : List Value → List Text
  | [] => []
  | v :: vs => jsonAt level v :: jsonItems level vs

def jsonEntries (level : Nat) : List (Text × Value) → List Text
  | [] => []
  | (k, v) :: es => (Json.stringText k ++ ": " ++ jsonAt level v) :: jsonEntries level es

end

def jsonText (v : Value) : Text := jsonAt 0 v

end Value

end StaticSite
