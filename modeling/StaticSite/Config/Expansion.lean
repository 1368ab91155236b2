import StaticSite.Config.Environment
import StaticSite.Text.Alphanumeric

/-! Document names with variables of the environment in them, and with a tilde
for the home directory at their start. -/

namespace StaticSite

namespace Expansion

def isNameChar (c : Char) : Bool := Text.isAlphanumeric c || c == '_'

def splitDefault? : Text → Option (Text × Text)
  | [] => none
  | ':' :: '-' :: t => some ([], t)
  | c :: t => (splitDefault? t).map fun (name, d) => (c :: name, d)

/-- The value of what stands between braces. A default needs a name before it. An unset
variable without default is the error. -/
def braced (env : Environment) (inner : Text) : Except Text Text :=
  let (name, default) := match splitDefault? inner with
    | some (c :: name, d) => (c :: name, some d)
    | _ => (inner, none)
  match env name, default with
  | some v, _ => .ok v
  | none, some d => .ok d
  | none, none => .error name

theorem splitFirst?_length {sep : Char} {t before after : Text}
    (h : Text.splitFirst? sep t = some (before, after)) : after.length < t.length := by
  induction t generalizing before with
  | nil => cases h
  | cons c t ih =>
    rw [Text.splitFirst?] at h
    split at h
    · cases h
      simp
    · obtain ⟨⟨before', after'⟩, h', heq⟩ := Option.map_eq_some_iff.mp h
      cases heq
      exact Nat.lt_succ_of_lt (ih h')

/-- A text with its variables replaced. A doubled dollar sign stands for one. -/
def filled (env : Environment) : Text → Except Text Text
  | [] => .ok []
  | '$' :: '$' :: t => (filled env t).map ('$' :: ·)
  | '$' :: '\x7b' :: t => match _h : Text.splitFirst? '\x7d' t with
    | some (inner, rest) => do
      let v ← braced env inner
      return v ++ (← filled env rest)
    | none => (filled env t).map ("$\x7b" ++ ·)
  | '$' :: c :: t =>
    if isNameChar c then
      let name := c :: t.takeWhile isNameChar
      match env name with
      | some v => (filled env (t.dropWhile isNameChar)).map (v ++ ·)
      | none => .error name
    else (filled env (c :: t)).map ('$' :: ·)
  | c :: t => (filled env t).map (c :: ·)
termination_by t => t.length
decreasing_by
  · simp only [List.length_cons]
    omega
  · have := splitFirst?_length _h
    simp only [List.length_cons]
    omega
  · simp only [List.length_cons]
    omega
  · have := (List.dropWhile_suffix isNameChar (l := t)).length_le
    simp only [List.length_cons]
    omega
  · simp only [List.length_cons]
    omega
  · simp only [List.length_cons]
    omega

/-- A tilde that stands alone or before a separator is the home directory. -/
def home (env : Environment) (t : Text) : Text :=
  match t, env "HOME" with
  | '~' :: rest, some (c :: dir) =>
    if rest = [] ∨ Text.startsWith rest "/" then c :: dir ++ rest else t
  | _, _ => t

/-- A name as it is meant. A tilde that comes from a variable at the start is kept. -/
def name (env : Environment) (t : Text) : Except Text Text := do
  let expanded ← filled env t
  return if t.contains '$' ∧ !t.startsWith "~" then expanded else home env expanded

end Expansion

end StaticSite
