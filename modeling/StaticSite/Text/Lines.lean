import StaticSite.Text.Basic

/-! Texts by lines. Each line keeps the line feed that ends it. -/

namespace StaticSite.Text

def lines : Text → List Text
  | [] => []
  | c :: t =>
    if c = '\n' then [c] :: lines t
    else match lines t with
      | [] => [[c]]
      | line :: rest => (c :: line) :: rest

@[simp] theorem lines_nil : lines [] = [] := rfl

@[simp] theorem lines_cons_feed (t : Text) : lines ('\n' :: t) = ['\n'] :: lines t := rfl

@[simp] theorem flatten_lines (t : Text) : (lines t).flatten = t := by
  induction t with
  | nil => rfl
  | cons c t ih =>
    rw [lines]
    split
    · simp [ih]
    · cases h : lines t with
      | nil => simp [h] at ih; simp [← ih]
      | cons line rest => simpa [h] using ih

/-- The rest of a text after a line feed, with or without a carriage return before it. -/
def afterLineEnd? : Text → Option Text
  | '\n' :: t => some t
  | '\r' :: '\n' :: t => some t
  | _ => none

end StaticSite.Text
