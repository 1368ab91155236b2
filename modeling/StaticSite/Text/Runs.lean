import StaticSite.Text.Basic

/-! Sets of characters as runs: how many code points in turn are outside and
inside the set, from the first on. -/

namespace StaticSite.Text

def inRuns (inside : Bool) : List Nat → Nat → Bool
  | [], _ => false
  | run :: runs, n => if n < run then inside else inRuns (!inside) runs (n - run)

end StaticSite.Text
