import Mathlib.Data.List.Induction
import Mathlib.Order.Bounds.Basic
import StaticSite.Proofs.SitePath.Relative

/-! Relative spellings are shortest. One step of a walk brings a place at most
one step nearer to a target, so no walk has fewer steps than the way between. -/

namespace StaticSite.SitePath

theorem common_concat (base target : List Text) (s : Text) :
    common base target ≤ common (base ++ [s]) target ∧
      common (base ++ [s]) target ≤ common base target + 1 := by
  induction base generalizing target with
  | nil =>
    cases target with
    | nil => simp
    | cons b target => by_cases h : s = b <;> simp [h]
  | cons a base ih =>
    cases target with
    | nil => simp
    | cons b target =>
      by_cases h : a = b
      · have hh := ih target
        simpa [h] using hh
      · simp [h]

theorem length_between (base target : List Text) :
    (between base target).length =
      (base.length - common base target) + (target.length - common base target) := by
  rw [between, List.length_append, List.length_replicate, List.length_drop]

/-- Ways from two places of which one lies right above the other differ by at most one step. -/
theorem length_between_concat (base target : List Text) (s : Text) :
    (between base target).length ≤ (between (base ++ [s]) target).length + 1 ∧
      (between (base ++ [s]) target).length ≤ (between base target).length + 1 := by
  have hc := common_concat base target s
  have hlen : (base ++ [s]).length = base.length + 1 := by simp
  rw [length_between, length_between, hlen]
  omega

/-- Segments that lead away from a place. -/
def moves (segments : List Text) : Nat := segments.countP fun s => s ≠ [] ∧ s ≠ "."

theorem moves_cons_of_stay {s : Text} (h : s = [] ∨ s = ".") (segments : List Text) :
    moves (s :: segments) = moves segments := by
  rw [moves, List.countP_cons_of_neg]
  · rfl
  · simpa [imp_iff_not_or] using h

theorem moves_cons {s : Text} (h : ¬ (s = [] ∨ s = ".")) (segments : List Text) :
    moves (s :: segments) = moves segments + 1 := by
  rw [moves, List.countP_cons_of_pos]
  · rfl
  · simpa using h

theorem length_between_step (place target : List Text) (s : Text) :
    (between place target).length ≤ (between (step place s) target).length + 1 := by
  by_cases hstay : s = [] ∨ s = "."
  · rw [step, if_pos hstay]
    omega
  · by_cases hup : s = ".."
    · rw [hup, step_up]
      cases place using List.reverseRecOn with
      | nil => simp
      | append_singleton place name =>
        have hh := (length_between_concat place target name).2
        simpa using hh
    · have hh := (length_between_concat place target s).1
      simpa only [step, if_neg hstay, if_neg hup] using hh

/-- A walk brings its place nearer to a target by no more than its moves. -/
theorem length_between_walk (place target segments : List Text) :
    (between place target).length ≤ (between (walk place segments) target).length +
      moves segments := by
  induction segments generalizing place with
  | nil => simp [moves]
  | cons s segments ih =>
    have hrest := ih (step place s)
    rw [walk_cons]
    by_cases hstay : s = [] ∨ s = "."
    · rw [step, if_pos hstay] at hrest ⊢
      rwa [moves_cons_of_stay hstay]
    · have hstep := length_between_step place target s
      rw [moves_cons hstay]
      omega

theorem length_between_le_moves {place target segments : List Text}
    (h : walk place segments = target) : (between place target).length ≤ moves segments := by
  have hwalk := length_between_walk place target segments
  have harrived := between_append target []
  rw [List.append_nil] at harrived
  rwa [h, harrived, List.length_nil, Nat.zero_add] at hwalk

theorem moves_between (base : List Text) {target : List Text} (h : IsPlace target) :
    moves (between base target) = (between base target).length := by
  rw [moves, List.countP_eq_length]
  intro s hs
  rcases List.mem_append.mp hs with hup | hname
  · simp [List.eq_of_mem_replicate hup]
  · have hs := h s (List.mem_of_mem_drop hname)
    exact decide_eq_true ⟨hs.ne_nil, hs.ne_dot⟩

theorem moves_relative (target page : Text) :
    moves (Text.splitOn '/' (relative target page)) =
      (between (resolve (directory page)) (resolve target)).length := by
  have hbetween := moves_between (resolve (directory page)) (resolve_isPlace target)
  have hend : moves (if target.endsWith "/" then [[]] else []) = 0 := by
    split <;> simp [moves]
  have hwritten : moves (written (resolve (directory page)) (resolve target)) =
      moves (between (resolve (directory page)) (resolve target)) := by
    by_cases h : between (resolve (directory page)) (resolve target) = []
    · simp [written, h, moves]
    · rw [written, if_neg h]
  rw [splitOn_relative, moves, List.countP_append]
  change moves _ + moves _ = _
  rw [hend, hwritten, hbetween, Nat.add_zero]

/-- Of all paths that lead from the page's directory to the target, the relative
spelling has the fewest moves. -/
theorem moves_relative_isLeast (target page : Text) :
    IsLeast {n | ∃ path : Text,
        walk [] (resolve (directory page) ++ Text.splitOn '/' path) = resolve target ∧
          moves (Text.splitOn '/' path) = n}
      (moves (Text.splitOn '/' (relative target page))) := by
  have hbase := walk_names (resolve_isPlace (directory page)) []
  rw [List.nil_append] at hbase
  constructor
  · refine ⟨relative target page, ?_, rfl⟩
    have hplace := Position.place_walk ⟨0, resolve (directory page)⟩
      (Text.splitOn '/' (relative target page))
    rw [walk_directory_relative] at hplace
    rw [walk_append, hbase]
    exact hplace.symm
  · rintro n ⟨path, hpath, rfl⟩
    rw [walk_append, hbase] at hpath
    rw [moves_relative]
    exact length_between_le_moves hpath

end StaticSite.SitePath
