import Mathlib.Data.List.DropRight
import StaticSite.Proofs.SitePath.Position

/-! Reduced paths. Names are taken back by the steps up behind them, and steps
up that find no name are kept, in front. What is left of a path leads from any
place where the whole path leads, so the levels above the root and the place
that are found from the root tell where it leads from everywhere else. -/

namespace StaticSite.SitePath

def reduceStep (kept : List Text) (segment : Text) : List Text :=
  if segment = [] ∨ segment = "." then kept
  else if segment = ".." then
    if kept = [] ∨ kept.getLast? = some (".." : Text) then kept ++ [(".." : Text)]
    else kept.dropLast
  else kept ++ [segment]

/-- The segments of a path that are left if nothing holds it back at the root. -/
def reduce (path : Text) : List Text := (Text.splitOn '/' path).foldl reduceStep []

/-- The climb counter after some segments: the depth, and the levels above the root, which
are the levels of a path after all its segments. -/
def climb (segments : List Text) : Nat × Nat := segments.foldl climbStep (0, 0)

theorem climb_eq (segments : List Text) :
    climb segments = ((Position.walk ⟨0, []⟩ segments).place.length,
      (Position.walk ⟨0, []⟩ segments).above) :=
  Position.foldl_climbStep ⟨0, []⟩ segments

theorem depth_climb (segments : List Text) : (climb segments).1 = (walk [] segments).length := by
  have hplace := Position.place_walk ⟨0, []⟩ segments
  rw [climb_eq, hplace]

/-- A step up at the root is counted, and every other one takes one name back. -/
theorem climb_up (segments : List Text) :
    walk [] segments = [] ∧
        climb (segments ++ [(".." : Text)]) = (0, (climb segments).2 + 1) ∨
      (climb (segments ++ [(".." : Text)])).1 + 1 = (climb segments).1 ∧
        (climb (segments ++ [(".." : Text)])).2 = (climb segments).2 := by
  have hplace : (Position.walk ⟨0, []⟩ segments).place = walk [] segments :=
    Position.place_walk ⟨0, []⟩ segments
  have hup : Position.walk ⟨0, []⟩ (segments ++ [(".." : Text)]) =
      (Position.walk ⟨0, []⟩ segments).step ".." := Position.walk_append _ segments _
  rw [climb_eq, climb_eq, hup, Position.step_up, hplace]
  by_cases hroot : walk [] segments = []
  · left
    simp [hroot]
  · right
    have hdepth : 0 < (walk [] segments).length := List.length_pos_iff.mpr hroot
    rw [List.length_dropLast]
    constructor
    · omega
    · have hcounted : 1 - (walk [] segments).length = 0 := by omega
      simp only [hcounted, Nat.add_zero]

namespace Position

theorem isPlace_root : IsPlace (⟨0, []⟩ : Position).place := by simp [IsPlace]

theorem isPlace_step {p : Position} (h : IsPlace p.place) {s : Text} (hs : '/' ∉ s) :
    IsPlace (p.step s).place := by
  rw [place_step]
  exact h.step hs

/-- The way from the root to a position. -/
def segments (p : Position) : List Text := List.replicate p.above (".." : Text) ++ p.place

@[simp] theorem segments_up (above : Nat) :
    segments ⟨above + 1, []⟩ = segments ⟨above, []⟩ ++ [(".." : Text)] := by
  simp [segments, List.replicate_succ']

@[simp] theorem segments_concat (above : Nat) (place : List Text) (name : Text) :
    segments ⟨above, place ++ [name]⟩ = segments ⟨above, place⟩ ++ [name] := by
  simp [segments]

theorem getLast?_segments_root (above : Nat) :
    segments ⟨above, []⟩ = [] ∨ (segments ⟨above, []⟩).getLast? = some (".." : Text) := by
  cases above with
  | zero => exact .inl rfl
  | succ above => exact .inr (by simp)

theorem reduceStep_segments {p : Position} (h : IsPlace p.place) (s : Text) :
    reduceStep p.segments s = (p.step s).segments := by
  obtain ⟨above, place⟩ := p
  by_cases hstay : s = [] ∨ s = "."
  · rw [step_stay _ hstay, reduceStep, if_pos hstay]
  · by_cases hup : s = ".."
    · rw [reduceStep, if_neg hstay, if_pos hup, hup, step_up]
      cases place using List.reverseRecOn with
      | nil =>
        rw [if_pos (getLast?_segments_root above)]
        exact (segments_up above).symm
      | append_singleton place name =>
        have hname : name ≠ (".." : Text) := (h name (by simp)).ne_up
        have hkeep : ¬ (segments ⟨above, place⟩ ++ [name] = [] ∨
            (segments ⟨above, place⟩ ++ [name]).getLast? = some (".." : Text)) := by
          rw [List.getLast?_concat, Option.some_inj]
          exact not_or_intro (by simp) hname
        rw [segments_concat, if_neg hkeep, List.dropLast_concat]
        simp
    · rw [reduceStep, if_neg hstay, if_neg hup, step, if_neg hstay, if_neg hup, segments_concat]

theorem foldl_reduceStep {p : Position} (h : IsPlace p.place) {path : List Text}
    (hpath : ∀ s ∈ path, '/' ∉ s) : path.foldl reduceStep p.segments = (p.walk path).segments := by
  induction path generalizing p with
  | nil => rfl
  | cons s path ih =>
    have hs := isPlace_step h (hpath s (by simp))
    rw [List.foldl_cons, reduceStep_segments h]
    exact ih hs fun x hx => hpath x (List.mem_cons_of_mem s hx)

theorem walk_segments (p : Position) {q : Position} (h : IsPlace q.place) :
    p.walk q.segments = ⟨p.above + (q.above - p.place.length),
      p.place.take (p.place.length - q.above) ++ q.place⟩ := by
  rw [segments, walk_append, walk_ups, walk_names _ h]

theorem step_name_up (p : Position) {name : Text} (h : IsName name) :
    (p.step name).step ".." = p := by
  rw [step_name p h, step_up]
  simp

theorem walk_segments_step (p : Position) {q : Position} (h : IsPlace q.place) (s : Text) :
    p.walk (q.step s).segments = (p.walk q.segments).step s := by
  obtain ⟨above, place⟩ := q
  have hconcat : ∀ (way : List Text) (name : Text),
      p.walk (way ++ [name]) = (p.walk way).step name := fun way name => p.walk_append way [name]
  by_cases hstay : s = [] ∨ s = "."
  · rw [step_stay _ hstay, step_stay _ hstay]
  · by_cases hup : s = ".."
    · rw [hup]
      cases place using List.reverseRecOn with
      | nil => rw [← hconcat, ← segments_up]; rfl
      | append_singleton place name =>
        -- the name and the step up behind it are both gone from the way
        rw [segments_concat, hconcat, step_name_up _ (h name (by simp)), step_up]
        simp
    · rw [← hconcat, ← segments_concat, step, if_neg hstay, if_neg hup]

theorem walk_segments_walk (p : Position) {q : Position} (h : IsPlace q.place) {path : List Text}
    (hpath : ∀ s ∈ path, '/' ∉ s) :
    p.walk (q.walk path).segments = (p.walk q.segments).walk path := by
  induction path generalizing q with
  | nil => rfl
  | cons s path ih =>
    have hs := isPlace_step h (hpath s (by simp))
    have hrest := ih hs fun x hx => hpath x (List.mem_cons_of_mem s hx)
    rw [walk_segments_step p h] at hrest
    exact hrest

/-- From any position, a path goes up as often as it climbs above the root, and
then down to the place that it names from there. -/
theorem walk_path (p : Position) (path : Text) :
    p.walk (Text.splitOn '/' path) =
      ⟨p.above + (levelsAbove path - p.place.length),
        p.place.take (p.place.length - levelsAbove path) ++ resolve path⟩ := by
  have hfields : ∀ s ∈ Text.splitOn '/' path, '/' ∉ s := fun _ => Text.not_mem_of_mem_splitOn
  have hway := walk_segments_walk p isPlace_root hfields
  change p.walk (follow [] path).segments = p.walk (Text.splitOn '/' path) at hway
  rw [← hway, follow_root, walk_segments p (resolve_isPlace path)]

end Position

theorem reduce_eq (path : Text) :
    reduce path = List.replicate (levelsAbove path) (".." : Text) ++ resolve path := by
  have hfields : ∀ s ∈ Text.splitOn '/' path, '/' ∉ s := fun _ => Text.not_mem_of_mem_splitOn
  have hway := Position.foldl_reduceStep Position.isPlace_root hfields
  change reduce path = (follow [] path).segments at hway
  rw [hway, follow_root, Position.segments]

theorem follow_root_append (a b : Text) :
    follow [] (a ++ '/' :: b) =
      ⟨levelsAbove a + (levelsAbove b - (resolve a).length),
        (resolve a).take ((resolve a).length - levelsAbove b) ++ resolve b⟩ := by
  have ha := follow_root a
  rw [follow, Text.splitOn_append_cons, Position.walk_append]
  rw [follow] at ha
  rw [ha, Position.walk_path]

theorem levelsAbove_append_slash (a b : Text) :
    levelsAbove (a ++ '/' :: b) = levelsAbove a + (levelsAbove b - (resolve a).length) := by
  have hjoined := follow_root_append a b
  rw [follow_root] at hjoined
  exact congrArg Position.above hjoined

theorem resolve_append_slash_rdrop (a b : Text) :
    resolve (a ++ '/' :: b) =
      (resolve a).rdrop (min (levelsAbove b) (resolve a).length) ++ resolve b := by
  have hjoined := follow_root_append a b
  have hdrop : (resolve a).length - min (levelsAbove b) (resolve a).length =
      (resolve a).length - levelsAbove b := by omega
  rw [follow_root] at hjoined
  rw [List.rdrop, hdrop]
  exact congrArg Position.place hjoined

/-- The climb counter and the walk that stays at the root find the two parts of the reduced path:
the steps up in front, and the names behind them. After any segments the counter's depth is that
of the place, so a step up takes something off only where there is a name. And where one path is
read behind another, the levels that it climbs first use up the names of the other one. -/
theorem climb_laws (path a b : Text) (segments : List Text) :
    reduce path = List.replicate (levelsAbove path) (".." : Text) ++ resolve path ∧
      (climb segments).1 = (walk [] segments).length ∧
      (walk [] segments = [] ∧
          climb (segments ++ [(".." : Text)]) = (0, (climb segments).2 + 1) ∨
        (climb (segments ++ [(".." : Text)])).1 + 1 = (climb segments).1 ∧
          (climb (segments ++ [(".." : Text)])).2 = (climb segments).2) ∧
      levelsAbove (a ++ '/' :: b) = levelsAbove a + (levelsAbove b - (resolve a).length) ∧
      resolve (a ++ '/' :: b) =
        (resolve a).rdrop (min (levelsAbove b) (resolve a).length) ++ resolve b :=
  ⟨reduce_eq path, depth_climb segments, climb_up segments, levelsAbove_append_slash a b,
    resolve_append_slash_rdrop a b⟩

end StaticSite.SitePath
