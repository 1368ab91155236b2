import Mathlib.Data.List.Induction
import StaticSite.Proofs.SitePath.Place

/-! Positions also say how far a walk is above the root, where a walk to
places stays at the root. The place of a position and its level are what the
two readings of a path find, each on its own. -/

namespace StaticSite.SitePath

/-- The place below the point that is some levels above the root. -/
structure Position where
  above : Nat
  place : List Text
  deriving DecidableEq

namespace Position

def step (p : Position) (segment : Text) : Position :=
  if segment = [] ∨ segment = "." then p
  else if segment = ".." then
    if p.place = [] then ⟨p.above + 1, []⟩ else ⟨p.above, p.place.dropLast⟩
  else ⟨p.above, p.place ++ [segment]⟩

def walk (p : Position) (segments : List Text) : Position := segments.foldl step p

theorem step_stay (p : Position) {s : Text} (h : s = [] ∨ s = ".") : p.step s = p := by
  rw [step, if_pos h]

@[simp] theorem step_nil (p : Position) : p.step [] = p := p.step_stay (.inl rfl)

theorem step_name (p : Position) {s : Text} (h : IsName s) :
    p.step s = ⟨p.above, p.place ++ [s]⟩ := by
  rw [step, if_neg (not_or_intro h.ne_nil h.ne_dot), if_neg h.ne_up]

theorem step_up (p : Position) :
    p.step ".." = ⟨p.above + (1 - p.place.length), p.place.dropLast⟩ := by
  by_cases h : p.place = []
  · simp [step, h]
  · have hlen : 0 < p.place.length := List.length_pos_iff.mpr h
    have hzero : 1 - p.place.length = 0 := by omega
    simp [step, h, hzero]

@[simp] theorem walk_nil (p : Position) : p.walk [] = p := rfl

@[simp] theorem walk_cons (p : Position) (s : Text) (segments : List Text) :
    p.walk (s :: segments) = (p.step s).walk segments := rfl

@[simp] theorem walk_append (p : Position) (a b : List Text) :
    p.walk (a ++ b) = (p.walk a).walk b :=
  List.foldl_append

theorem walk_stay (p : Position) {segments : List Text}
    (h : ∀ s ∈ segments, s = [] ∨ s = ".") : p.walk segments = p := by
  induction segments with
  | nil => rfl
  | cons s segments ih =>
    rw [walk_cons, step_stay p (h s (by simp))]
    exact ih fun x hx => h x (List.mem_cons_of_mem s hx)

theorem walk_names (p : Position) {names : List Text} (h : IsPlace names) :
    p.walk names = ⟨p.above, p.place ++ names⟩ := by
  induction names generalizing p with
  | nil => simp
  | cons s names ih =>
    rw [walk_cons, step_name p (h s (by simp)), ih _ (h.sublist (List.sublist_cons_self s names))]
    simp

theorem walk_ups (p : Position) (n : Nat) :
    p.walk (List.replicate n "..") =
      ⟨p.above + (n - p.place.length), p.place.take (p.place.length - n)⟩ := by
  induction n generalizing p with
  | zero => simp
  | succ n ih =>
    rw [List.replicate_succ, walk_cons, step_up, ih]
    -- one step up and `n` more leave the same levels and names as `n + 1`
    have habove : p.above + (1 - p.place.length) + (n - p.place.dropLast.length) =
        p.above + (n + 1 - p.place.length) := by
      rw [List.length_dropLast]
      omega
    have hplace : p.place.dropLast.take (p.place.dropLast.length - n) =
        p.place.take (p.place.length - (n + 1)) := by
      rw [List.length_dropLast, List.dropLast_eq_take, List.take_take]
      congr 1
      omega
    rw [habove, hplace]

/-- A walk to places is a walk of positions that forgets the levels above the root. -/
@[simp] theorem place_step (p : Position) (s : Text) :
    (p.step s).place = SitePath.step p.place s := by
  by_cases hstay : s = [] ∨ s = "."
  · rw [step_stay p hstay, SitePath.step, if_pos hstay]
  · by_cases hup : s = ".."
    · rw [hup, step_up, SitePath.step_up]
    · rw [step, if_neg hstay, if_neg hup, SitePath.step, if_neg hstay, if_neg hup]

@[simp] theorem place_walk (p : Position) (segments : List Text) :
    (p.walk segments).place = SitePath.walk p.place segments := by
  induction segments generalizing p with
  | nil => rfl
  | cons s segments ih => simp [ih]

/-- The climb counter keeps the depth of the place and the level above the root. -/
theorem climbStep_eq (p : Position) (s : Text) :
    climbStep (p.place.length, p.above) s = ((p.step s).place.length, (p.step s).above) := by
  by_cases hstay : s = [] ∨ s = "."
  · rw [step_stay p hstay, climbStep, if_pos hstay]
  · by_cases hup : s = ".."
    · by_cases hroot : p.place = []
      · simp [climbStep, step, hup, hroot]
      · simp [climbStep, step, hup, hroot]
    · rw [climbStep, if_neg hstay, if_neg hup, step, if_neg hstay, if_neg hup]
      simp

theorem foldl_climbStep (p : Position) (segments : List Text) :
    segments.foldl climbStep (p.place.length, p.above) =
      ((p.walk segments).place.length, (p.walk segments).above) := by
  induction segments generalizing p with
  | nil => rfl
  | cons s segments ih =>
    rw [List.foldl_cons, climbStep_eq, ih, walk_cons]

theorem walk_slash (p : Position) (t : Text) :
    p.walk (Text.splitOn '/' ('/' :: t)) = p.walk (Text.splitOn '/' t) := by
  rw [Text.splitOn, if_pos rfl, walk_cons, step_nil]

theorem walk_concat_slash (p : Position) (t : Text) :
    p.walk (Text.splitOn '/' (t ++ ['/'])) = p.walk (Text.splitOn '/' t) := by
  simp

@[simp] theorem walk_dropEnds (p : Position) (t : Text) :
    p.walk (Text.splitOn '/' (Text.dropEnds Text.isSlash t)) = p.walk (Text.splitOn '/' t) := by
  have hstart : ∀ s : Text,
      p.walk (Text.splitOn '/' (Text.dropStart Text.isSlash s)) = p.walk (Text.splitOn '/' s) := by
    intro s
    induction s with
    | nil => rfl
    | cons c s ih =>
      by_cases hc : Text.isSlash c = true
      · obtain rfl : c = '/' := by simpa using hc
        rw [walk_slash, ← ih]
        rfl
      · rw [Text.dropStart, List.dropWhile_cons_of_neg hc]
  have hend : ∀ s : Text,
      p.walk (Text.splitOn '/' (Text.dropEnd Text.isSlash s)) = p.walk (Text.splitOn '/' s) := by
    intro s
    induction s using List.reverseRecOn with
    | nil => rfl
    | append_singleton s c ih =>
      by_cases hc : Text.isSlash c = true
      · obtain rfl : c = '/' := by simpa using hc
        rw [walk_concat_slash, ← ih]
        simp [Text.dropEnd]
      · simp [Text.dropEnd, hc]
  rw [Text.dropEnds, hend, hstart]

end Position

/-- Where a path leads from a place, if nothing holds it back at the root. -/
def follow (place : List Text) (path : Text) : Position :=
  Position.walk ⟨0, place⟩ (Text.splitOn '/' path)

theorem follow_root (path : Text) : follow [] path = ⟨levelsAbove path, resolve path⟩ := by
  have hplace : (follow [] path).place = resolve path :=
    Position.place_walk ⟨0, []⟩ (Text.splitOn '/' path)
  have habove : levelsAbove path = (follow [] path).above :=
    congrArg Prod.snd (Position.foldl_climbStep ⟨0, []⟩ (Text.splitOn '/' path))
  rw [habove, ← hplace]

end StaticSite.SitePath
