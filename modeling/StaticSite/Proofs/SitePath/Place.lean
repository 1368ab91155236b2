import StaticSite.Proofs.Text.Separated
import StaticSite.SitePath.Basic

/-! The places that walks reach are lists of names. A walk over names only
descends, so a place is found again by reading its joined names as a path. -/

namespace StaticSite.SitePath

/-- Segments that lead one level down. -/
structure IsName (s : Text) : Prop where
  ne_nil : s ≠ []
  ne_dot : s ≠ "."
  ne_up : s ≠ ".."
  no_slash : '/' ∉ s

theorem isName_iff {name : Text} (h : '/' ∉ name) :
    IsName name ↔ name ∉ ([[], ".", ".."] : List Text) := by
  simp only [List.mem_cons, List.not_mem_nil, or_false, not_or]
  exact ⟨fun hname => ⟨hname.ne_nil, hname.ne_dot, hname.ne_up⟩,
    fun hname => ⟨hname.1, hname.2.1, hname.2.2, h⟩⟩

def IsPlace (place : List Text) : Prop := ∀ s ∈ place, IsName s

@[simp] theorem step_nil (place : List Text) : step place [] = place := by simp [step]

@[simp ↓] theorem step_up (place : List Text) : step place ".." = place.dropLast := by simp [step]

theorem step_name {s : Text} (h : IsName s) (place : List Text) : step place s = place ++ [s] := by
  rw [step, if_neg (not_or_intro h.ne_nil h.ne_dot), if_neg h.ne_up]

theorem IsPlace.append {a b : List Text} (ha : IsPlace a) (hb : IsPlace b) : IsPlace (a ++ b) := by
  intro s hs
  rcases List.mem_append.mp hs with h | h
  · exact ha s h
  · exact hb s h

theorem IsPlace.sublist {a b : List Text} (h : IsPlace b) (hsub : a.Sublist b) : IsPlace a :=
  fun s hs => h s (hsub.subset hs)

theorem IsPlace.fields {place : List Text} (h : IsPlace place) :
    ∀ f ∈ place, f ≠ [] ∧ '/' ∉ f := fun f hf => ⟨(h f hf).ne_nil, (h f hf).no_slash⟩

theorem IsPlace.step {place : List Text} (h : IsPlace place) {s : Text} (hs : '/' ∉ s) :
    IsPlace (step place s) := by
  by_cases hstay : s = [] ∨ s = "."
  · rw [SitePath.step, if_pos hstay]
    exact h
  · by_cases hup : s = ".."
    · rw [hup, step_up]
      exact h.sublist (List.dropLast_sublist place)
    · have hname : IsName s := ⟨fun e => hstay (.inl e), fun e => hstay (.inr e), hup, hs⟩
      rw [step_name hname]
      exact h.append (by simpa [IsPlace] using hname)

@[simp] theorem walk_nil (place : List Text) : walk place [] = place := rfl

@[simp] theorem walk_cons (place : List Text) (s : Text) (segments : List Text) :
    walk place (s :: segments) = walk (step place s) segments := rfl

@[simp] theorem walk_append (place a b : List Text) : walk place (a ++ b) = walk (walk place a) b :=
  List.foldl_append

theorem IsPlace.walk {place : List Text} (h : IsPlace place) {segments : List Text}
    (hs : ∀ s ∈ segments, '/' ∉ s) : IsPlace (walk place segments) := by
  induction segments generalizing place with
  | nil => exact h
  | cons s segments ih =>
    exact ih (h.step (hs s (by simp))) (fun x hx => hs x (List.mem_cons_of_mem s hx))

theorem resolve_isPlace (path : Text) : IsPlace (resolve path) := by
  have hroot : IsPlace [] := by simp [IsPlace]
  exact hroot.walk fun s hs => Text.not_mem_of_mem_splitOn hs

theorem walk_names {names : List Text} (h : IsPlace names) (place : List Text) :
    walk place names = place ++ names := by
  induction names generalizing place with
  | nil => simp
  | cons s names ih =>
    have hrest := ih (h.sublist (List.sublist_cons_self s names)) (place ++ [s])
    rw [walk_cons, step_name (h s (by simp)), hrest, List.append_assoc, List.singleton_append]

theorem resolve_joinWith {place : List Text} (h : IsPlace place) :
    resolve (Text.joinWith '/' place) = place := by
  by_cases hne : place = []
  · subst hne
    rfl
  · rw [resolve, Text.splitOn_joinWith hne (fun f hf => (h f hf).no_slash), walk_names h,
      List.nil_append]

@[simp] theorem resolve_append_slash (a b : Text) :
    resolve (a ++ '/' :: b) = walk (resolve a) (Text.splitOn '/' b) := by
  simp [resolve]

end StaticSite.SitePath
