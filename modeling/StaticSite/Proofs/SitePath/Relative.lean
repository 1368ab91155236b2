import StaticSite.Proofs.SitePath.Position

/-! The relative spelling of a target. The steps up never leave the root,
and from the page's directory the whole spelling leads to the target. -/

namespace StaticSite.SitePath

@[simp] theorem common_nil (target : List Text) : common [] target = 0 := by simp [common]

@[simp] theorem common_nil_right (base : List Text) : common base [] = 0 := by simp [common]

@[simp] theorem common_cons_self (s : Text) (base target : List Text) :
    common (s :: base) (s :: target) = common base target + 1 := if_pos rfl

@[simp] theorem common_cons_of_ne {a b : Text} (h : a ≠ b) (base target : List Text) :
    common (a :: base) (b :: target) = 0 := if_neg h

theorem common_le_left (base target : List Text) : common base target ≤ base.length := by
  induction base generalizing target with
  | nil => simp
  | cons a base ih =>
    cases target with
    | nil => simp
    | cons b target =>
      by_cases h : a = b
      · simpa [h] using ih target
      · simp [h]

theorem take_common (base target : List Text) :
    base.take (common base target) = target.take (common base target) := by
  induction base generalizing target with
  | nil => simp
  | cons a base ih =>
    cases target with
    | nil => simp
    | cons b target =>
      by_cases h : a = b
      · simp [h, ih target]
      · simp [h]

theorem common_eq_zero_iff (base target : List Text) :
    common base target = 0 ↔ ∀ s, base.head? = some s → target.head? ≠ some s := by
  cases base with
  | nil => simp
  | cons a base =>
    cases target with
    | nil => simp
    | cons b target =>
      by_cases h : a = b
      · simp [h]
      · simp [h, Ne.symm h]

@[simp] theorem common_append (base t : List Text) : common base (base ++ t) = base.length := by
  induction base with
  | nil => simp
  | cons a base ih => simp [ih]

@[simp] theorem between_append (base t : List Text) : between base (base ++ t) = t := by
  simp [between]

/-- Further steps up in front of the way between two places first use up the
shared part, then they leave the root. -/
theorem walk_ups_between (k : Nat) (base : List Text) {target : List Text} (h : IsPlace target) :
    Position.walk ⟨0, base⟩ (List.replicate k (".." : Text) ++ between base target) =
      ⟨k - common base target,
        base.take (common base target - k) ++ target.drop (common base target)⟩ := by
  have hc := common_le_left base target
  have hdrop : IsPlace (target.drop (common base target)) := h.sublist (List.drop_sublist _ _)
  have habove : 0 + (k + (base.length - common base target) - base.length) =
      k - common base target := by omega
  have hplace : base.length - (k + (base.length - common base target)) =
      common base target - k := by omega
  rw [between, ← List.append_assoc, List.replicate_append_replicate, Position.walk_append,
    Position.walk_ups, Position.walk_names _ hdrop]
  simp only [habove, hplace]

theorem walk_between (base : List Text) {target : List Text} (h : IsPlace target) :
    Position.walk ⟨0, base⟩ (between base target) = ⟨0, target⟩ := by
  have hk := walk_ups_between 0 base h
  rw [Nat.sub_zero, Nat.zero_sub, take_common, List.take_append_drop] at hk
  exact hk

/-- The segments that are written for the way between two places. -/
def written (base target : List Text) : List Text :=
  if between base target = [] then ["."] else between base target

@[simp] theorem written_ne_nil (base target : List Text) : written base target ≠ [] := by
  by_cases h : between base target = []
  · simp [written, h]
  · rwa [written, if_neg h]

theorem joinWith_written (base target : List Text) :
    Text.joinWith '/' (written base target) =
      if between base target = [] then ("." : Text) else Text.joinWith '/' (between base target) := by
  by_cases h : between base target = []
  · simp [written, h]
  · simp [written, h]

theorem written_fields (base : List Text) {target : List Text} (h : IsPlace target) :
    ∀ f ∈ written base target, f ≠ [] ∧ '/' ∉ f := by
  intro f hf
  by_cases hb : between base target = []
  · have hdot : f = ['.'] := by simpa [written, hb] using hf
    simp [hdot]
  · rw [written, if_neg hb, between] at hf
    rcases List.mem_append.mp hf with hup | hname
    · simp [List.eq_of_mem_replicate hup]
    · exact h.fields f (List.mem_of_mem_drop hname)

theorem walk_written (p : Position) (base target : List Text) :
    p.walk (written base target) = p.walk (between base target) := by
  by_cases h : between base target = []
  · rw [written, if_pos h, h]
    exact p.step_stay (.inr rfl)
  · rw [written, if_neg h]

theorem relative_eq (target page : Text) :
    relative target page =
      Text.joinWith '/' (written (resolve (directory page)) (resolve target)) ++
        (if target.endsWith "/" then ['/'] else []) := by
  rw [joinWith_written]
  by_cases h : target.endsWith "/" = true
  · simp only [relative, if_pos h]
    rfl
  · simp only [relative, if_neg h, List.append_nil]

theorem joinWith_written_ne_nil (base target : List Text) (h : IsPlace target) :
    Text.joinWith '/' (written base target) ≠ [] := by
  rw [Ne, Text.joinWith_eq_nil_iff fun f hf => (written_fields base h f hf).1]
  exact written_ne_nil base target

@[simp] theorem relative_ne_nil (target page : Text) : relative target page ≠ [] := by
  rw [relative_eq]
  exact List.append_ne_nil_of_left_ne_nil
    (joinWith_written_ne_nil _ _ (resolve_isPlace target)) _

theorem head?_relative_ne (target page : Text) : (relative target page).head? ≠ some '/' := by
  have hplace := resolve_isPlace target
  have hhead := Text.head?_joinWith_ne (written_fields (resolve (directory page)) hplace)
  obtain ⟨c, t, ht⟩ := List.exists_cons_of_ne_nil
    (joinWith_written_ne_nil (resolve (directory page)) (resolve target) hplace)
  rw [ht] at hhead
  simpa [relative_eq, ht] using hhead

theorem endsWith_relative (target page : Text) :
    (relative target page).endsWith "/" = true ↔ target.endsWith "/" = true := by
  have hfields := written_fields (resolve (directory page)) (resolve_isPlace target)
  rw [relative_eq]
  by_cases h : target.endsWith "/" = true
  · rw [if_pos h]
    exact ⟨fun _ => h, fun _ => by simp⟩
  · rw [if_neg h, List.append_nil]
    exact ⟨fun hs => absurd hs (Text.not_endsWith_joinWith hfields), fun hs => absurd hs h⟩

theorem splitOn_relative (target page : Text) :
    Text.splitOn '/' (relative target page) =
      written (resolve (directory page)) (resolve target) ++
        (if target.endsWith "/" then [[]] else []) := by
  have hfields := written_fields (resolve (directory page)) (resolve_isPlace target)
  have hsplit := Text.splitOn_joinWith
    (written_ne_nil (resolve (directory page)) (resolve target)) fun f hf => (hfields f hf).2
  rw [relative_eq]
  by_cases h : target.endsWith "/" = true
  · rw [if_pos h, if_pos h, Text.splitOn_append_cons, hsplit, Text.splitOn_nil]
  · rw [if_neg h, if_neg h, List.append_nil, List.append_nil, hsplit]

theorem walk_relative (p : Position) (target page : Text) :
    p.walk (Text.splitOn '/' (relative target page)) =
      p.walk (between (resolve (directory page)) (resolve target)) := by
  have hend : ∀ s ∈ if target.endsWith "/" then [([] : Text)] else [], s = [] ∨ s = "." := by
    intro s hs
    split at hs
    · exact .inl (List.mem_singleton.mp hs)
    · cases hs
  rw [splitOn_relative, Position.walk_append, Position.walk_stay _ hend, walk_written]

theorem walk_directory_relative (target page : Text) :
    Position.walk ⟨0, resolve (directory page)⟩ (Text.splitOn '/' (relative target page)) =
      ⟨0, resolve target⟩ := by
  rw [walk_relative]
  exact walk_between _ (resolve_isPlace target)

/-- The relative spelling leads from the page's directory to the target and
never above the root. It is a relative path, and one of a directory exactly
when the target is. -/
theorem follow_relative (target page : Text) :
    follow (resolve (directory page)) (relative target page) = ⟨0, resolve target⟩ ∧
      relative target page ≠ [] ∧ ¬ (relative target page).startsWith "/" ∧
      ((relative target page).endsWith "/" ↔ target.endsWith "/") := by
  refine ⟨?_, relative_ne_nil target page, ?_, endsWith_relative target page⟩
  · rw [follow, walk_relative]
    exact walk_between _ (resolve_isPlace target)
  · simpa using head?_relative_ne target page

end StaticSite.SitePath
