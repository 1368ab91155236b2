import StaticSite.Markup.Attribute
import StaticSite.Link.Basic

/-! A markup text as pieces, and rewriting of its links: every attribute value
goes through a function, every other character stays. -/

namespace StaticSite.Markup

theorem takeName?_eq {name t taken rest : Text} (h : takeName? name t = some (taken, rest)) :
    t = taken ++ rest := by
  induction name generalizing t taken with
  | nil =>
    rw [takeName?] at h
    simp only [Option.some.injEq, Prod.mk.injEq] at h
    rcases h with ⟨rfl, rfl⟩
    rfl
  | cons letter name ih =>
    cases t with
    | nil => simp [takeName?] at h
    | cons c t =>
      rw [takeName?] at h
      split at h
      · obtain ⟨⟨taken', rest'⟩, h', heq⟩ := Option.map_eq_some_iff.mp h
        simp only [Prod.mk.injEq] at heq
        rcases heq with ⟨rfl, rfl⟩
        rw [ih h', List.cons_append]
      · cases h

theorem takeLinkName?_eq {t taken rest : Text} (h : takeLinkName? t = some (taken, rest)) :
    t = taken ++ rest := by
  rcases Option.or_eq_some_iff.mp h with h | ⟨_, h⟩
  · exact takeName?_eq h
  · exact takeName?_eq h

theorem quoted_eq {q c : Char} {t after : Text} (h : t.dropWhile (· ≠ q) = c :: after) :
    t = t.takeWhile (· ≠ q) ++ [q] ++ after := by
  have hc : c = q := by
    have := List.head?_dropWhile_not (· ≠ q) t
    rw [h] at this
    simpa using this
  have ht := List.takeWhile_append_dropWhile (p := (· ≠ q)) (l := t)
  rw [h, hc] at ht
  simpa using ht.symm

theorem takeValue?_eq {t value rest : Text} {q : Quoting}
    (h : takeValue? t = some (q, value, rest)) : t = q.mark ++ value ++ q.mark ++ rest := by
  rw [takeValue?.eq_def] at h
  split at h
  · split at h
    · rename_i hd
      simp only [Option.some.injEq, Prod.mk.injEq] at h
      rcases h with ⟨rfl, rfl, rfl⟩
      simpa [Quoting.mark] using quoted_eq hd
    · cases h
  · split at h
    · rename_i hd
      simp only [Option.some.injEq, Prod.mk.injEq] at h
      rcases h with ⟨rfl, rfl, rfl⟩
      simpa [Quoting.mark] using quoted_eq hd
    · cases h
  · simp only at h
    split at h
    · cases h
    · simp only [Option.some.injEq, Prod.mk.injEq] at h
      rcases h with ⟨rfl, rfl, rfl⟩
      simp [Quoting.mark]

theorem takeEquals?_eq {t equals rest : Text} (h : takeEquals? t = some (equals, rest)) :
    t = equals ++ rest := by
  rw [takeEquals?] at h
  split at h
  · rename_i after heq
    simp only [Option.some.injEq, Prod.mk.injEq] at h
    rcases h with ⟨rfl, rfl⟩
    have ht := List.takeWhile_append_dropWhile (p := Text.isBlank) (l := t)
    rw [heq] at ht
    simpa using ht.symm
  · cases h

theorem takeAttribute?_eq_some {t rest : Text} {a : Attribute}
    (h : takeAttribute? t = some (a, rest)) :
    t = a.render ++ rest ∧ rest.length < t.length := by
  cases t with
  | nil => simp [takeAttribute?] at h
  | cons blank t =>
    rw [takeAttribute?] at h
    split at h
    · simp only [Option.bind_eq_bind, Option.bind_eq_some_iff, Option.some.injEq,
        Prod.mk.injEq] at h
      obtain ⟨⟨name, t₁⟩, hn, ⟨equals, t₂⟩, he, ⟨q, value, t₃⟩, hv, rfl, rfl⟩ := h
      have he : t₁ = equals ++ t₂ := takeEquals?_eq he
      have hv : t₂ = q.mark ++ value ++ q.mark ++ t₃ := takeValue?_eq hv
      rw [takeLinkName?_eq hn, he, hv]
      refine ⟨by simp [Attribute.render], ?_⟩
      simp only [List.length_cons, List.length_append]
      omega
    · cases h

inductive Piece where
  | plain (c : Char)
  | link (a : Attribute)
  deriving DecidableEq

def pieces (t : Text) : List Piece :=
  match _h : takeAttribute? t with
  | some (a, rest) => .link a :: pieces rest
  | none => match t with
    | [] => []
    | c :: t => .plain c :: pieces t
termination_by t.length
decreasing_by
  · exact (takeAttribute?_eq_some _h).2
  · simp

namespace Piece

def render : Piece → Text
  | plain c => [c]
  | link a => a.render

def mapValue (f : Text → Text) : Piece → Piece
  | plain c => plain c
  | link a => link { a with value := f a.value }

end Piece

def render (ps : List Piece) : Text := ps.flatMap Piece.render

def rewrite (f : Text → Text) (t : Text) : Text := render ((pieces t).map (Piece.mapValue f))

section Acting

variable {m : Type → Type} [Monad m]

/-- A piece with its value replaced by a function that may do something each time it is called. -/
def Piece.mapValueM (f : Text → m Text) : Piece → m Piece
  | plain c => pure (plain c)
  | link a => (fun v => link { a with value := v }) <$> f a.value

def rewriteM (f : Text → m Text) (t : Text) : m Text :=
  render <$> (pieces t).mapM (Piece.mapValueM f)

end Acting

def links (t : Text) : List Text := (pieces t).filterMap fun
  | .plain _ => none
  | .link a => some a.value

def onPage (page : Placement) (base : LinkBase) (t : Text) : Text :=
  rewrite (Link.onPage page base) t

end StaticSite.Markup
