import StaticSite.Proofs.Number.Rounding
import StaticSite.Proofs.Yaml.Plain

/-! Nodes that are read from a text. Their numbers have the form that rounding
gives, and no mapping has the same key twice. -/

namespace StaticSite.Yaml

theorem PlainScalar.decimal?_isRounded {t : Text} {x : Binary64}
    (h : PlainScalar.decimal? t = some x) : (Number.float x).IsRounded := by
  simp only [PlainScalar.decimal?, Option.bind_eq_bind, Option.bind_eq_some_iff] at h
  obtain ⟨digits, _, e, _, hx⟩ := h
  obtain ⟨_, rfl⟩ := Option.ite_none_right_eq_some.mp hx |>.imp_right Option.some.inj
  exact Binary64.ofDecimal_isRounded ..

theorem PlainScalar.float?_isRounded {t : Text} {x : Binary64}
    (h : PlainScalar.float? t = some x) : (Number.float x).IsRounded := by
  have hor : PlainScalar.float? t = none ∨ (∃ s, PlainScalar.float? t = some (.infinite s)) ∨
      PlainScalar.float? t = some .nan ∨ ∃ u, PlainScalar.float? t = PlainScalar.decimal? u := by
    rw [PlainScalar.float?.eq_def]
    split
    · split
      · exact .inl rfl
      split
      · exact .inr (.inl ⟨_, rfl⟩)
      · exact .inr (.inr (.inr ⟨_, rfl⟩))
    · split
      · exact .inr (.inl ⟨_, rfl⟩)
      · exact .inr (.inr (.inr ⟨_, rfl⟩))
    · split
      · exact .inr (.inl ⟨_, rfl⟩)
      split
      · exact .inr (.inr (.inl rfl))
      · exact .inr (.inr (.inr ⟨_, rfl⟩))
  rw [h] at hor
  rcases hor with hnone | ⟨s, hinf⟩ | hnan | ⟨u, hdecimal⟩
  · cases hnone
  · rw [Option.some.inj hinf]
    trivial
  · rw [Option.some.inj hnan]
    trivial
  · exact PlainScalar.decimal?_isRounded hdecimal.symm

namespace Node

/-- A document as it is read. The keys of a mapping differ, and all scalars are as above. -/
inductive IsRead : Node → Prop where
  | scalar {n : Node} : n.IsScalar → IsRead n
  | sequence {items : List Node} : (∀ item ∈ items, IsRead item) → IsRead (sequence items)
  | mapping {entries : List (Node × Node)} : (∀ e ∈ entries, IsRead e.1) →
    (∀ e ∈ entries, IsRead e.2) → hasRepeatedKey entries = false → IsRead (mapping entries)
  | tagged {tag : Text} {n : Node} : IsRead n → IsRead (tagged tag n)

theorem ofPlain?_isScalar {t : Text} {n : Node} (h : ofPlain? t = some n) : n.IsScalar := by
  rw [ofPlain?] at h
  split at h
  · cases h
    trivial
  split at h
  · cases h
    trivial
  split at h
  · obtain ⟨_, rfl⟩ := Option.ite_none_right_eq_some.mp h |>.imp_right Option.some.inj
    trivial
  split at h
  · cases h
    trivial
  split at h
  · rename_i x hx
    cases h
    exact PlainScalar.float?_isRounded hx
  · cases h
    trivial

theorem ofScalar?_isScalar {style : Style} {t : Text} {n : Node} (h : ofScalar? style t = some n) :
    n.IsScalar := by
  rw [ofScalar?] at h
  split at h
  · exact ofPlain?_isScalar h
  · cases h
    trivial

theorem ofTagged?_isRead {style : Style} {t : Text} {tag : Tag} {n : Node}
    (h : ofTagged? style t tag = some n) : n.IsRead := by
  cases tag with
  | null =>
    obtain ⟨_, rfl⟩ := Option.ite_none_right_eq_some.mp h |>.imp_right Option.some.inj
    exact .scalar trivial
  | bool =>
    obtain ⟨b, _, rfl⟩ := Option.map_eq_some_iff.mp h
    exact .scalar trivial
  | int =>
    obtain ⟨i, _, h⟩ := Option.bind_eq_some_iff.mp h
    obtain ⟨_, rfl⟩ := Option.ite_none_right_eq_some.mp h |>.imp_right Option.some.inj
    exact .scalar trivial
  | float =>
    obtain ⟨x, hx, rfl⟩ := Option.map_eq_some_iff.mp h
    exact .scalar (PlainScalar.float?_isRounded hx)
  | foreign =>
    cases h
    exact .scalar trivial
  | name tag =>
    obtain ⟨m, hm, rfl⟩ := Option.map_eq_some_iff.mp h
    exact .tagged (.scalar (ofScalar?_isScalar hm))

/-- Whatever a step of reading gives has a property. -/
def Gives {α : Type} (step : Following α) (P : α → Prop) : Prop :=
  ∀ s a s', step s = some (a, s') → P a

variable {α β : Type}

theorem gives_any (step : Following α) : Gives step fun _ => True := fun _ _ _ _ => trivial

theorem gives_pure {P : α → Prop} {a : α} (h : P a) : Gives (pure a) P := by
  intro s b s' hb
  cases hb
  exact h

theorem gives_failure {P : α → Prop} : Gives failure P := by
  intro s a s' h
  cases h

theorem gives_bind {step : Following α} {next : α → Following β} {Q : α → Prop} {P : β → Prop}
    (hstep : Gives step Q) (hnext : ∀ a, Q a → Gives (next a) P) : Gives (step >>= next) P := by
  intro s b s' hb
  obtain ⟨⟨a, s₁⟩, ha, hb⟩ := Option.bind_eq_some_iff.mp hb
  exact hnext a (hstep s a s₁ ha) s₁ b s' hb

theorem gives_lift {o : Option α} {P : α → Prop} (h : ∀ a, o = some a → P a) :
    Gives (liftM o) P := by
  intro s a s' ha
  obtain ⟨b, hb, heq⟩ := Option.bind_eq_some_iff.mp ha
  rw [← (Prod.mk.inj (Option.some.inj heq)).1]
  exact h b hb

theorem gives_mapM {f : α → Following β} {P : β → Prop} {as : List α}
    (h : ∀ a ∈ as, Gives (f a) P) : Gives (as.mapM f) fun bs => ∀ b ∈ bs, P b := by
  induction as with
  | nil =>
    rw [List.mapM_nil]
    exact gives_pure (by simp)
  | cons a as ih =>
    rw [List.forall_mem_cons] at h
    rw [List.mapM_cons]
    refine gives_bind h.1 fun b hb => gives_bind (ih h.2) fun bs hbs => gives_pure ?_
    exact List.forall_mem_cons.mpr ⟨hb, hbs⟩

theorem withTag_isRead {n : Node} (h : n.IsRead) (tag : Option Tag) : (withTag n tag).IsRead := by
  rw [withTag.eq_def]
  split
  · exact .tagged h
  · exact h

theorem ofTree?_zero (anchors : Anchors) (bare : Bool) (t : Tree) :
    ofTree? anchors 0 bare t = (follow anchors bare t >>= fun x => match x.1 with
      | .scalar p style t => match if x.2 then none else p.tag with
        | some tag => liftM (ofTagged? style t tag)
        | none => liftM (ofScalar? style t)
      | _ => failure) := by
  delta ofTree?
  dsimp only
  refine bind_congr ?_
  rintro ⟨t, bare⟩
  cases t <;> rfl

theorem ofTree?_succ (anchors : Anchors) (depth : Nat) (bare : Bool) (t : Tree) :
    ofTree? anchors (depth + 1) bare t = (follow anchors bare t >>= fun x => match x.1 with
      | .reference _ => failure
      | .scalar p style t => match if x.2 then none else p.tag with
        | some tag => liftM (ofTagged? style t tag)
        | none => liftM (ofScalar? style t)
      | .sequence p items => do
        let items ← items.mapM (ofTree? anchors depth false)
        return withTag (sequence items) (if x.2 then none else p.tag)
      | .mapping p entries => do
        let entries ← entries.mapM fun (k, v) => do
          let k ← ofTree? anchors depth (x.2 || isName p.tag) k
          return (k, ← ofTree? anchors depth false v)
        if hasRepeatedKey entries then failure
        return withTag (mapping entries) (if x.2 then none else p.tag)) := by
  delta ofTree?
  dsimp only
  refine bind_congr ?_
  rintro ⟨t, bare⟩
  cases t <;> rfl

theorem gives_scalar (style : Style) (t : Text) (tag : Option Tag) :
    Gives (match tag with
      | some tag => liftM (ofTagged? style t tag)
      | none => liftM (ofScalar? style t) : Following Node) IsRead := by
  cases tag with
  | some tag => exact gives_lift fun _ h => ofTagged?_isRead h
  | none => exact gives_lift fun _ h => .scalar (ofScalar?_isScalar h)

theorem ofTree?_gives (anchors : Anchors) (depth : Nat) (bare : Bool) (t : Tree) :
    Gives (ofTree? anchors depth bare t) IsRead := by
  induction depth generalizing bare t with
  | zero =>
    rw [ofTree?_zero]
    refine gives_bind (gives_any _) ?_
    rintro ⟨t, bare⟩ _
    cases t with
    | reference id => exact gives_failure
    | scalar p style t => exact gives_scalar style t _
    | sequence p items => exact gives_failure
    | mapping p entries => exact gives_failure
  | succ depth ih =>
    rw [ofTree?_succ]
    refine gives_bind (gives_any _) ?_
    rintro ⟨t, bare⟩ _
    cases t with
    | reference id => exact gives_failure
    | scalar p style t => exact gives_scalar style t _
    | sequence p items =>
      refine gives_bind (gives_mapM fun item _ => ih false item) fun items hitems => ?_
      exact gives_pure (withTag_isRead (.sequence hitems) _)
    | mapping p entries =>
      refine gives_bind (Q := fun es => ∀ e ∈ es, e.1.IsRead ∧ e.2.IsRead) ?_ ?_
      · refine gives_mapM fun e _ => gives_bind (ih _ e.1) fun k hk => ?_
        exact gives_bind (ih _ e.2) fun v hv => gives_pure ⟨hk, hv⟩
      · intro entries hentries
        dsimp only
        split
        · exact gives_bind gives_failure fun _ h => False.elim h
        · rename_i hdistinct
          refine gives_pure (withTag_isRead (.mapping ?_ ?_ (Bool.not_eq_true _ ▸ hdistinct)) _)
          · exact fun e he => (hentries e he).1
          · exact fun e he => (hentries e he).2

theorem ofText?_isRead {t : Text} {n : Node} (h : ofText? t = some n) : n.IsRead := by
  obtain ⟨tokens, _, h⟩ := Option.bind_eq_some_iff.mp h
  obtain ⟨tree, _, h⟩ := Option.bind_eq_some_iff.mp h
  cases tree with
  | none =>
    cases h
    exact .scalar trivial
  | some tree =>
    obtain ⟨⟨m, s⟩, hm, rfl⟩ := Option.map_eq_some_iff.mp h
    exact ofTree?_gives _ _ _ tree 0 m s hm

theorem IsRead.isScalar {k : Node} (h : k.IsRead) {text : Text} (hkey : Registry.key k = .ok text) :
    k.IsScalar := by
  cases h with
  | scalar hscalar => exact hscalar
  | sequence _ => cases hkey
  | mapping _ _ _ => cases hkey
  | tagged _ => cases hkey

theorem IsRead.isPlain {n : Node} (h : n.IsRead) (htags : ∀ tag m, ¬ (Node.tagged tag m).Part n)
    (hkeys : ∀ entries, (Node.mapping entries).Part n →
      ∀ e ∈ entries, ∃ text, Registry.key e.1 = .ok text) : n.IsPlain := by
  induction h with
  | scalar hscalar => exact .scalar hscalar
  | sequence _ ih =>
    refine .sequence fun item hm => ih item hm ?_ ?_
    · exact fun tag m hpart => htags tag m (.item hm hpart)
    · exact fun entries hpart => hkeys entries (.item hm hpart)
  | @mapping entries hread _ hdistinct _ ih =>
    refine .mapping (fun e hm => ?_) hdistinct fun e hm => ih e hm ?_ ?_
    · obtain ⟨text, hkey⟩ := hkeys entries .self e hm
      exact (hread e hm).isScalar hkey
    · exact fun tag m hpart => htags tag m (.value hm hpart)
    · exact fun entries hpart => hkeys entries (.value hm hpart)
  | tagged _ => exact absurd .self (htags _ _)

/-- A document that is read from a text is plain if it has no tags and all its keys are allowed. -/
theorem isPlain_of_ofText? {t : Text} {n : Node} (h : ofText? t = some n)
    (htags : ∀ tag m, ¬ (tagged tag m).Part n)
    (hkeys : ∀ entries, (mapping entries).Part n →
      ∀ e ∈ entries, ∃ text, Registry.key e.1 = .ok text) : n.IsPlain :=
  (ofText?_isRead h).isPlain htags hkeys

end Node

end StaticSite.Yaml
