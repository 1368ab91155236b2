import StaticSite.Proofs.Markup.Rewriting

/-! Fragments of markup as texts and tags. Rewriting knows nothing of either,
so it keeps to the link attributes of the tags exactly if nothing else of the
fragment reads as one. -/

namespace StaticSite.Markup

structure TagAttribute where
  name : Text
  value : Text

inductive Node where
  | text (t : Text)
  | endTag (name : Text)
  | startTag (name : Text) (attributes : List TagAttribute)

namespace TagAttribute

def isLink (a : TagAttribute) : Bool := Text.lower a.name == "href" || Text.lower a.name == "src"

def lead (a : TagAttribute) : Text := ' ' :: (a.name ++ ['='])

def render (a : TagAttribute) : Text := a.lead ++ '\x22' :: (a.value ++ ['\x22'])

def mapLink (f : Text → Text) (a : TagAttribute) : TagAttribute :=
  if a.isLink then { a with value := f a.value } else a

/-- The attribute as it is meant: a link, or nothing but characters. -/
def pieces (a : TagAttribute) : List Piece :=
  if a.isLink then [.link ⟨a.lead, .double, a.value⟩] else a.render.map .plain

end TagAttribute

namespace Node

def attributes : Node → List TagAttribute
  | startTag _ attributes => attributes
  | _ => []

def render : Node → Text
  | text t => t
  | endTag name => "</" ++ name ++ ">"
  | startTag name attributes => '<' :: (name ++ attributes.flatMap TagAttribute.render ++ ">")

def mapLinks (f : Text → Text) : Node → Node
  | startTag name attributes => startTag name (attributes.map (TagAttribute.mapLink f))
  | node => node

def pieces : Node → List Piece
  | startTag name attributes =>
    ('<' :: name).map .plain ++ attributes.flatMap TagAttribute.pieces ++ [.plain '>']
  | node => node.render.map .plain

end Node

def serialize (nodes : List Node) : Text := nodes.flatMap Node.render

def marked (nodes : List Node) : List Piece := nodes.flatMap Node.pieces

/-- Somewhere in a fragment, where no link of a tag begins, a link attribute is read. -/
def HasStrayLink (nodes : List Node) : Prop :=
  ∃ c after, .plain c :: after <:+ marked nodes ∧ ∃ (a : Attribute) (rest : Text),
    c :: render after = a.render ++ rest ∧ IsLead a.lead ∧ a.quoting.Encloses a.value rest

/-! What is marked is the fragment, and its links are links. -/

theorem TagAttribute.render_pieces (f : Text → Text) (a : TagAttribute) :
    Markup.render (a.pieces.map (Piece.mapValue f)) = (a.mapLink f).render := by
  by_cases h : a.isLink = true
  · rw [pieces, mapLink, if_pos h, if_pos h]
    simp [Attribute.render, Quoting.mark, TagAttribute.render, lead]
  · rw [pieces, mapLink, if_neg h, if_neg h]
    simp

theorem TagAttribute.render_flatMap_pieces (f : Text → Text) (attributes : List TagAttribute) :
    Markup.render ((attributes.flatMap pieces).map (Piece.mapValue f)) =
      (attributes.map (mapLink f)).flatMap TagAttribute.render := by
  induction attributes with
  | nil => rfl
  | cons a attributes ih =>
    rw [List.flatMap_cons, List.map_append, render_append, render_pieces, ih]
    rfl

theorem Node.render_pieces (f : Text → Text) (node : Node) :
    Markup.render (node.pieces.map (Piece.mapValue f)) = (node.mapLinks f).render := by
  cases node with
  | startTag name attributes =>
    rw [pieces, List.map_append, List.map_append, render_append, render_append,
      TagAttribute.render_flatMap_pieces]
    simp [mapLinks, render]
  | _ => simp [pieces, mapLinks]

theorem render_marked (f : Text → Text) (nodes : List Node) :
    render ((marked nodes).map (Piece.mapValue f)) = serialize (nodes.map (Node.mapLinks f)) := by
  induction nodes with
  | nil => rfl
  | cons node nodes ih =>
    have hcons : marked (node :: nodes) = node.pieces ++ marked nodes := rfl
    rw [hcons, List.map_append, render_append, Node.render_pieces, ih]
    rfl

@[simp] theorem Piece.mapValue_id : Piece.mapValue id = id := by
  funext p
  cases p with
  | plain c => rfl
  | link a => rfl

@[simp] theorem TagAttribute.mapLink_id : mapLink id = id := by
  funext a
  simp [mapLink]

@[simp] theorem Node.mapLinks_id : mapLinks id = id := by
  funext node
  cases node with
  | startTag name attributes => simp [mapLinks]
  | _ => rfl

theorem serialize_eq (nodes : List Node) : serialize nodes = render (marked nodes) := by
  simpa using (render_marked id nodes).symm

/-- A link attribute as tags have it: after a space, and with its value in double quotes. -/
structure Attribute.OfTag (a : Attribute) : Prop where
  lead : ∃ name, a.lead = ' ' :: (name ++ ['=']) ∧ IsLinkName name
  quoting : a.quoting = .double
  value : '\x22' ∉ a.value

theorem TagAttribute.isLinkName {a : TagAttribute} (h : a.isLink = true) : IsLinkName a.name := by
  have hreads : Reads (Text.lower a.name) a.name :=
    List.forall₂_map_left_iff.mpr (List.forall₂_same.mpr fun c _ => by simp [sameLetter])
  rcases Bool.or_eq_true_iff.mp h with hname | hname
  · exact .inl (eq_of_beq hname ▸ hreads)
  · exact .inr (eq_of_beq hname ▸ hreads)

theorem ofTag_of_mem_marked {nodes : List Node}
    (h : ∀ node ∈ nodes, ∀ a ∈ node.attributes, '\x22' ∉ a.value) {a : Attribute}
    (ha : .link a ∈ marked nodes) : a.OfTag := by
  obtain ⟨node, hnode, ha⟩ := List.mem_flatMap.mp ha
  cases node with
  | startTag name attributes =>
    have hmem : .link a ∈ attributes.flatMap TagAttribute.pieces := by
      simpa [Node.pieces] using ha
    obtain ⟨b, hb, hlink⟩ := List.mem_flatMap.mp hmem
    by_cases hisLink : b.isLink = true
    · rw [TagAttribute.pieces, if_pos hisLink, List.mem_singleton] at hlink
      obtain rfl := Piece.link.inj hlink
      exact ⟨⟨b.name, rfl, TagAttribute.isLinkName hisLink⟩, rfl, h _ hnode b hb⟩
    · rw [TagAttribute.pieces, if_neg hisLink] at hlink
      simp at hlink
  | _ => simp [Node.pieces] at ha

theorem Attribute.OfTag.take {a : Attribute} (h : a.OfTag) (rest : Text) :
    takeAttribute? (a.render ++ rest) = some (a, rest) := by
  obtain ⟨name, hlead, hname⟩ := h.lead
  refine takeAttribute?_eq_some_iff.mpr ⟨rfl, ?_, ?_, ?_⟩
  · exact ⟨' ', name, [], [], by simpa using hlead, by decide, hname, by simp, by simp⟩
  · intro m hm
    rw [h.quoting] at hm
    rw [List.mem_singleton.mp hm]
    exact h.value
  · intro hbare
    rw [h.quoting] at hbare
    cases hbare

theorem pieces_render {ps : List Piece} (hlinks : ∀ a, .link a ∈ ps → a.OfTag)
    (hplain : ∀ c after, .plain c :: after <:+ ps → takeAttribute? (c :: render after) = none) :
    pieces (render ps) = ps := by
  induction ps with
  | nil => exact pieces_nil
  | cons p ps ih =>
    have hrest := ih (fun a ha => hlinks a (List.mem_cons_of_mem p ha))
      (fun c after h => hplain c after (h.trans (List.suffix_cons p ps)))
    cases p with
    | plain c =>
      change pieces (c :: render ps) = _
      rw [pieces_of_none (hplain c ps List.suffix_rfl), hrest]
    | link a =>
      change pieces (a.render ++ render ps) = _
      rw [pieces_of_some ((hlinks a List.mem_cons_self).take _), hrest]

theorem IsLead.not_mem {lead : Text} {c : Char} (h : IsLead lead) (hbare : isBareChar c = false)
    (hblank : Text.isBlank c = false) (hsign : c ≠ '=') : c ∉ lead := by
  obtain ⟨blank, name, before, after, rfl, hb, hname, hbefore, hafter⟩ := h
  have hne : ∀ d, Text.isBlank d = true → c ≠ d := by
    rintro d hd rfl
    rw [hblank] at hd
    cases hd
  have hn : c ∉ name := by
    intro hc
    rw [hname.bare c hc] at hbare
    cases hbare
  have hbef : c ∉ before := fun hc => hne c (hbefore c hc) rfl
  have haft : c ∉ after := fun hc => hne c (hafter c hc) rfl
  simp [hne blank hb, hn, hbef, hsign, haft]

theorem IsLead.eq_of_append {lead u name : Text} (hlead : IsLead lead) (hname : IsLinkName name)
    (h : lead = u ++ ' ' :: (name ++ ['='])) : u = [] := by
  obtain ⟨blank, lname, before, after, rfl, hblank, hlname, hbefore, hafter⟩ := hlead
  have hsign : ∀ t : Text, (∀ c ∈ t, Text.isBlank c = true) → '=' ∉ t := by
    intro t ht hc
    exact absurd (ht '=' hc) (by decide)
  have hspaced : ∀ w, before ≠ w ++ ' ' :: name := by
    rintro w rfl
    obtain ⟨c, name, rfl⟩ := List.exists_cons_of_ne_nil hname.ne_nil
    have hc := not_isBlank_of_isBareChar (hname.bare c List.mem_cons_self)
    rw [hbefore c (by simp)] at hc
    cases hc
  -- the sign comes once, so the two texts agree up to it
  have hcut : blank :: (lname ++ before) = u ++ ' ' :: name := by
    have hsplit : (blank :: (lname ++ before)) ++ '=' :: after =
        (u ++ ' ' :: name) ++ '=' :: [] := by
      simpa using h
    have hb : '=' ≠ blank := by
      rintro rfl
      exact absurd hblank (by decide)
    have hn : '=' ∉ lname := fun hc => absurd (hlname.bare '=' hc) (by decide)
    have hfirst : '=' ∉ blank :: (lname ++ before) := by simp [hb, hn, hsign before hbefore]
    exact ((List.append_cons_inj_of_notMem hfirst (hsign after hafter)).mp hsplit).1
  cases u with
  | nil => rfl
  | cons d u =>
    have hrest : lname ++ before = u ++ ' ' :: name := (List.cons.inj hcut).2
    rcases List.append_eq_append_iff.mp hrest with ⟨w, _, hw⟩ | ⟨w, hw, hbefore'⟩
    · exact absurd hw (hspaced w)
    · cases w with
      | nil => exact absurd hbefore'.symm (hspaced [])
      | cons e w =>
        obtain rfl : ' ' = e := (List.cons.inj hbefore').1
        have hspace := hlname.bare ' ' (by simp [hw])
        exact absurd hspace (by decide)

/-- The opening of a link attribute does not end with the opening of another one. -/
theorem IsLead.not_within {lead name u : Text} {q : Quoting} (hlead : IsLead lead)
    (hname : IsLinkName name) (h : lead ++ q.mark = u ++ (' ' :: (name ++ ['=']) ++ ['\x22'])) :
    u = [] := by
  rw [← List.append_assoc] at h
  cases q with
  | double => exact hlead.eq_of_append hname (List.append_cancel_right h)
  | single => exact absurd (List.append_inj_right' h rfl) (by decide)
  | bare =>
    have hmem : '\x22' ∈ lead ++ Quoting.bare.mark := by
      rw [h]
      simp
    rw [Quoting.mark, List.append_nil] at hmem
    exact absurd hmem (hlead.not_mem (by decide) (by decide) (by decide))

theorem exists_char_ne (c : Char) : ∃ d, d ≠ c := by
  by_cases h : c = 'a'
  · exact ⟨'b', by rw [h]; decide⟩
  · exact ⟨'a', fun he => h he.symm⟩

theorem eq_of_forall_values {p q x y : Text} {s r : (Text → Text) → Text}
    (h : ∀ f, p ++ (f x ++ s f) = q ++ (f y ++ r f)) : p = q := by
  have hnext : ∀ (p q x y : Text) (s r : (Text → Text) → Text) (c : Char) (t : Text),
      (∀ f, p ++ (f x ++ s f) = q ++ (f y ++ r f)) → q ≠ p ++ c :: t := by
    rintro p _ x y s r c t h rfl
    obtain ⟨d, hd⟩ := exists_char_ne c
    have hf := h fun _ => [d]
    rw [List.append_assoc] at hf
    exact hd (List.cons.inj (List.append_cancel_left hf)).1
  rcases List.append_eq_append_iff.mp (h id) with ⟨t, ht, _⟩ | ⟨t, ht, _⟩
  · cases t with
    | nil => rw [ht, List.append_nil]
    | cons c t => exact absurd ht (hnext p q x y s r c t h)
  · cases t with
    | nil => rw [ht, List.append_nil]
    | cons c t => exact absurd ht (hnext q p y x r s c t fun f => (h f).symm)

/-- Texts without links are all of a list of pieces, or they come before its first link. -/
theorem exists_first_link (ps : List Piece) :
    (∀ f, ps.map (Piece.mapValue f) = ps) ∨
      ∃ (before : Text) (a : Attribute) (after : List Piece),
        ps = before.map .plain ++ .link a :: after := by
  induction ps with
  | nil => exact .inl fun _ => rfl
  | cons p ps ih =>
    cases p with
    | link a => exact .inr ⟨[], a, ps, rfl⟩
    | plain c =>
      rcases ih with hsame | ⟨before, a, after, rfl⟩
      · exact .inl fun f => by rw [List.map_cons, hsame]; rfl
      · exact .inr ⟨c :: before, a, after, rfl⟩

/-- Whatever the function, rewriting applies it to the links of some pieces and to nothing else. -/
def RewritesLinks (ps : List Piece) : Prop :=
  ∀ f, rewrite f (render ps) = render (ps.map (Piece.mapValue f))

/-- Where a stray link is read, some function is applied at another place than it should be. -/
theorem RewritesLinks.take_eq_none {c : Char} {ps : List Piece}
    (hlinks : ∀ a, .link a ∈ ps → a.OfTag) (h : RewritesLinks (.plain c :: ps)) :
    takeAttribute? (c :: render ps) = none := by
  cases hread : takeAttribute? (c :: render ps) with
  | none => rfl
  | some read =>
    exfalso
    obtain ⟨a, rest⟩ := read
    have hlead := (takeAttribute?_eq_some_iff.mp hread).2.1
    have hstray : ∀ f : Text → Text, (a.lead ++ a.quoting.mark) ++
        (f a.value ++ (a.quoting.mark ++ rewrite f rest)) =
          c :: render (ps.map (Piece.mapValue f)) := by
      intro f
      have hf : rewrite f (c :: render ps) = c :: render (ps.map (Piece.mapValue f)) := h f
      rw [← hf, rewrite_of_some hread]
      simp [Attribute.render]
    rcases exists_first_link ps with hsame | ⟨before, b, after, rfl⟩
    · have ha := hstray fun _ => ['a']
      have hb := hstray fun _ => ['b']
      rw [hsame] at ha hb
      have hcancel := List.append_cancel_left (ha.trans hb.symm)
      exact absurd (List.cons.inj hcancel).1 (by decide)
    · obtain ⟨⟨name, hname, hlink⟩, hquoting, _⟩ := hlinks b (by simp)
      have hopening : a.lead ++ a.quoting.mark = (c :: before) ++ (b.lead ++ ['\x22']) := by
        refine eq_of_forall_values (x := a.value) (y := b.value)
          (s := fun f => a.quoting.mark ++ rewrite f rest)
          (r := fun f => '\x22' :: render (after.map (Piece.mapValue f))) ?_
        intro f
        rw [hstray f]
        simp [Attribute.render, hquoting, Quoting.mark]
      rw [hname] at hopening
      exact absurd (hlead.not_within hlink hopening) (by simp)

theorem RewritesLinks.tail {p : Piece} {ps : List Piece}
    (hlinks : ∀ a, .link a ∈ p :: ps → a.OfTag) (h : RewritesLinks (p :: ps)) :
    RewritesLinks ps := by
  intro f
  cases p with
  | plain c =>
    have hnone := take_eq_none (fun a ha => hlinks a (List.mem_cons_of_mem _ ha)) h
    have hf : rewrite f (c :: render ps) = c :: render (ps.map (Piece.mapValue f)) := h f
    rw [rewrite_of_none hnone] at hf
    exact (List.cons.inj hf).2
  | link a =>
    have hread := (hlinks a List.mem_cons_self).take (render ps)
    have hf : rewrite f (a.render ++ render ps) =
      Attribute.render { a with value := f a.value } ++ render (ps.map (Piece.mapValue f)) := h f
    rw [rewrite_of_some hread] at hf
    exact List.append_cancel_left hf

theorem RewritesLinks.suffix {ps qs : List Piece} (hlinks : ∀ a, .link a ∈ ps → a.OfTag)
    (h : RewritesLinks ps) (hsuffix : qs <:+ ps) : RewritesLinks qs := by
  induction ps with
  | nil => rwa [List.suffix_nil.mp hsuffix]
  | cons p ps ih =>
    rcases List.suffix_cons_iff.mp hsuffix with rfl | hsuffix
    · exact h
    · exact ih (fun a ha => hlinks a (List.mem_cons_of_mem p ha)) (h.tail hlinks) hsuffix

theorem hasStrayLink_iff {nodes : List Node} :
    HasStrayLink nodes ↔ ∃ c after, .plain c :: after <:+ marked nodes ∧
      takeAttribute? (c :: render after) ≠ none := by
  constructor
  · rintro ⟨c, after, hsuffix, a, rest, hread⟩
    refine ⟨c, after, hsuffix, ?_⟩
    rw [takeAttribute?_eq_some_iff.mpr hread]
    simp
  · rintro ⟨c, after, hsuffix, hread⟩
    obtain ⟨⟨a, rest⟩, hread⟩ := Option.ne_none_iff_exists'.mp hread
    exact ⟨c, after, hsuffix, a, rest, takeAttribute?_eq_some_iff.mp hread⟩

def strayAt : List Piece → Bool
  | .plain c :: after => (takeAttribute? (c :: render after)).isSome
  | _ => false

instance (nodes : List Node) : Decidable (HasStrayLink nodes) :=
  decidable_of_iff ((marked nodes).tails.any strayAt = true) <| by
    rw [hasStrayLink_iff, List.any_eq_true]
    constructor
    · rintro ⟨ps, hsuffix, hread⟩
      match ps, hread with
      | .plain c :: after, hread =>
        exact ⟨c, after, (List.mem_tails _ _).mp hsuffix, Option.isSome_iff_ne_none.mp hread⟩
    · rintro ⟨c, after, hsuffix, hread⟩
      exact ⟨_, (List.mem_tails _ _).mpr hsuffix, Option.isSome_iff_ne_none.mpr hread⟩

/-- Whatever the function, rewriting applies it to the links of the tags and changes nothing
else, if and only if no stray link is read in the texts, the tags or the other attributes. -/
theorem rewrite_serialize_iff {nodes : List Node}
    (h : ∀ node ∈ nodes, ∀ a ∈ node.attributes, '\x22' ∉ a.value) :
    (∀ f, rewrite f (serialize nodes) = serialize (nodes.map (Node.mapLinks f))) ↔
      ¬ HasStrayLink nodes := by
  have hlinks : ∀ a, .link a ∈ marked nodes → a.OfTag := fun a => ofTag_of_mem_marked h
  simp only [serialize_eq nodes, ← render_marked]
  rw [hasStrayLink_iff]
  constructor
  · rintro hrewrite ⟨c, after, hsuffix, hread⟩
    have hafter : ∀ a, .link a ∈ after → a.OfTag := fun a ha =>
      hlinks a (hsuffix.subset (List.mem_cons_of_mem _ ha))
    exact hread (RewritesLinks.take_eq_none hafter (RewritesLinks.suffix hlinks hrewrite hsuffix))
  · intro hstray f
    rw [rewrite, pieces_render hlinks]
    intro c after hsuffix
    by_contra hread
    exact hstray ⟨c, after, hsuffix, hread⟩

/-- Names of links in a text and in a title, where no blank stands before them. -/
theorem rewrite_serialize_anchor :
    let nodes (target : Text) : List Node := [.text "(href = x) ",
      .startTag "a" [⟨"title", "src=old"⟩, ⟨"HREF", target⟩], .text "this", .endTag "a"]
    (∀ node ∈ nodes "../a b.md", ∀ a ∈ node.attributes, '\x22' ∉ a.value) ∧
      ¬ HasStrayLink (nodes "../a b.md") ∧
      ∀ f, rewrite f (serialize (nodes "../a b.md")) = serialize (nodes (f "../a b.md")) := by
  intro nodes
  have hvalues : ∀ node ∈ nodes "../a b.md", ∀ a ∈ node.attributes, '\x22' ∉ a.value := by decide
  have hstray : ¬ HasStrayLink (nodes "../a b.md") := by decide +kernel
  exact ⟨hvalues, hstray, (rewrite_serialize_iff hvalues).mpr hstray⟩

/-- A description that holds the name of a link after a space. -/
theorem rewrite_description :
    let nodes : List Node := [.startTag "img" [⟨"alt", "a src=b"⟩]]
    (∀ node ∈ nodes, ∀ a ∈ node.attributes, '\x22' ∉ a.value) ∧
      (∀ f, nodes.map (Node.mapLinks f) = nodes) ∧
      serialize nodes = "<img alt=\x22a src=b\x22>" ∧
      rewrite (fun v => "[" ++ v ++ "]") (serialize nodes) = "<img alt=\x22a src=[b]\x22>" := by
  refine ⟨by decide, fun f => rfl, by decide +kernel, by decide +kernel⟩

end StaticSite.Markup
