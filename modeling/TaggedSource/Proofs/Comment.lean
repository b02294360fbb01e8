/-
Markers as comments, and search in a row of comments and plain texts.

A comment begins with `/*` and ends with the next slash. A plain text
opens no comment and closes none, neither by itself nor together with its
neighbours. So in a row of comments and plain texts, whatever their order,
a comment begins only where one of the row begins: searching the row for a
comment is looking it up in the list (`cut?_flatten`,
`cut?_flatten_eq_none`). Cutting a stretch out of a row leaves a row.

The tokens of a proper feature are comments, and so are the two guard
sentinels. A token tells its feature and mark (`Feature.token_inj`), and no
token is a sentinel.
-/
import TaggedSource.Proofs.Search
import TaggedSource.Strip

namespace TaggedSource

-- ====================================================== the vocabulary

/-- A text that stands between comments and has no part in any: it holds
no `/*`, does not begin with a star and does not end with a slash. -/
def IsPlain (t : Text) : Prop :=
  ¬ text "/*" <:+: t ∧ t.head? ≠ some '*' ∧ t.getLast? ≠ some '/'

instance (t : Text) : Decidable (IsPlain t) := inferInstanceAs (Decidable (_ ∧ _))

/-- A text that opens a comment and ends with the next slash. -/
def IsComment (t : Text) : Prop :=
  ∃ inner, t = '/' :: '*' :: inner ++ ['/'] ∧ '/' ∉ inner

/-- A piece of a row. -/
def IsPiece (t : Text) : Prop := IsPlain t ∨ IsComment t

/-- A row of comments and plain texts. -/
def IsRow (row : List Text) : Prop := ∀ p ∈ row, IsPiece p

@[simp]
theorem isRow_nil : IsRow [] := fun _ h => absurd h List.not_mem_nil

@[simp]
theorem isRow_cons {p : Text} {row : List Text} :
    IsRow (p :: row) ↔ IsPiece p ∧ IsRow row := List.forall_mem_cons

@[simp]
theorem isRow_append {row other : List Text} :
    IsRow (row ++ other) ↔ IsRow row ∧ IsRow other := List.forall_mem_append

theorem IsComment.ne_nil {t : Text} (h : IsComment t) : t ≠ [] := by
  obtain ⟨inner, rfl, -⟩ := h
  exact List.cons_ne_nil _ _

/-- A comment is no plain text. -/
theorem IsComment.not_isPlain {t : Text} (h : IsComment t) : ¬ IsPlain t := by
  obtain ⟨inner, rfl, -⟩ := h
  intro hplain
  exact hplain.1 ⟨[], inner ++ ['/'], rfl⟩

-- ==================================================== where comments begin

/-- The part of a text before a character, if it does not hold it itself,
is told by the text. -/
theorem append_cons_inj {c : Char} {s s' t t' : Text} (hs : c ∉ s) (hs' : c ∉ s')
    (h : s ++ c :: t = s' ++ c :: t') : s = s' ∧ t = t' := by
  induction s generalizing s' with
  | nil =>
      cases s' with
      | nil => exact ⟨rfl, (List.cons.inj h).2⟩
      | cons d s' => exact absurd ((List.cons.inj h).1 ▸ List.mem_cons_self) hs'
  | cons d s ih =>
      cases s' with
      | nil => exact absurd ((List.cons.inj h).1 ▸ List.mem_cons_self) hs
      | cons e s' =>
          obtain ⟨rfl, htail⟩ := List.cons.inj h
          obtain ⟨rfl, rfl⟩ := ih (fun hc => hs (List.mem_cons_of_mem d hc))
            (fun hc => hs' (List.mem_cons_of_mem d hc)) htail
          exact ⟨rfl, rfl⟩

/-- A comment begins with a slash and a star. -/
theorem IsComment.lead {t u : Text} (h : IsComment t) (hlead : t <+: u) :
    ∃ v, u = '/' :: '*' :: v := by
  obtain ⟨inner, rfl, -⟩ := h
  obtain ⟨rest, rfl⟩ := hlead
  exact ⟨inner ++ ['/'] ++ rest, by simp⟩

/-- A comment that begins where another one begins is that one: both end
with the next slash. -/
theorem IsComment.eq_of_lead {t u rest : Text} (ht : IsComment t) (hu : IsComment u)
    (hlead : t <+: u ++ rest) : t = u := by
  obtain ⟨x, rfl, hx⟩ := ht
  obtain ⟨y, rfl, hy⟩ := hu
  obtain ⟨more, hmore⟩ := hlead
  have htails : x ++ '/' :: more = y ++ '/' :: rest := by
    simpa using hmore
  obtain ⟨rfl, -⟩ := append_cons_inj hx hy htails
  rfl

/-- No comment begins in a plain text, unless a star follows it. -/
theorem IsPlain.not_lead {t stretch rest : Text} (ht : IsComment t)
    (hplain : IsPlain stretch) :
    ∀ s, s <:+ stretch → s ≠ [] → ¬ t <+: s ++ rest := by
  intro s hs hne hlead
  obtain ⟨v, hv⟩ := ht.lead hlead
  cases s with
  | nil => exact absurd rfl hne
  | cons c s =>
      obtain ⟨rfl, htail⟩ := List.cons.inj hv
      cases s with
      | nil =>
          -- the slash would be the last character of the plain text
          obtain ⟨u, rfl⟩ := hs
          exact hplain.2.2 List.getLast?_concat
      | cons d s =>
          obtain ⟨rfl, -⟩ := List.cons.inj htail
          refine hplain.1 (List.IsInfix.trans ?_ hs.isInfix)
          exact ⟨[], s, rfl⟩

/-- No other comment begins in a comment, unless a star follows it. -/
theorem IsComment.not_lead {t u rest : Text} (ht : IsComment t) (hu : IsComment u)
    (hne : u ≠ t) (hrest : rest.head? ≠ some '*') :
    ∀ s, s <:+ u → s ≠ [] → ¬ t <+: s ++ rest := by
  intro s hs hsne hlead
  obtain ⟨v, hv⟩ := ht.lead hlead
  obtain ⟨inner, hinner, hslash⟩ := id hu
  have hwhole : u = '/' :: ('*' :: inner ++ ['/']) := hinner
  rcases List.suffix_cons_iff.1 (hwhole ▸ hs) with hall | hlater
  · exact hne (ht.eq_of_lead hu (hwhole ▸ hall ▸ hlead)).symm
  · -- behind its first character the comment's only slash is its last
    rcases List.suffix_concat_iff.1 hlater with hnil | ⟨w, rfl, hw⟩
    · exact hsne hnil
    · cases w with
      | nil =>
          rw [List.nil_append, List.singleton_append] at hv
          rw [(List.cons.inj hv).2] at hrest
          exact hrest rfl
      | cons c w =>
          have hc : c = '/' := (List.cons.inj hv).1
          have hmem : '/' ∈ '*' :: inner := hw.subset (hc ▸ List.mem_cons_self)
          rcases List.mem_cons.1 hmem with hstar | hin
          · exact absurd hstar (by decide)
          · exact hslash hin

-- ====================================================== search in a row

/-- A row does not begin with a star. -/
theorem IsRow.head?_flatten_ne {row : List Text} (hrow : IsRow row) :
    row.flatten.head? ≠ some '*' := by
  induction row with
  | nil => simp
  | cons p row ih =>
      obtain ⟨hp, hrest⟩ := isRow_cons.1 hrow
      rw [List.flatten_cons]
      rcases hp with hplain | ⟨inner, rfl, -⟩
      · cases p with
        | nil => exact ih hrest
        | cons c p => exact hplain.2.1
      · simp

/-- Searching a row for a comment passes over every other piece. -/
theorem cut?_flatten_cons {t p : Text} {row : List Text} (ht : IsComment t)
    (hp : IsPiece p) (hrow : IsRow row) (hne : p ≠ t) :
    Text.cut? t (p :: row).flatten
      = (Text.cut? t row.flatten).map fun (before, after) => (p ++ before, after) := by
  rw [List.flatten_cons]
  apply Text.cut?_append_of_skip
  rcases hp with hplain | hcomment
  · exact hplain.not_lead ht
  · exact ht.not_lead hcomment hne hrow.head?_flatten_ne

/-- Searching for a comment passes over a row that does not hold it. -/
theorem cut?_flatten_append {t : Text} {row others : List Text} (ht : IsComment t)
    (hrow : IsRow row) (hothers : IsRow others) (hmem : t ∉ row) :
    Text.cut? t (row ++ others).flatten
      = (Text.cut? t others.flatten).map fun (before, after) => (row.flatten ++ before, after) := by
  induction row with
  | nil =>
      rw [List.nil_append]
      cases Text.cut? t others.flatten <;> rfl
  | cons p row ih =>
      obtain ⟨hp, hrow⟩ := isRow_cons.1 hrow
      have hne : p ≠ t := fun h => hmem (h ▸ List.mem_cons_self)
      have ih := ih hrow fun h => hmem (List.mem_cons_of_mem p h)
      rw [List.cons_append, cut?_flatten_cons ht hp (isRow_append.2 ⟨hrow, hothers⟩) hne, ih]
      cases Text.cut? t others.flatten <;> simp

/-- A comment that is no piece of a row does not occur in it. -/
theorem cut?_flatten_eq_none {t : Text} {row : List Text} (ht : IsComment t)
    (hrow : IsRow row) (hmem : t ∉ row) :
    Text.cut? t row.flatten = none := by
  have hcut := cut?_flatten_append ht hrow isRow_nil hmem
  rw [List.append_nil, List.flatten_nil, Text.cut?_nil ht.ne_nil] at hcut
  exact hcut

/-- A comment is found in a row where it stands first. -/
theorem cut?_flatten {t : Text} {before after : List Text} (ht : IsComment t)
    (hbefore : IsRow before) (hafter : IsRow after) (hmem : t ∉ before) :
    Text.cut? t (before ++ t :: after).flatten
      = some (before.flatten, after.flatten) := by
  have hrest : IsRow (t :: after) := isRow_cons.2 ⟨.inr ht, hafter⟩
  rw [cut?_flatten_append ht hbefore hrest hmem, List.flatten_cons, Text.cut?_self_append]
  simp

/-- A comment that does not occur in a row is no piece of it. -/
theorem not_mem_of_not_occursIn {t : Text} {row : List Text} (ht : IsComment t) (hrow : IsRow row)
    (h : Text.occursIn t row.flatten = false) : t ∉ row := by
  intro hmem
  obtain ⟨before, after, rfl, hfirst⟩ := List.eq_append_cons_of_mem hmem
  obtain ⟨hbefore, hrest⟩ := isRow_append.1 hrow
  rw [Text.occursIn, cut?_flatten ht hbefore (isRow_cons.1 hrest).2 hfirst] at h
  cases h

-- ============================================================== tokens

/-- A feature whose tokens can be told from all others: its id holds no
dash and no slash, its eyecatcher no slash. -/
structure Feature.Proper (feature : Feature) : Prop where
  /-- The dash behind the id is the first one. -/
  dash : '-' ∉ feature.id
  /-- The id does not end the token's comment. -/
  slash : '/' ∉ feature.id
  /-- The eyecatcher does not end the token's comment. -/
  eyecatcher : '/' ∉ feature.eyecatcher

instance (feature : Feature) : Decidable feature.Proper :=
  decidable_of_iff
    ('-' ∉ feature.id ∧ '/' ∉ feature.id ∧ '/' ∉ feature.eyecatcher)
    ⟨fun h => ⟨h.1, h.2.1, h.2.2⟩, fun h => ⟨h.dash, h.slash, h.eyecatcher⟩⟩

/-- What a marker's lead holds behind the slash and the star. -/
def markerName : Text := text "Piranhito?@-"

/-- A token, with its two slashes apart from the rest. -/
theorem Feature.token_eq (feature : Feature) (mark : Mark) :
    feature.token mark = '/' :: '*' ::
      (markerName ++ feature.id ++ '-' :: mark.letter :: feature.eyecatcher ++ ['*'])
        ++ ['/'] := by
  have hlead : markerLead = '/' :: '*' :: markerName := rfl
  have htail : markerTail = ['*', '/'] := rfl
  rw [token, hlead, htail]
  simp

/-- The tokens of a proper feature are comments. -/
theorem Feature.Proper.isComment_token {feature : Feature} (h : feature.Proper)
    (mark : Mark) : IsComment (feature.token mark) := by
  refine ⟨_, feature.token_eq mark, ?_⟩
  have hname : '/' ∉ markerName := by decide
  have hletter : '/' ≠ mark.letter := by cases mark <;> decide
  simp [hname, hletter, h.slash, h.eyecatcher]

theorem isComment_guardOpen : IsComment guardOpen :=
  ⟨text "Piranhito?@-@FuncBegin@*", rfl, by decide⟩

theorem isComment_guardClose : IsComment guardClose :=
  ⟨text "Piranhito?@-@FuncEnd@*", rfl, by decide⟩

private theorem Mark.letter_inj {m n : Mark} (h : m.letter = n.letter) : m = n := by
  cases m <;> cases n <;> first | rfl | exact absurd h (by decide)

/-- A token tells its feature and its mark. -/
theorem Feature.token_inj {f g : Feature} {m n : Mark} (hf : f.Proper) (hg : g.Proper)
    (h : f.token m = g.token n) : f = g ∧ m = n := by
  have hbody : f.id ++ '-' :: (m.letter :: f.eyecatcher ++ ['*', '/'])
      = g.id ++ '-' :: (n.letter :: g.eyecatcher ++ ['*', '/']) := by
    rw [token_eq, token_eq] at h
    simpa using h
  obtain ⟨hid, hrest⟩ := append_cons_inj hf.dash hg.dash hbody
  obtain ⟨hletter, heye⟩ := List.cons.inj hrest
  have heye : f.eyecatcher = g.eyecatcher := List.append_cancel_right heye
  refine ⟨?_, Mark.letter_inj hletter⟩
  cases f
  cases g
  simp_all

/-- Tokens of different features are different. -/
theorem Feature.token_ne_token {f g : Feature} (hf : f.Proper) (hg : g.Proper) (hne : f ≠ g)
    (m n : Mark) : f.token m ≠ g.token n :=
  fun h => hne (token_inj hf hg h).1

/-- No token is a comment without a dash behind the marker's lead. -/
theorem Feature.token_ne (feature : Feature) (mark : Mark) {t : Text} (h : '-' ∉ t) :
    feature.token mark ≠ markerLead ++ t := by
  intro heq
  have htail : feature.id ++ ['-', mark.letter] ++ feature.eyecatcher ++ markerTail = t := by
    rw [token, List.append_assoc, List.append_assoc, List.append_assoc] at heq
    simpa using List.append_cancel_left heq
  exact h (htail ▸ by simp)

/-- No token is the sentinel in front of a fallback. -/
theorem Feature.token_ne_guardOpen (feature : Feature) (mark : Mark) :
    feature.token mark ≠ guardOpen :=
  feature.token_ne mark (t := text "@FuncBegin@*/") (by decide)

/-- No token is the sentinel behind a fallback. -/
theorem Feature.token_ne_guardClose (feature : Feature) (mark : Mark) :
    feature.token mark ≠ guardClose :=
  feature.token_ne mark (t := text "@FuncEnd@*/") (by decide)

end TaggedSource
