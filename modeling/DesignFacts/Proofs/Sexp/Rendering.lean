import DesignFacts.Proofs.Sexp.Grammar

/-!
# Written items are read back

An item is written as follows: a list as `(kind item ...)`, a token as a string in quotes, a field
as `name:` in front of its item. Blanks and comments stand between a kind and its items and between
the items; they may stand between all other pieces too (`Renders`).

**Lexemes of a rendering.** Names are atoms, since nothing in a name ends an atom or begins a
comment (`atomAt_name`, `atomAt_field`). Whatever a token says, its escaped text means the token
again (`quotes_escape`).

**Tokens of a rendering.** Whatever follows, going over the lexemes of a rendered item gives tokens
that derive the item (`Renders.lexes`).

Main result: reading the tokens of a rendered item gives the item and leaves no token
(`readFirst_of_renders`).
-/

namespace DesignFacts.Sexp

open Text

/-! ## Writing -/

/-- A run of blanks and of comments, each to the end of its line. -/
inductive Filler : Text → Prop
  | nil : Filler []
  | space {c : Char} {t : Text} : isSpace c = true → Filler t → Filler (c :: t)
  | comment {body t : Text} : '\n' ∉ body → Filler t → Filler ('/' :: '/' :: (body ++ '\n' :: t))

/-- What separates two pieces: blanks and comments, a blank first. -/
inductive Separator : Text → Prop
  | blank {c : Char} {t : Text} : isSpace c = true → Filler t → Separator (c :: t)

/-- What may stand between two pieces that need no separator. -/
def Gap (t : Text) : Prop := t = [] ∨ Separator t

/-- A character of a string, with a backslash before a backslash or a quote. -/
def escape (c : Char) : Text := if c = '\\' ∨ c = '"' then ['\\', c] else [c]

/-- A text in quotes. -/
def quote (s : Text) : Text := '"' :: (s.flatMap escape ++ ['"'])

namespace Item

def field : Item → Option Text
  | token field _ => field
  | list field _ _ => field

mutual

/-- Whether all fields and kinds in an item are names. -/
def isWellNamed : Item → Bool
  | token field _ => field.all isFieldName
  | list field kind items => field.all isFieldName && isFieldName kind && areWellNamed items

def areWellNamed : List Item → Bool
  | [] => true
  | item :: items => isWellNamed item && areWellNamed items

end

end Item

mutual

/-- A text writes an item. -/
inductive Renders : Item → Text → Prop
  | token (s : Text) : Renders (.token none s) (quote s)
  | list (kind : Text) {items : List Item} {gap body gap' : Text} :
      Gap gap → RendersAll items body → Gap gap' →
      Renders (.list none kind items) ('(' :: (gap ++ kind ++ body ++ gap' ++ [')']))
  | field (name : Text) {item : Item} {gap t : Text} :
      item.field = none → Gap gap → Renders item t →
      Renders (item.under name) (name ++ ':' :: (gap ++ t))

/-- A text writes a row of items, each after a separator. -/
inductive RendersAll : List Item → Text → Prop
  | nil : RendersAll [] []
  | cons {item : Item} {items : List Item} {separator t body : Text} :
      Separator separator → Renders item t → RendersAll items body →
      RendersAll (item :: items) (separator ++ t ++ body)

end

/-! ## Names are atoms -/

theorem isIdent_of_mem_name {name : Text} (h : isFieldName name = true) :
    ∀ c ∈ name, isIdent c = true := by
  cases name with
  | nil => exact absurd h (by decide)
  | cons d name =>
    simp only [isFieldName, Bool.and_eq_true, List.all_eq_true] at h
    obtain ⟨hfirst, hrest⟩ := h
    intro c hc
    rcases List.mem_cons.1 hc with rfl | hc
    · rcases Bool.or_eq_true _ _ ▸ hfirst with halpha | hunderscore
      · simp [isIdent, Char.isAlphanum, halpha]
      · simp [isIdent, hunderscore]
    · exact hrest c hc

theorem not_mem_name {name : Text} (h : isFieldName name = true) {c : Char}
    (hc : isIdent c = false) : c ∉ name := by
  intro hmem
  rw [isIdent_of_mem_name h c hmem] at hc
  cases hc

theorem isDelimiter_of_isIdent {c : Char} (h : isIdent c = true) : isDelimiter c = false := by
  have hne (d : Char) (hd : isIdent d = false) : c ≠ d := by
    rintro rfl
    rw [h] at hd
    cases hd
  simp [isDelimiter, isSpace, hne ' ' (by decide), hne '\t' (by decide), hne '\r' (by decide),
    hne '\n' (by decide), hne '(' (by decide), hne ')' (by decide), hne '"' (by decide)]

/-- A name followed by a delimiter is an atom. -/
theorem atomAt_name {name rest : Text} (h : isFieldName name = true)
    (hrest : ∀ c, rest.head? = some c → isDelimiter c = true) : AtomAt name rest where
  ne_nil := by
    rintro rfl
    exact absurd h (by decide)
  undelimited c hc := isDelimiter_of_isIdent (isIdent_of_mem_name h c hc)
  no_comment hslashes := not_mem_name h (by decide) (hslashes.mem (a := '/') (by simp))
  field_ends n more heq _ := absurd (heq ▸ by simp) (not_mem_name h (c := ':') (by decide))
  ends := .inl hrest

theorem fieldOfAtom?_name {name : Text} (h : isFieldName name = true) :
    fieldOfAtom? (name ++ [':']) = some name := by
  simp [fieldOfAtom?, h]

/-- A name with its colon is an atom, whatever follows. -/
theorem atomAt_field {name : Text} (h : isFieldName name = true) (rest : Text) :
    AtomAt (name ++ [':']) rest where
  ne_nil := by simp
  undelimited c hc := by
    rcases List.mem_append.1 hc with hc | hc
    · exact isDelimiter_of_isIdent (isIdent_of_mem_name h c hc)
    · rw [List.mem_singleton.1 hc]
      decide
  no_comment hslashes := by
    have hmem : '/' ∈ name ++ [':'] := hslashes.mem (by simp)
    exact not_mem_name h (c := '/') (by decide) (by simpa using hmem)
  field_ends n more heq _ := by
    rcases List.eq_nil_or_concat more with rfl | ⟨more, d, rfl⟩
    · rfl
    · rw [List.concat_eq_append, ← List.cons_append, ← List.append_assoc] at heq
      have hname : name = n ++ ':' :: more := (List.append_inj' heq rfl).1
      exact absurd (hname ▸ by simp) (not_mem_name h (c := ':') (by decide))
  ends := .inr (by rw [fieldOfAtom?_name h]; rfl)

/-! ## Lexemes of a rendering -/

/-- Escaping keeps the meaning. -/
theorem quotes_escape (s : Text) : Quotes (s.flatMap escape) s := by
  induction s with
  | nil => exact .nil
  | cons c s ih =>
    rw [List.flatMap_cons, escape]
    split
    · exact .escape ih
    · rename_i hplain
      exact .plain (fun h => hplain (.inr h)) (fun h => hplain (.inl h)) ih

theorem Filler.lexes {t : Text} (h : Filler t) (k : Nat) (rest : Text) :
    Lexes k (t ++ rest) [] (k + bytes t) rest := by
  induction h generalizing k with
  | nil => exact .here k rest
  | @space c t hc _ ih =>
    have hspace : Lexeme [c] none (t ++ rest) := .space hc
    have hlexes := Lexes.past hspace (ih (k + bytes [c]))
    simpa [Nat.add_assoc] using hlexes
  | @comment body t hbody _ ih =>
    -- The line feed after a comment is a blank of its own.
    have hfeed : Lexeme ['\n'] none (t ++ rest) := .space (by decide)
    have hcomment : Lexeme ('/' :: '/' :: body) none ('\n' :: (t ++ rest)) :=
      .comment hbody (by simp)
    have hlexes := Lexes.past hcomment
      (.past hfeed (ih (k + bytes ('/' :: '/' :: body) + bytes ['\n'])))
    simpa [Nat.add_assoc] using hlexes

theorem Separator.filler {t : Text} (h : Separator t) : Filler t := by
  obtain ⟨hc, ht⟩ := h
  exact .space hc ht

theorem Gap.filler {t : Text} (h : Gap t) : Filler t := by
  rcases h with rfl | h
  · exact .nil
  · exact h.filler

/-- A separator begins with a delimiter. -/
theorem Separator.head {t : Text} (h : Separator t) (rest : Text) :
    ∀ c, (t ++ rest).head? = some c → isDelimiter c = true := by
  obtain ⟨hc, -⟩ := h
  intro d hd
  obtain rfl := Option.some.inj hd
  simp [isDelimiter, hc]

/-- A kind is followed by a delimiter: a separator or the closing parenthesis. -/
theorem RendersAll.head {items : List Item} {body gap : Text} (h : RendersAll items body)
    (hgap : Gap gap) (rest : Text) :
    ∀ c, (body ++ (gap ++ ')' :: rest)).head? = some c → isDelimiter c = true := by
  cases h with
  | nil =>
    rcases hgap with rfl | hgap
    · intro c hc
      obtain rfl := Option.some.inj hc
      decide
    · exact hgap.head _
  | cons hseparator _ _ =>
    rw [List.append_assoc, List.append_assoc]
    exact hseparator.head _

mutual

/-- The lexemes of a rendered item give tokens that derive it. -/
theorem Renders.lexes : ∀ {item : Item} {t : Text}, Renders item t → item.isWellNamed = true →
    ∀ (k : Nat) (rest : Text),
      ∃ ts, Derives ts item ∧ Lexes k (t ++ rest) ts (k + bytes t) rest
  | _, _, .token s, _, k, rest => by
    have hstring : Lexeme (quote s) (some (.string s)) rest := .string (quotes_escape s)
    exact ⟨[⟨.string s, k⟩], .string, .past hstring (.here _ rest)⟩
  | _, _, @Renders.list kind _ gap body gap' hgap hbody hgap', hnames, k, rest => by
    simp only [Item.isWellNamed, Bool.and_eq_true] at hnames
    obtain ⟨⟨-, hkind⟩, hitems⟩ := hnames
    -- Where the kind and the closing parenthesis stand, counted in bytes from `k`.
    set kindAt := k + bytes ['('] + bytes gap with hkindAt
    set closeAt := kindAt + bytes kind + bytes body + bytes gap' with hcloseAt
    obtain ⟨ts, hall, hlexes⟩ := hbody.lexes hitems (kindAt + bytes kind) (gap' ++ ')' :: rest)
    have hclose := Lexes.past (@Lexeme.closeParen rest) (.here (closeAt + _) rest)
    have hafter := hlexes.trans ((hgap'.filler.lexes _ (')' :: rest)).trans hclose)
    have hatom := Lexes.past (.atom (atomAt_name hkind (hbody.head hgap' rest))) hafter
    have hwhole := Lexes.past .openParen ((hgap.filler.lexes (k + bytes ['(']) _).trans hatom)
    refine ⟨⟨.openParen, k⟩ :: ⟨.atom kind, kindAt⟩ :: (ts ++ [⟨.closeParen, closeAt⟩]), .list hall,
      ?_⟩
    simpa [hcloseAt, hkindAt, Nat.add_assoc] using hwhole
  | _, _, @Renders.field name item gap t hfield hgap h, hnames, k, rest => by
    obtain ⟨hname, hitem⟩ : isFieldName name = true ∧ item.isWellNamed = true := by
      cases item <;> simp_all [Item.under, Item.field, Item.isWellNamed]
    obtain ⟨ts, hderives, hlexes⟩ := h.lexes hitem (k + bytes (name ++ [':']) + bytes gap) rest
    have hafter := (hgap.filler.lexes (k + bytes (name ++ [':'])) (t ++ rest)).trans hlexes
    have hwhole := Lexes.past (.atom (atomAt_field hname _)) hafter
    refine ⟨⟨.atom (name ++ [':']), k⟩ :: ts, .field (fieldOfAtom?_name hname) hderives, ?_⟩
    simpa [Nat.add_assoc] using hwhole

theorem RendersAll.lexes : ∀ {items : List Item} {t : Text}, RendersAll items t →
    Item.areWellNamed items = true → ∀ (k : Nat) (rest : Text),
      ∃ ts, DerivesAll ts items ∧ Lexes k (t ++ rest) ts (k + bytes t) rest
  | _, _, .nil, _, k, rest => ⟨[], .nil, .here k rest⟩
  | _, _, @RendersAll.cons _ _ separator t body hseparator h hbody, hnames, k, rest => by
    simp only [Item.areWellNamed, Bool.and_eq_true] at hnames
    obtain ⟨ts, hderives, hfirst⟩ := h.lexes hnames.1 (k + bytes separator) (body ++ rest)
    obtain ⟨us, hall, hrest⟩ := hbody.lexes hnames.2 (k + bytes separator + bytes t) rest
    refine ⟨ts ++ us, .cons hderives hall, ?_⟩
    have hlexes := (hseparator.filler.lexes k (t ++ (body ++ rest))).trans (hfirst.trans hrest)
    simpa [Nat.add_assoc] using hlexes

end

/-- **Written items are read back.** The tokens of a rendered item are read as that item, and none
of them is left. -/
theorem readFirst_of_renders {item : Item} {t : Text} (hnames : item.isWellNamed = true)
    (h : Renders item t) : (tokenize t >>= readFirst) = .ok (item, []) := by
  obtain ⟨ts, hderives, hlexes⟩ := h.lexes hnames 0 []
  rw [List.append_nil] at hlexes
  rw [tokenize_of_lexes hlexes]
  exact readFirst_eq_ok_iff.2 ⟨ts, by simp, hderives⟩

/-- A list with a field, a comment, and a token that looks like other pieces. -/
theorem readFirst_of_renders_list :
    let item : Item := .list (some "key".toList) "kind".toList [.token none "\\\"):// é".toList]
    let t := "key:(kind\t// \"(\n\"\\\\\\\"):// é\" )".toList
    item.isWellNamed = true ∧ Renders item t ∧ (tokenize t >>= readFirst) = .ok (item, []) := by
  have hcomment : Filler "// \"(\n".toList := @Filler.comment " \"(".toList _ (by decide) .nil
  have hseparator : Separator "\t// \"(\n".toList := .blank (by decide) hcomment
  have hlist := Renders.list "kind".toList (.inl rfl)
    (.cons hseparator (.token "\\\"):// é".toList) .nil) (.inr (.blank (c := ' ') (by decide) .nil))
  have hfield := Renders.field "key".toList rfl (.inl rfl) hlist
  exact ⟨by decide, hfield, readFirst_of_renders (by decide) hfield⟩

end DesignFacts.Sexp
