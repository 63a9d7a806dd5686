import DesignFacts.Proofs.Declaration.Reading

/-!
# Object declarations as they are written

`Written` is a declaration, `[shared] [class] names : [mode] type [:= default] [;]`, with all its
parts, each as a node with the blanks before it. From it come the children of the node
(`Written.nodes`), its text (`Written.text`) and what is declared (`Written.declared`).

The text is cut at the first colon, at commas and at the last semicolons, wherever they stand. An
extended identifier can hold a comma or a colon, and a default can end with a semicolon of its own.
All other declarations come out of their text as they are written (`Written.ofText_text_iff`).
-/

namespace DesignFacts.ObjectDeclaration

open Text

variable {t : Text}

/-! ## Written declarations -/

/-- A node with the blanks before it. -/
structure Part where
  gap : Text
  node : Node
  isBlanks_gap : IsBlanks gap

/-- The text of a part, with the blanks before it. -/
def Part.text (q : Part) : Text := q.gap ++ q.node.text

/-- The text of some parts. -/
def spell (qs : List Part) : Text := qs.flatMap Part.text

theorem spell_some (q : Part) : spell (some q).toList = q.text := List.append_nil _

theorem Part.trimStart_text_append {q : Part} (h : IsToken q.node.text) (t : Text) :
    trimStart (q.text ++ t) = q.node.text ++ t := by
  rw [text, List.append_assoc, trimStart_blanks_append q.isBlanks_gap,
    trimStart_eq_self (h.head? t)]

/-- A part with blanks before it begins with a blank. -/
theorem Part.head?_text_append {q : Part} (h : q.gap ≠ []) (t : Text) :
    ∀ c ∈ (q.text ++ t).head?, isBlank c = true := by
  rw [text, List.append_assoc]
  exact q.isBlanks_gap.head?_append h _

def fields : List String := ["class", "direction", "type", "default"]

/-- A node stands under none of these fields but possibly its own. -/
def IsUnderOwn (own : Option String) (c : Node) : Prop :=
  ∀ field ∈ fields, c.isUnder field = true → own = some field

structure IsMark (mark : String) (c : Node) : Prop where
  isToken : c.isToken mark = true
  isUnderOwn : IsUnderOwn none c

theorem IsMark.text_eq {mark : String} {c : Node} (h : IsMark mark c)
    (hmark : mark.toList.all (!·.isAlpha) = true) : c.text = mark.toList := by
  have hsame := same_iff.1 (Bool.and_eq_true_iff.1 h.isToken).2
  exact (lower_eq_iff _ hmark).1 (hsame.trans ((lower_eq_iff _ hmark).2 rfl))

/-- An object class, as a token or as a node of its own. -/
structure IsClass (c : Node) : Prop where
  isClass : oneOf classes (lower c.text) = true
  kind : c.named = false ∨ c.kind = .interfaceClass
  isUnderOwn : IsUnderOwn (some "class") c

/-- A declared name: an identifier that opens no declaration. -/
structure IsName (c : Node) : Prop where
  kind : c.kind = .identifier
  isIdentifier : IsIdentifier c.text
  not_opener : oneOf openers (lower c.text) = false
  isUnderOwn : IsUnderOwn none c

/-- A mode, as a token or as a node of its own. -/
structure IsMode (c : Node) : Prop where
  isMode : oneOf modes (lower c.text) = true
  kind : c.named = false ∨ c.kind = .mode
  isUnderOwn : IsUnderOwn (some "direction") c

/-- A type: a construct without colons and semicolons that does not begin with a mode. -/
structure IsType (c : Node) : Prop where
  named : c.named = true
  not_mode : c.kind ≠ .mode
  not_comment : c.kind ≠ .comment
  not_blank : ¬ IsBlanks c.text
  colon_notMem : ':' ∉ c.text
  semicolon_notMem : ';' ∉ c.text
  first_word : ∀ w ∈ (words c.text).head?, oneOf modes (lower w) = false
  isUnderOwn : IsUnderOwn (some "type") c

/-- A default value: a construct that does not end with a semicolon. -/
structure IsValue (c : Node) : Prop where
  named : c.named = true
  not_blank : ¬ IsBlanks c.text
  last : c.text.getLast? ≠ some ';'
  isUnderOwn : IsUnderOwn (some "default") c

/-- A declaration as it is written: `[shared] [class] name, … : [mode] type [:= default] [;]`, with
blanks behind the words that need them. -/
structure Written where
  shared : Option Part
  objectClass : Option Part
  name : Part
  /-- The commas with the names behind them. -/
  others : List (Part × Part)
  colon : Part
  mode : Option Part
  type : Part
  /-- The assignment sign and the value. -/
  default : Option (Part × Part)
  semicolon : Option Part
  /-- The blanks at the end. -/
  last : Text
  isShared : ∀ q ∈ shared, IsMark "shared" q.node
  isClass : ∀ q ∈ objectClass, IsClass q.node
  isName : IsName name.node
  isOther : ∀ q ∈ others, IsMark "," q.1.node ∧ IsName q.2.node
  isColon : IsMark ":" colon.node
  isMode : ∀ q ∈ mode, IsMode q.node
  isType : IsType type.node
  isDefault : ∀ q ∈ default, IsMark ":=" q.1.node ∧ IsValue q.2.node
  isSemicolon : ∀ q ∈ semicolon, IsMark ";" q.node
  isBlanks_last : IsBlanks last
  shared_apart : shared.isSome = true → (objectClass.getD name).gap ≠ []
  class_apart : objectClass.isSome = true → name.gap ≠ []
  mode_apart : mode.isSome = true → type.gap ≠ []
  colon_apart : (mode.getD type).text.head? ≠ some '='

namespace Written

variable (d : Written)

def opening : List Part := d.shared.toList ++ d.objectClass.toList

/-- The names and the commas between them. -/
def nameParts : List Part := d.name :: d.others.flatMap fun q => [q.1, q.2]

def typeParts : List Part := d.mode.toList ++ [d.type]

/-- The default and the semicolon. -/
def endParts : List Part :=
  (d.default.toList.flatMap fun q => [q.1, q.2]) ++ d.semicolon.toList

def parts : List Part := d.opening ++ (d.nameParts ++ d.colon :: (d.typeParts ++ d.endParts))

/-- The children of the node. -/
def nodes : List Node := d.parts.map Part.node

def text : Text := spell d.parts ++ d.last

def names : List Node := d.name.node :: d.others.map (·.2.node)

def declared : ObjectDeclaration where
  names := d.names.map fun c => (c.text, c.line)
  typeText := squash d.type.node.text
  default := d.default.map fun q => squash q.2.node.text
  mode := d.mode.map fun q => lower q.node.text
  objectClass := d.objectClass.map fun q => lower q.node.text
  shared := d.shared.isSome

/-! ### What the text is made of -/

/-- The names as the text shows them before the colon. -/
def namesText : Text :=
  d.name.node.text ++ (spell (d.others.flatMap fun q => [q.1, q.2]) ++ d.colon.gap)

/-- What stands behind the colon. -/
def rest : Text := spell d.typeParts ++ (spell d.endParts ++ d.last)

theorem text_eq :
    d.text = (spell d.opening ++ (d.name.gap ++ d.namesText)) ++ ':' :: d.rest := by
  have hcolon : d.colon.node.text = [':'] := d.isColon.text_eq (by decide)
  simp [text, parts, nameParts, namesText, rest, spell, Part.text, hcolon]

/-- The marks between the names and behind them. -/
theorem exists_mark_namesText (x : Text) :
    ∃ b m u, IsBlanks b ∧ m ∈ [',', ':'] ∧
      d.namesText ++ ':' :: x = d.name.node.text ++ (b ++ m :: u) := by
  cases hothers : d.others with
  | nil =>
    exact ⟨d.colon.gap, ':', x, d.colon.isBlanks_gap, by decide,
      by simp [namesText, hothers, spell]⟩
  | cons q others =>
    have hcomma : q.1.node.text = [','] := (d.isOther q (by simp [hothers])).1.text_eq (by decide)
    refine ⟨q.1.gap, ',', q.2.text ++ (spell (others.flatMap fun q => [q.1, q.2]) ++
      (d.colon.gap ++ ':' :: x)), q.1.isBlanks_gap, by decide, ?_⟩
    simp [namesText, hothers, spell, Part.text, hcomma]

theorem openingWords_text :
    openingWords {} (trim (dropEnd (· == ';') (trim d.text))) =
      (⟨d.declared.objectClass, d.declared.shared⟩, d.namesText ++ ':' :: close d.rest) := by
  -- `R` is what follows the opening words. The three facts take the words away from the back of the
  -- opening to its front.
  let R := d.name.gap ++ (d.namesText ++ ':' :: close d.rest)
  have hname (known : Opening) :
      openingWords known (trimStart R) = (known, d.namesText ++ ':' :: close d.rest) := by
    obtain ⟨b, m, u, hb, hm, hmark⟩ := d.exists_mark_namesText (close d.rest)
    obtain ⟨c, t, ht, hblank, -⟩ := d.isName.isIdentifier.exists_head
    rw [trimStart_blanks_append d.name.isBlanks_gap, hmark, trimStart_eq_self,
      openingWords_name d.isName.isIdentifier d.isName.not_opener hb hm]
    intro x hx
    rw [ht] at hx
    obtain rfl : c = x := Option.some.inj hx
    exact hblank
  have hclass (known : Opening) (hknown : known.objectClass = none) :
      openingWords known (trimStart (spell d.objectClass.toList ++ R)) =
        openingWords { known with objectClass := d.declared.objectClass } (trimStart R) := by
    cases hclass : d.objectClass with
    | none => simp [declared, hclass, spell, ← hknown]
    | some q =>
      have hq := (d.isClass q hclass).isClass
      have htoken : IsToken q.node.text := isToken_of_oneOf (by decide) hq
      have hgap := d.class_apart (by rw [hclass]; rfl)
      rw [spell_some, Part.trimStart_text_append htoken,
        openingWords_class hq (d.name.isBlanks_gap.head?_append hgap _), declared, hclass]
      rfl
  have hshared :
      openingWords {} (trimStart (spell d.shared.toList ++ (spell d.objectClass.toList ++ R))) =
        openingWords { shared := d.declared.shared }
          (trimStart (spell d.objectClass.toList ++ R)) := by
    cases hshared : d.shared with
    | none => simp [declared, hshared, spell]
    | some q =>
      have hq := (Bool.and_eq_true_iff.1 (d.isShared q hshared).isToken).2
      have hgap := d.shared_apart (by rw [hshared]; rfl)
      have hhead : ∀ c ∈ (spell d.objectClass.toList ++ R).head?, isBlank c = true := by
        cases hclass : d.objectClass with
        | none =>
          rw [hclass] at hgap
          exact d.name.isBlanks_gap.head?_append hgap _
        | some q' =>
          rw [hclass] at hgap
          rw [spell_some]
          exact q'.head?_text_append hgap R
      rw [spell_some, Part.trimStart_text_append (isToken_shared hq), openingWords_shared hq hhead,
        declared, hshared]
      rfl
  have hbody : trim (dropEnd (· == ';') (trim d.text)) =
      trimStart (spell d.shared.toList ++ (spell d.objectClass.toList ++ R)) := by
    rw [d.text_eq, trim_dropEnd_colon]
    simp [opening, spell, R]
  rw [hbody, hshared, hclass _ rfl, hname]

/-! ### The names in the text -/

/-- The names between commas are trimmed and come out one by one. -/
theorem map_trim_splitOn {others : List (Part × Part)}
    (hothers : ∀ q ∈ others, IsMark "," q.1.node ∧ IsName q.2.node)
    (hcomma : ∀ q ∈ others, ',' ∉ q.2.node.text) {first gap : Text} (hfirst : ',' ∉ first)
    (hgap : IsBlanks gap) :
    (splitOn ',' (first ++ (spell (others.flatMap fun q => [q.1, q.2]) ++ gap))).map trim =
      trim first :: others.map (·.2.node.text) := by
  induction others generalizing first with
  | nil =>
    have hnot : ',' ∉ first ++ gap := by simp [hfirst, hgap.notMem (c := ',') (by decide)]
    have hspell : first ++ (spell [] ++ gap) = first ++ gap := rfl
    rw [List.flatMap_nil, hspell, splitOn_of_notMem hnot, List.map_singleton,
      trim_append_blanks hgap]
    rfl
  | cons q others ih =>
    obtain ⟨hmark, hname⟩ := hothers q List.mem_cons_self
    have htext : q.1.node.text = [','] := hmark.text_eq (by decide)
    have hnot : ',' ∉ first ++ q.1.gap := by
      simp [hfirst, q.1.isBlanks_gap.notMem (c := ',') (by decide)]
    have hnot' : ',' ∉ q.2.text := by
      simp [Part.text, hcomma q, q.2.isBlanks_gap.notMem (c := ',') (by decide)]
    -- Cut at the first comma: the piece before it is the name in front, and the rest is a shorter
    -- row.
    have hspell : first ++ (spell ((q :: others).flatMap fun q => [q.1, q.2]) ++ gap) =
        (first ++ q.1.gap) ++
          ',' :: (q.2.text ++ (spell (others.flatMap fun q => [q.1, q.2]) ++ gap)) := by
      simp [spell, Part.text, htext]
    rw [hspell, splitOn, splitWith_append_cons (by decide), List.map_append, ← splitOn, ← splitOn,
      splitOn_of_notMem hnot, ih (fun q hq => hothers q (List.mem_cons_of_mem _ hq))
        (fun q hq => hcomma q (List.mem_cons_of_mem _ hq)) hnot', List.map_singleton,
      trim_append_blanks q.1.isBlanks_gap, Part.text, trim_blanks_append q.2.isBlanks_gap,
      hname.isIdentifier.trim_eq]
    rfl

theorem isName_of_mem_names {c : Node} (hc : c ∈ d.names) : IsName c := by
  rcases List.mem_cons.1 hc with rfl | hc
  · exact d.isName
  · obtain ⟨q, hq, rfl⟩ := List.mem_map.1 hc
    exact (d.isOther q hq).2

theorem listed_namesText (hcomma : ∀ c ∈ d.names, ',' ∉ c.text) :
    listed d.namesText = d.names.map Node.text := by
  have hothers : ∀ q ∈ d.others, ',' ∉ q.2.node.text := fun q hq =>
    hcomma q.2.node (List.mem_cons_of_mem _ (List.mem_map_of_mem hq))
  have hnames : (splitOn ',' d.namesText).map trim = d.names.map Node.text := by
    rw [namesText, map_trim_splitOn d.isOther hothers (hcomma _ List.mem_cons_self)
      d.colon.isBlanks_gap, d.isName.isIdentifier.trim_eq, names, List.map_cons, List.map_map]
    rfl
  rw [listed, hnames, List.filter_eq_self]
  intro t ht
  obtain ⟨c, hc, rfl⟩ := List.mem_map.1 ht
  simpa using (d.isName_of_mem_names hc).isIdentifier.ne_nil

/-- Every name stands in the text. -/
theorem exists_namesText_eq {c : Node} (hc : c ∈ d.names) :
    ∃ a b, d.namesText = a ++ (c.text ++ b) := by
  rcases List.mem_cons.1 hc with rfl | hc
  · exact ⟨[], _, rfl⟩
  · obtain ⟨q, hq, rfl⟩ := List.mem_map.1 hc
    obtain ⟨l, r, hsplit⟩ := List.append_of_mem hq
    refine ⟨d.name.node.text ++ (spell (l.flatMap fun q => [q.1, q.2]) ++ (q.1.text ++ q.2.gap)),
      spell (r.flatMap fun q => [q.1, q.2]) ++ d.colon.gap, ?_⟩
    simp [namesText, hsplit, spell, Part.text]

theorem colonsAssign_part {q : Part} (h : ColonsAssign q.node.text) : ColonsAssign q.text :=
  (ColonsAssign.of_notMem (q.isBlanks_gap.notMem (by decide))).append h

theorem colonsAssign_namesText (h : ∀ c ∈ d.names, ColonsAssign c.text) :
    ColonsAssign d.namesText := by
  have hspell : ∀ q ∈ d.others.flatMap (fun q => [q.1, q.2]), ColonsAssign q.text := by
    intro q hq
    obtain ⟨other, hother, hq⟩ := List.mem_flatMap.1 hq
    simp only [List.mem_cons, List.not_mem_nil, or_false] at hq
    rcases hq with rfl | rfl
    · refine colonsAssign_part (.of_notMem ?_)
      rw [(d.isOther other hother).1.text_eq (by decide)]
      decide
    · exact colonsAssign_part (h _ (List.mem_cons_of_mem _ (List.mem_map_of_mem hother)))
  refine (h _ List.mem_cons_self).append (.append ?_ (.of_notMem
    (d.colon.isBlanks_gap.notMem (by decide))))
  generalize d.others.flatMap (fun q => [q.1, q.2]) = qs at hspell
  induction qs with
  | nil => exact .of_notMem List.not_mem_nil
  | cons q qs ih =>
    exact (hspell q List.mem_cons_self).append (ih fun x hx => hspell x (List.mem_cons_of_mem q hx))

/-! ### Behind the colon -/

theorem exists_mem_type : ∃ c ∈ spell d.typeParts, isBlank c = false := by
  obtain ⟨c, hc, hblank⟩ := exists_mem_of_not_isBlanks d.isType.not_blank
  exact ⟨c, by simp [typeParts, spell, Part.text, hc], hblank⟩

/-- No mark stands in the mode and the type. -/
theorem notMem_typeParts {m : Char} (hblank : isBlank m = false) (halpha : m.isAlpha = false)
    (htype : m ∉ d.type.node.text) : m ∉ spell d.typeParts := by
  intro hm
  obtain ⟨q, hq, hm⟩ := List.mem_flatMap.1 hm
  rcases List.mem_append.1 hm with hm | hm
  · exact q.isBlanks_gap.notMem hblank hm
  · rcases List.mem_append.1 hq with hq | hq
    · have hmode := (d.isMode q (Option.mem_toList.1 hq)).isMode
      have hletter := (isAlpha_of_oneOf (by decide) hmode).2 m hm
      rw [halpha] at hletter
      cases hletter
    · obtain rfl := List.mem_singleton.1 hq
      exact htype hm

theorem head?_close_rest : (close d.rest).head? ≠ some '=' := by
  intro h
  obtain ⟨c, u, x, hpart, hrest⟩ :
      ∃ c u x, (d.mode.getD d.type).text = c :: u ∧ d.rest = (d.mode.getD d.type).text ++ x := by
    cases hmode : d.mode with
    | none =>
      have hne : d.type.node.text ≠ [] := by
        rintro hnil
        exact d.isType.not_blank (hnil ▸ isBlanks_nil)
      obtain ⟨c, u, hcons⟩ :=
        List.exists_cons_of_ne_nil (l := d.type.text) (by simp [Part.text, hne])
      exact ⟨c, u, spell d.endParts ++ d.last, hcons, by simp [rest, typeParts, hmode, spell]⟩
    | some q =>
      have hne : q.node.text ≠ [] :=
        (isToken_of_oneOf (by decide) (d.isMode q hmode).isMode).ne_nil
      obtain ⟨c, u, hcons⟩ := List.exists_cons_of_ne_nil (l := q.text) (by simp [Part.text, hne])
      exact ⟨c, u, d.type.text ++ (spell d.endParts ++ d.last), hcons,
        by simp [rest, typeParts, hmode, spell]⟩
  have hhead := head?_close h
  have hapart := d.colon_apart
  rw [hrest, hpart] at hhead
  rw [hpart] at hapart
  exact hapart hhead

/-- Behind a text that does not end with a semicolon, that of the declaration is dropped. -/
theorem close_end (h : t.getLast? ≠ some ';') :
    close (t ++ (spell d.semicolon.toList ++ d.last)) =
      if d.semicolon.isSome then trimEnd t else close t := by
  cases hsemicolon : d.semicolon with
  | none => exact close_append_blanks d.isBlanks_last t
  | some q =>
    have htext : q.node.text = [';'] := (d.isSemicolon q hsemicolon).text_eq (by decide)
    have hspell : spell (some q).toList ++ d.last = q.gap ++ ';' :: d.last := by
      simp [spell, Part.text, htext]
    rw [hspell, close_semicolon h q.isBlanks_gap d.isBlanks_last]
    rfl

/-- The value as it is read from the text. -/
def closedValue (q : Part × Part) : Text := close (q.2.text ++ (spell d.semicolon.toList ++ d.last))

theorem trim_close_rest_none (h : d.default = none) :
    trim (close d.rest) = trim (spell d.typeParts) := by
  have hnot : ';' ∉ spell d.typeParts :=
    d.notMem_typeParts (by decide) (by decide) d.isType.semicolon_notMem
  have hlast {x : Text} (hx : ';' ∉ x) : x.getLast? ≠ some ';' :=
    fun hmem => hx (List.mem_of_getLast? hmem)
  have hrest : d.rest = spell d.typeParts ++ (spell d.semicolon.toList ++ d.last) := by
    simp [rest, endParts, h]
  have hclose : close (spell d.typeParts) = trimEnd (spell d.typeParts) :=
    close_eq_trimEnd (hlast (mt mem_of_mem_trimEnd hnot))
  rw [hrest, d.close_end (hlast hnot), hclose, ite_self, trim_trimEnd]

theorem trim_close_rest_some {q : Part × Part} (h : d.default = some q) :
    trim (close d.rest) =
      (trimStart (spell d.typeParts) ++ q.1.gap) ++ ':' :: '=' :: d.closedValue q := by
  obtain ⟨c, hc, hblank⟩ := d.exists_mem_type
  have htext : q.1.node.text = [':', '='] := (d.isDefault q h).1.text_eq (by decide)
  have hrest : d.rest = (spell d.typeParts ++ (q.1.gap ++ [':'])) ++
      '=' :: (q.2.text ++ (spell d.semicolon.toList ++ d.last)) := by
    simp [rest, endParts, h, spell, Part.text, htext]
  rw [hrest, close_append_cons (by decide) (by decide), ← closedValue, List.append_assoc, trim,
    trimStart_append_of_mem hc hblank, ← List.append_assoc, trimEnd_append_cons (by decide),
    closedValue, close, trimEnd_trimEnd]
  simp

theorem cut_rest :
    cut ":=".toList (trim (close d.rest)) =
      d.default.map fun q => (trimStart (spell d.typeParts) ++ q.1.gap, d.closedValue q) := by
  have hnot : ':' ∉ spell d.typeParts :=
    d.notMem_typeParts (by decide) (by decide) d.isType.colon_notMem
  cases hdefault : d.default with
  | none =>
    rw [d.trim_close_rest_none hdefault]
    exact cut_eq_none_of_notMem (mt mem_of_mem_trim hnot) ['=']
  | some q =>
    have hfront : ':' ∉ trimStart (spell d.typeParts) ++ q.1.gap := by
      rw [List.mem_append]
      rintro (hmem | hmem)
      · exact hnot ((List.dropWhile_sublist _).subset hmem)
      · exact q.1.isBlanks_gap.notMem (by decide) hmem
    rw [d.trim_close_rest_some hdefault]
    show cut (':' :: ['=']) _ = _
    rw [cut_append_of_notMem hfront, cut]
    simp

theorem modeAndType_rest :
    modeAndType (trim (spell d.typeParts)) = (d.declared.mode, squash d.type.node.text) := by
  cases hmode : d.mode with
  | none =>
    have hspell : spell d.typeParts = d.type.gap ++ d.type.node.text := by
      simp [typeParts, hmode, spell, Part.text]
    rw [hspell, trim_blanks_append d.type.isBlanks_gap,
      modeAndType_type d.isType.not_blank d.isType.first_word, declared, hmode]
    rfl
  | some q =>
    have hspell :
        spell d.typeParts = q.gap ++ (q.node.text ++ (d.type.gap ++ d.type.node.text)) := by
      simp [typeParts, hmode, spell, Part.text]
    have hgap := d.mode_apart (by rw [hmode]; rfl)
    rw [hspell, trim_blanks_append q.isBlanks_gap,
      modeAndType_mode (d.isMode q hmode).isMode d.type.isBlanks_gap hgap d.isType.not_blank,
      declared, hmode]
    rfl

/-! ### The declaration in the text -/

/-- A declaration is read from its text up to the names and the end of the default. -/
theorem ofText_text (h : ColonsAssign d.namesText) (line : Nat) :
    ofText d.text line =
      { d.declared with
        names := (listed d.namesText).map (·, line)
        default := (d.default.map fun q => squash (d.closedValue q)).filter (!·.isEmpty) } := by
  have hcolon : cutColon (d.namesText ++ ':' :: close d.rest) = some (d.namesText, close d.rest) :=
    cutColon_eq_some_iff.2 ⟨rfl, h, d.head?_close_rest⟩
  have htype (q : Part × Part) :
      trim (trimStart (spell d.typeParts) ++ q.1.gap) = trim (spell d.typeParts) := by
    rw [trim_append_blanks q.1.isBlanks_gap, trim_trimStart]
  rw [ofText, d.openingWords_text]
  dsimp only
  rw [hcolon]
  dsimp only
  rw [d.cut_rest]
  cases hdefault : d.default with
  | none =>
    rw [Option.map_none]
    dsimp only
    rw [d.trim_close_rest_none hdefault, d.modeAndType_rest]
    rfl
  | some q =>
    rw [Option.map_some]
    dsimp only
    rw [htype, d.modeAndType_rest]
    rfl

/-- The text of a declaration is cut at its own marks only: no name holds a comma or a colon that
assigns nothing, and the declaration has a semicolon if its default ends with one. -/
structure IsClear : Prop where
  comma : ∀ c ∈ d.names, ',' ∉ c.text
  colon : ∀ c ∈ d.names, ColonsAssign c.text
  semicolon : d.semicolon = none →
    ∀ q ∈ d.default, (trimEnd q.2.node.text).getLast? ≠ some ';'

theorem squash_closedValue_iff {q : Part × Part} (hq : d.default = some q) :
    squash (d.closedValue q) = squash q.2.node.text ↔
      (d.semicolon = none → (trimEnd q.2.node.text).getLast? ≠ some ';') := by
  have hvalue := (d.isDefault q hq).2
  obtain ⟨c, hc, hblank⟩ := exists_mem_of_not_isBlanks hvalue.not_blank
  have hlast : q.2.text.getLast? ≠ some ';' := by
    rw [Part.text, List.getLast?_append_of_ne_nil _ (List.ne_nil_of_mem hc)]
    exact hvalue.last
  have hsquash : squash q.2.text = squash q.2.node.text := squash_blanks_append q.2.isBlanks_gap _
  rw [closedValue, d.close_end hlast, ← hsquash]
  cases hsemicolon : d.semicolon with
  | none =>
    have htrim : (trimEnd q.2.text).getLast? = (trimEnd q.2.node.text).getLast? := by
      rw [Part.text, trimEnd_append_of_mem hc hblank, List.getLast?_append_of_ne_nil]
      exact List.ne_nil_of_mem (mem_dropEnd_of_not hblank hc)
    simp only [Option.isSome_none, Bool.false_eq_true, if_false, forall_const]
    rw [squash_close_eq_iff, htrim]
  | some q' => simp [squash_trimEnd]

/-- A default is not blank. -/
theorem isEmpty_squash_value {q : Part × Part} (hq : d.default = some q) :
    (squash q.2.node.text).isEmpty = false := by
  obtain ⟨c, hc, hblank⟩ := exists_mem_of_not_isBlanks (d.isDefault q hq).2.not_blank
  exact isEmpty_squash_of_mem hc hblank

theorem default_filter_iff :
    ((d.default.map fun q => squash (d.closedValue q)).filter fun t => !t.isEmpty) =
        d.declared.default ↔
      (d.semicolon = none → ∀ q ∈ d.default, (trimEnd q.2.node.text).getLast? ≠ some ';') := by
  cases hdefault : d.default with
  | none => simp [declared, hdefault]
  | some q =>
    have hiff := d.squash_closedValue_iff hdefault
    have hempty := d.isEmpty_squash_value hdefault
    simp only [declared, hdefault, Option.map_some, Option.mem_def, Option.some.injEq,
      forall_eq']
    rw [← hiff, Option.filter_eq_some_iff]
    constructor
    · rintro ⟨h, -⟩
      exact Option.some.inj h
    · intro h
      exact ⟨congrArg some h, by simp [hempty]⟩

theorem names_ofText (line : Nat) :
    (ofText d.text line).names =
      ((cutColon (d.namesText ++ ':' :: close d.rest)).map
        fun sides => (listed sides.1).map (·, line)).getD [] := by
  rw [ofText, d.openingWords_text]
  dsimp only
  cases cutColon (d.namesText ++ ':' :: close d.rest) with
  | none => rfl
  | some sides => rfl

end Written

/-- A declaration with all its names on one line. -/
def onLine (d : ObjectDeclaration) (line : Nat) : ObjectDeclaration :=
  { d with names := d.names.map fun n => (n.1, line) }

namespace Written

variable (d : Written)

theorem names_onLine (line : Nat) :
    (d.declared.onLine line).names = (d.names.map Node.text).map (·, line) := by
  simp [onLine, declared]

/-- If the names come out of the text as they are written, it was cut behind them. -/
theorem listed_of_ofText {line : Nat}
    (h : (ofText d.text line).names = (d.declared.onLine line).names) :
    (∀ c ∈ d.names, ',' ∉ c.text) ∧ ColonsAssign d.namesText := by
  rw [d.names_ofText, d.names_onLine] at h
  cases hcut : cutColon (d.namesText ++ ':' :: close d.rest) with
  | none =>
    rw [hcut] at h
    cases h
  | some sides =>
    obtain ⟨left, after⟩ := sides
    rw [hcut] at h
    have hlisted : listed left = d.names.map Node.text :=
      List.map_injective_iff.2 (fun _ _ hab => (Prod.mk.inj hab).1) h
    have hcomma : ∀ c ∈ d.names, ',' ∉ c.text := by
      intro c hc
      refine comma_notMem_of_mem_listed (t := left) ?_
      rw [hlisted]
      exact List.mem_map_of_mem hc
    obtain ⟨hsides, hleft, -⟩ := cutColon_eq_some_iff.1 hcut
    obtain rfl := eq_of_flatMap_compact_listed hsides
      ((d.listed_namesText hcomma).trans hlisted.symm)
    exact ⟨hcomma, hleft⟩

/-- A declaration comes out of its text as it is written if and only if it is clear. -/
theorem ofText_text_iff (line : Nat) :
    ofText d.text line = d.declared.onLine line ↔ d.IsClear := by
  constructor
  · intro h
    obtain ⟨hcomma, hcolons⟩ := d.listed_of_ofText (congrArg ObjectDeclaration.names h)
    rw [d.ofText_text hcolons] at h
    refine ⟨hcomma, fun c hc => ?_, ?_⟩
    · obtain ⟨a, b, hsplit⟩ := d.exists_namesText_eq hc
      rw [hsplit] at hcolons
      exact hcolons.of_infix
        ((d.isName_of_mem_names hc).isIdentifier.getLast?_ne (by decide) (by decide))
    · exact d.default_filter_iff.1 (congrArg ObjectDeclaration.default h)
  · intro h
    rw [d.ofText_text (d.colonsAssign_namesText h.colon), d.listed_namesText h.comma,
      d.default_filter_iff.2 h.semicolon]
    simp [onLine, declared]

end Written

end DesignFacts.ObjectDeclaration
