import DesignFacts.Proofs.Generate.Header
import DesignFacts.Proofs.Sexp.Growth

/-!
# The two shapes of a generate statement

The scheme of a generate statement may stand in a node of its own,
`(generate_statement label : (for_generate ...))`, or its parts directly in the statement.

**Pages.** Both shapes are written alike, so the nodes of label, colon and scheme parts are the same
ones (`GenerateParts.grow_item`).

**Text.** In the flat shape the text of the scheme begins with the label. An extended identifier may
have the word `in` in it, and then the range of a `for` scheme would begin there.

Main result: the headers of the two shapes are equal, if the scheme is no `for` scheme, a node holds
its range, or no word of the label after the first one is `in` (`GenerateParts.ofNode_item`).
-/

namespace DesignFacts.Sexp

open Text Node

/-! ## Gaps between tokens -/

namespace Page

theorem text_space_eq (p : Page) : p.space.text = p.text ++ [' '] ∨
    p.space.text = p.text ∧ (p.text = [] ∨ p.text.getLast? = some '\n') := by
  unfold space
  split
  · rename_i hwritten
    exact .inr ⟨rfl, .inl (by rw [text, hwritten, List.reverse_nil])⟩
  · rename_i c rest hwritten
    split
    · rename_i hc
      refine .inr ⟨rfl, .inr ?_⟩
      rw [text, List.getLast?_reverse, hwritten, List.head?_cons, beq_iff_eq.1 hc]
    · exact .inl (p.text_write [' '])

/-- What stands between two tokens on a page separates their words. -/
theorem exists_gap (p : Page) (t : Text) : ∃ gap : Text,
    (p.token t).space.text = p.space.text ++ t ++ gap ∧
      ∀ more, words (t ++ gap ++ more) = words t ++ words more := by
  have hblank : ∀ c, isBlank c = true →
      ∀ more, words (t ++ [c] ++ more) = words t ++ words more := by
    intro c hc more
    rw [List.append_assoc, List.singleton_append, words_append_cons hc]
  by_cases ht : t = [';']
  · refine ⟨['\n'], ?_, hblank '\n' (by decide)⟩
    subst ht
    show ((p.space.write [';']).write ['\n']).text = _
    rw [text_write, text_write]
  have htoken : p.token t = p.space.write t := by
    rw [token, beq_eq_false_iff_ne.2 ht]
    rfl
  rw [htoken]
  -- A space is written unless the page is empty or at the start of a line.
  rcases (p.space.write t).text_space_eq with hspace | ⟨hsame, hline⟩
  · exact ⟨[' '], by rw [hspace, text_write], hblank ' ' (by decide)⟩
  · refine ⟨[], by rw [hsame, text_write, List.append_nil], fun more => ?_⟩
    rw [text_write, List.append_eq_nil_iff, List.getLast?_append, Option.or_eq_some_iff] at hline
    rw [List.append_nil]
    by_cases hempty : t = []
    · rw [hempty]
      rfl
    · have hend : t.getLast? = some '\n' := by
        rcases hline with hline | hline | hline
        · exact absurd hline.2 hempty
        · exact hline
        · exact absurd (List.getLast?_eq_none_iff.1 hline.1) hempty
      obtain ⟨front, rfl⟩ := List.getLast?_eq_some_iff.1 hend
      have hfront := words_append_cons (c := '\n') (by decide) front
      rw [List.append_assoc, List.singleton_append, hfront, hfront []]
      simp [words, splitWith]

end Page

/-! ## Parts of a statement -/

/-- The parts of a generate statement with a label. -/
structure GenerateParts where
  labelKind : Text
  labelTokens : List Item
  /-- The scheme. -/
  word : String
  /-- The keyword of the scheme, in any letter case. -/
  keyword : Text
  header : List Item
  body : List Item
  labelKind_eq : Kind.ofTag (String.ofList labelKind) = .identifier
  labelTokens_plain : labelTokens.all Item.isPlainToken = true
  /-- The label is more than blanks and colons. -/
  label_spelled : ∃ c ∈ leafText labelKind labelTokens, c ≠ ':' ∧ isBlank c = false
  word_mem : word ∈ ["for", "if", "case"]
  keyword_isWord : isWord keyword word = true
  header_isList : ∃ item ∈ header, item.isList = true
  /-- No other generate statement stands directly in header or body without a statement around. -/
  isScheme_eq : ∀ item ∈ header ++ body, item.kind.isScheme = false

namespace GenerateParts

variable (g : GenerateParts)

def labelText : Text := leafText g.labelKind g.labelTokens

def label : Item := .list (some "label".toList) g.labelKind g.labelTokens

def schemeItems : List Item :=
  .token none g.keyword :: g.header ++ .token none "generate".toList :: g.body ++
    [.token none "end".toList, .token none "generate".toList, .token none ";".toList]

/-- The scheme in a node of its own. -/
def schemeItem : Item := .list none (g.word ++ "_generate").toList g.schemeItems

/-- The statement, with its scheme wrapped in a node or not. -/
def item (wrapped : Bool) : Item :=
  .list none "generate_statement".toList
    (g.label :: .token none ":".toList :: if wrapped then [g.schemeItem] else g.schemeItems)

/-- Whether a node holds the range of the scheme, so that it is not looked for in the text. -/
def hasRangeNode : Bool :=
  g.schemeItems.any (·.field.map String.ofList == some "range") ||
    (g.schemeItems.takeWhile fun item => !item.isWordToken "generate").any (·.kind == .range)

def schemePage (p : Page) : Page := (p.token g.labelText).token ":".toList

def schemeRow (source : Text) (p : Page) : List Node :=
  Item.growAll source (g.schemePage p) g.schemeItems

variable {g} {source : Text} {p : Page}

theorem not_plain_schemeItems : ¬ g.schemeItems.all Item.isPlainToken = true := by
  obtain ⟨item, hitem, hlist⟩ := g.header_isList
  intro hplain
  have htoken := List.all_eq_true.1 hplain item (by simp [schemeItems, hitem])
  cases item with
  | token => cases hlist
  | list => cases htoken

theorem not_plain_cons_label (items : List Item) :
    ¬ (g.label :: items).all Item.isPlainToken = true := by
  intro hplain
  cases List.all_eq_true.1 hplain g.label List.mem_cons_self

theorem write_label : g.label.write p = p.token g.labelText := by
  rw [label, Item.write, if_pos g.labelTokens_plain]
  rfl

/-- Both shapes are written alike. -/
theorem write_item (wrapped : Bool) :
    (g.item wrapped).write p = Item.writeAll (g.schemePage p) g.schemeItems := by
  rw [item, Item.write, if_neg (not_plain_cons_label _), Item.writeAll, write_label, Item.writeAll,
    Item.write]
  cases wrapped with
  | false => rfl
  | true =>
    show Item.write (g.schemePage p) g.schemeItem = _
    rw [schemeItem, Item.write, if_neg not_plain_schemeItems]

theorem grow_schemeItem : g.schemeItem.grow source (g.schemePage p) =
    trunk source (g.word ++ "_generate").toList none (g.schemeRow source p) := by
  rw [schemeItem, Item.grow, if_neg not_plain_schemeItems, schemeRow]

theorem grow_item (wrapped : Bool) : (g.item wrapped).grow source p =
    trunk source "generate_statement".toList none
      (g.label.grow source p :: (Item.token none ":".toList).grow source (p.token g.labelText) ::
        if wrapped then [g.schemeItem.grow source (g.schemePage p)] else g.schemeRow source p) := by
  conv_lhs =>
    rw [item, Item.grow, if_neg (not_plain_cons_label _), Item.growAll, write_label, Item.growAll,
      Item.write]
  cases wrapped <;> rfl

/-! ## The header -/

theorem isPassed_label : (g.label.grow source p).IsPassed where
  children_eq := by
    rw [label, Item.grow, if_pos g.labelTokens_plain]
    rfl
  field_eq := .inr (by rw [Item.field_grow]; rfl)
  isScheme_eq := by
    rw [Item.kind_grow]
    exact congrArg Kind.isScheme g.labelKind_eq
  kind_ne := by
    rw [Item.kind_grow]
    intro hrange
    cases g.labelKind_eq.symm.trans hrange
  isToken_eq := by
    intro word _
    rw [isToken, Item.named_grow]
    rfl

theorem isPassed_colon {p : Page} (htext : (p.token ":".toList).text <+: source) :
    ((Item.token none ":".toList).grow source p).IsPassed where
  children_eq := rfl
  field_eq := .inl rfl
  isScheme_eq := rfl
  kind_ne := by rw [Item.kind_grow]; exact Kind.noConfusion
  isToken_eq := by
    have hwrite : ((Item.token none ":".toList).write p).text <+: source := htext
    simp only [Item.isToken_grow hwrite]
    decide

theorem label?_item (wrapped : Bool) (htext : (p.token g.labelText).text <+: source) :
    ((g.item wrapped).grow source p).label? =
      some (trim (dropEnd (· == ':') (trim g.labelText))) := by
  have hlabel : (g.label.grow source p).isUnder "label" = true := by
    rw [isUnder, Item.field_grow]
    rfl
  have htrimmed : (g.label.grow source p).trimmed = trim g.labelText := by
    rw [label, Item.grow, if_pos g.labelTokens_plain]
    exact congrArg trim (Cell.text_link (covers_leaf p _ true _ _ htext) [])
  have hchild : ((g.item wrapped).grow source p).childUnder "label" =
      some (g.label.grow source p) := by
    rw [grow_item]
    exact List.find?_cons_of_pos hlabel
  obtain ⟨c, hc, hcolon, hblank⟩ := g.label_spelled
  have hmem : c ∈ trim (dropEnd (· == ':') (trim g.labelText)) :=
    mem_trim_of_not hblank (mem_dropEnd_of_not (by simpa using hcolon) (mem_trim_of_not hblank hc))
  rw [label?, hchild, Option.map_some, htrimmed, Option.filter_some, if_pos]
  simpa using List.ne_nil_of_mem hmem

/-- The text of a flat statement has the words of the label and a colon before those of the
scheme. -/
theorem words_text_item (htext : (Item.writeAll (g.schemePage p) g.schemeItems).text <+: source) :
    (∃ more, (g.schemeItem.grow source (g.schemePage p)).text = g.keyword ++ more) ∧
      words ((g.item false).grow source p).text = words g.labelText ++
        [':'] :: words (g.schemeItem.grow source (g.schemePage p)).text := by
  obtain ⟨gap, hgap, hwords⟩ := p.exists_gap g.labelText
  obtain ⟨gap', hgap', hwords'⟩ := (p.token g.labelText).exists_gap ":".toList
  set front := g.labelText ++ gap ++ (":".toList ++ gap')
  have hpage : (g.schemePage p).space.text = p.space.text ++ front := by
    rw [schemePage, hgap', hgap]
    simp [front]
  have hlength : (g.schemePage p).space.length = bytes p.space.text + bytes front := by
    rw [← Page.bytes_text, hpage, bytes_append]
  -- The source reaches to the keyword of the scheme, and the scheme beyond it.
  obtain ⟨rest, hsource⟩ : ∃ rest, (g.schemePage p).space.text ++ g.keyword ++ rest = source :=
    ((g.schemePage p).text_token g.keyword).trans ((Item.text_writeAll _ _).trans htext)
  obtain ⟨d, hd⟩ : ∃ d, (g.schemeRow source p).getLast? = some d :=
    ⟨_, List.getLast?_eq_some_getLast (List.cons_ne_nil _ _)⟩
  have hstop : (g.schemePage p).space.length + bytes g.keyword ≤ d.stop :=
    stop_le_stop_growAll htext rfl hd
  have hscheme : (g.schemeItem.grow source (g.schemePage p)).text = g.keyword ++
      takeBytes (d.stop - ((g.schemePage p).space.length + bytes g.keyword)) rest := by
    rw [grow_schemeItem, ← Page.bytes_text]
    exact text_trunk hsource rfl hd (Page.bytes_text _).symm (by rwa [Page.bytes_text])
  have hstatement : ((g.item false).grow source p).text = front ++
      (g.schemeItem.grow source (g.schemePage p)).text := by
    have hlast : (g.label.grow source p ::
        (Item.token none ":".toList).grow source (p.token g.labelText) ::
          g.schemeRow source p).getLast? = some d := by
      rw [List.getLast?_cons, List.getLast?_cons, hd]
      rfl
    have hstart : (g.label.grow source p).start = bytes p.space.text := by
      rw [label, Item.grow, if_pos g.labelTokens_plain, Page.bytes_text]
      rfl
    have hfront : p.space.text ++ (front ++ g.keyword) ++ rest = source := by
      rw [← hsource, hpage, List.append_assoc p.space.text front]
    rw [grow_item, hscheme, hlength, ← List.append_assoc, Nat.add_assoc, ← bytes_append]
    exact text_trunk hfront rfl hlast hstart (by rw [bytes_append]; omega)
  refine ⟨⟨_, hscheme⟩, ?_⟩
  rw [hstatement, List.append_assoc, hwords, hwords']
  rfl

/-- The keyword says which scheme it is. -/
theorem keywordScheme?_keyword
    (htext : ((g.schemePage p).token g.keyword).text <+: source) :
    ((Item.token none g.keyword).grow source (g.schemePage p)).keywordScheme? =
      some g.schemeItem.kind := by
  have hkeyword := g.keyword_isWord
  have hkind : g.schemeItem.kind = Kind.ofTag (String.ofList (g.word ++ "_generate").toList) := rfl
  have hword := g.word_mem
  have hwrite : ((Item.token none g.keyword).write (g.schemePage p)).text <+: source := htext
  simp only [keywordScheme?, Item.isToken_grow hwrite, Item.isWordToken, hkind]
  simp only [List.mem_cons, List.not_mem_nil, or_false] at hword
  rcases hword with hword | hword | hword <;> rw [hword] at hkeyword ⊢
  · rw [if_pos hkeyword]
    decide
  · have hfor : isWord g.keyword "for" = false := not_isWord_of_isWord hkeyword (by decide)
    have hcase : isWord g.keyword "case" = false := not_isWord_of_isWord hkeyword (by decide)
    rw [hfor, hcase, hkeyword]
    decide
  · have hfor : isWord g.keyword "for" = false := not_isWord_of_isWord hkeyword (by decide)
    rw [hfor, if_neg Bool.false_ne_true, if_pos hkeyword]
    decide

theorem word_eq_for (h : g.schemeItem.kind = .forGenerate) : g.word = "for" := by
  have hword := g.word_mem
  change Kind.ofTag (String.ofList (g.word ++ "_generate").toList) = .forGenerate at h
  revert hword h
  generalize g.word = word
  revert word
  decide

theorem isScheme_schemeItem : g.schemeItem.kind.isScheme = true := by
  have hword := g.word_mem
  show (Kind.ofTag (String.ofList (g.word ++ "_generate").toList)).isScheme = true
  revert hword
  generalize g.word = word
  revert word
  decide

theorem isScheme_schemeRow : ∀ c ∈ g.schemeRow source p, c.kind.isScheme = false := by
  intro c hc
  obtain ⟨item, hitem, q, -, rfl⟩ := Item.exists_of_mem_growAll hc
  rw [Item.kind_grow]
  cases item with
  | token => rfl
  | list field kind items => exact g.isScheme_eq _ (by simpa [schemeItems] using hitem)

/-- A range in the text of the scheme is found behind the label. -/
theorem rangeInText?_item (htext : (Item.writeAll (g.schemePage p) g.schemeItems).text <+: source)
    (hword : g.word = "for") (hlabel : ∀ w ∈ (words g.labelText).tail, isWord w "in" = false) :
    rangeInText? ((g.item false).grow source p).text =
      rangeInText? (g.schemeItem.grow source (g.schemePage p)).text := by
  obtain ⟨⟨more, hmore⟩, hwords⟩ := words_text_item htext
  obtain ⟨c, rest, hkeyword, hc⟩ : ∃ c rest, g.keyword = c :: rest ∧ c.toLower = 'f' := by
    have hkeyword := g.keyword_isWord
    rw [hword, isWord, same_iff] at hkeyword
    obtain ⟨c, rest, hcons, hc, -⟩ := List.map_eq_cons_iff.1 hkeyword
    exact ⟨c, rest, hcons, hc⟩
  have hblank : isBlank c = false := by
    rw [← isBlank_toLower, hc]
    decide
  obtain ⟨w, ws, hfirst⟩ := words_cons hblank (rest ++ more)
  rw [hkeyword, List.cons_append] at hmore
  -- The words of the label and the colon come before those of the scheme, and none of them is taken
  -- for the word of the range.
  apply rangeInText?_of_words (words g.labelText ++ [[':']])
  · rw [hwords, List.append_assoc, List.singleton_append]
  · intro v hv
    rcases hlabels : words g.labelText with _ | ⟨u, us⟩
    · rw [hlabels] at hv
      cases hv
    · rw [hlabels, List.cons_append, List.tail_cons] at hv
      rcases List.mem_append.1 hv with hv | hv
      · exact hlabel v (by rwa [hlabels])
      · rw [List.mem_singleton.1 hv]
        decide
  · rw [hmore, hfirst]
    exact List.cons_ne_nil _ _
  · obtain ⟨t, hsquash⟩ : ∃ t, squash (c :: (rest ++ more)) = c :: t := by
      rw [squash, hfirst]
      cases ws with
      | nil => exact ⟨w, by simp [join, List.intercalate]⟩
      | cons v vs => exact ⟨_, by simp [join, List.intercalate]; rfl⟩
    rw [hmore, hsquash, lower_cons, hc]
    rfl

/-- A range that no node holds is in the text. -/
theorem hasRangeNode_eq_false
    (htext : (Item.writeAll (g.schemePage p) g.schemeItems).text <+: source)
    (h : (g.schemeItem.grow source (g.schemePage p)).schemeRangeNode? = none) :
    g.hasRangeNode = false := by
  have hany : ∀ {f : Node → Bool} {ns : List Node}, ns.find? f = none → ns.any f = false := by
    intro f ns hnone
    rw [List.any_eq_false]
    exact List.find?_eq_none.1 hnone
  rw [grow_schemeItem, schemeRangeNode?, Option.or_eq_none_iff] at h
  have hunder :
      (Item.growAll source (g.schemePage p) g.schemeItems).any (·.isUnder "range") = false :=
    hany h.1
  have hkind : ((Item.growAll source (g.schemePage p) g.schemeItems).takeWhile
      fun c => !c.isToken "generate").any (·.kind == .range) = false := hany h.2
  rw [Item.any_growAll fun _ _ => by rw [isUnder, Item.field_grow]] at hunder
  rw [Item.takeWhile_isToken_growAll htext,
    Item.any_growAll fun _ _ => by rw [Item.kind_grow]] at hkind
  rw [hasRangeNode, hunder, hkind, Bool.or_false]

/-- **The two shapes of a generate statement have the same header**, if a node holds the range of a
`for` scheme, or no word of the label after the first one is `in`. -/
theorem ofNode_item (htext : (Item.writeAll (g.schemePage p) g.schemeItems).text <+: source)
    (hlabel : g.word = "for" → g.hasRangeNode = false →
      ∀ w ∈ (words g.labelText).tail, isWord w "in" = false) :
    GenerateHeader.ofNode ((g.item false).grow source p) =
      GenerateHeader.ofNode ((g.item true).grow source p) := by
  -- What is written before the scheme is part of the source as well, so that the label and the
  -- colon can be read back.
  have hcolon : (g.schemePage p).text <+: source := (Item.text_writeAll _ _).trans htext
  have hname : (p.token g.labelText).text <+: source :=
    ((Item.token none ":".toList).text_write (p.token g.labelText)).trans hcolon
  have hkind : ∀ wrapped, ((g.item wrapped).grow source p).kind.isScheme = false := by
    intro wrapped
    rw [Item.kind_grow]
    show (Kind.ofTag (String.ofList "generate_statement".toList)).isScheme = false
    decide
  apply GenerateHeader.ofNode_of_passed (s := g.schemeItem.grow source (g.schemePage p))
    (d := g.label.grow source p)
    (e := (Item.token none ":".toList).grow source (p.token g.labelText))
  · rw [grow_item, grow_schemeItem]
    rfl
  · rw [grow_item]
    rfl
  · exact isPassed_label
  · exact isPassed_colon hcolon
  · exact hkind false
  · exact hkind true
  · exact Item.named_grow ..
  · rw [Item.kind_grow]
    exact isScheme_schemeItem
  · rw [grow_schemeItem]
    exact isScheme_schemeRow
  · rw [label?_item false hname]
    rfl
  · rw [label?_item false hname, label?_item true hname]
  · have hkeyword := keywordScheme?_keyword (g := g) ((Item.text_writeAll _ _).trans htext)
    rw [Item.kind_grow, grow_schemeItem]
    show (g.schemeRow source p).findSome? keywordScheme? = _
    rw [schemeRow, schemeItems, List.cons_append, List.cons_append, Item.growAll,
      List.findSome?_cons, hkeyword]
  · intro hfor hnode
    rw [Item.kind_grow] at hfor
    exact rangeInText?_item htext (word_eq_for hfor)
      (hlabel (word_eq_for hfor) (hasRangeNode_eq_false htext hnode))

end GenerateParts

end DesignFacts.Sexp
