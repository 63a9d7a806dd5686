import DesignFacts.Proofs.Process.ArmShape

/-!
# The two shapes of an `if` statement

The later arms of an `if` statement stand in clauses of their own, or their items stand directly in
the statement. This file shows that nothing depends on the shape, however deep the statement lies.

**Reshaping** (`Reshaped`). Two items differ by the shapes of `if` statements in them. Each later
arm of each statement may change its shape on its own, in arms, alternatives, loops and all other
containers. All else is equal, and conditions and the expressions of case statements stay as they
are.

**Alike nodes.** Reshaped items are written alike (`Reshaped.write_eq`), so what is equal in them
stands at the same places and grows into equal nodes, and they themselves grow into alike nodes
(`Reshaped.alike`). Both go by induction on how the items are reshaped.

Main result: reshaped processes have the same source text and the same facts
(`processHarvest_reshaped`).
-/

namespace DesignFacts.Sexp

open Text Node

/-! ## Reshaping -/

/-- Whether statements may be held by a field: conditions and the like are looked into. -/
def IsStatementField (field : Option Text) : Prop :=
  field.map String.ofList ∉ [some "condition", some "expression", some "sensitivity"]

instance (field : Option Text) : Decidable (IsStatementField field) :=
  inferInstanceAs (Decidable (_ ∉ _))

/-- Whether the items of lists of a kind are walked as statements, or passed over in a
subprogram. -/
def HoldsStatements (kind : Text) : Prop :=
  StatementForm.ofKind (Kind.ofTag (String.ofList kind)) = .container ∨
    Kind.ofTag (String.ofList kind) ∈ [.functionDeclaration, .procedureDeclaration]

/-- The items of a case statement behind its keyword. -/
def behindCase? : List Item → Option (List Item)
  | [] => none
  | item :: items => if item.isWordToken "case" then some items else behindCase? items

/-- Whether an item can be the expression of a case statement. -/
def Item.isSelector (item : Item) : Bool := item.isList && item.kind != .caseAlternative

/-- The item that the expression of a case statement is, if no field holds it: the first one that
can be behind the keyword, or among all items if there is no keyword. -/
def caseItem? (items : List Item) : Option Item :=
  ((behindCase? items).getD items).find? Item.isSelector

mutual

/-- Two items that differ by the shapes of `if` statements in them. -/
inductive Reshaped : Item → Item → Prop
  | refl (item : Item) : Reshaped item item
  /-- A container with reshaped items. -/
  | inside {field : Option Text} {kind : Text} {items items' : List Item}
      (hfield : IsStatementField field) (hkind : HoldsStatements kind)
      (h : ReshapedAll items items') :
      Reshaped (.list field kind items) (.list field kind items')
  /-- A case statement with reshaped items. Its expression is under its field, or the same item. -/
  | choice {field : Option Text} {items items' : List Item} (hfield : IsStatementField field)
      (hexpression : (∃ item ∈ items, item.field = some "expression".toList) ∨
        caseItem? items = caseItem? items')
      (h : ReshapedAll items items') :
      Reshaped (.list field "case_statement".toList items)
        (.list field "case_statement".toList items')
  /-- An `if` statement with reshaped bodies and reshaped later arms. -/
  | branch {field : Option Text} {front opening body body' later later' back : List Item}
      (hfield : IsStatementField field) (hfront : ∀ item ∈ front, item.isWordToken "end" = false)
      (hopening : Opening "if" opening) (hbody : ∀ item ∈ body, item.isArmPart = true)
      (hbodies : ReshapedAll body body') (hlater : ReshapedArms later later')
      (hback : back = [] ∨ ∃ e more, back = .token none e :: more ∧ isWord e "end" = true) :
      Reshaped (.list field "if_statement".toList (front ++ (opening ++ body) ++ later ++ back))
        (.list field "if_statement".toList (front ++ (opening ++ body') ++ later' ++ back))

/-- Two rows of items that are reshaped one by one. -/
inductive ReshapedAll : List Item → List Item → Prop
  | nil : ReshapedAll [] []
  | cons {item item' : Item} {items items' : List Item} (h : Reshaped item item')
      (hs : ReshapedAll items items') : ReshapedAll (item :: items) (item' :: items')

/-- Two rows of later arms with reshaped bodies, each arm with a clause around it or not. -/
inductive ReshapedArms : List Item → List Item → Prop
  | nil : ReshapedArms [] []
  | cons {wrapped wrapped' : Bool} {word : String} {opening body body' later later' : List Item}
      (hopening : Opening word opening) (hword : word ≠ "if")
      (hbody : ∀ item ∈ body, item.isArmPart = true) (hbodies : ReshapedAll body body')
      (hlater : ReshapedArms later later') :
      ReshapedArms (armItems wrapped word (opening ++ body) ++ later)
        (armItems wrapped' word (opening ++ body') ++ later')

end

theorem Reshaped.isPlainToken_eq {item item' : Item} (h : Reshaped item item') :
    item'.isPlainToken = item.isPlainToken := by
  cases h <;> rfl

theorem Reshaped.isSelector_eq {item item' : Item} (h : Reshaped item item') :
    item'.isSelector = item.isSelector := by
  cases h <;> rfl

theorem Reshaped.isWordToken_eq {item item' : Item} (h : Reshaped item item') (word : String) :
    item'.isWordToken word = item.isWordToken word := by
  cases h <;> rfl

theorem Reshaped.isArmPart_eq {item item' : Item} (h : Reshaped item item') :
    item'.isArmPart = item.isArmPart := by
  cases h <;> rfl

namespace ReshapedAll

theorem all_isPlainToken : ∀ {items items' : List Item}, ReshapedAll items items' →
    items'.all Item.isPlainToken = items.all Item.isPlainToken
  | _, _, .nil => rfl
  | _, _, .cons h hs => by
    rw [List.all_cons, List.all_cons, h.isPlainToken_eq, hs.all_isPlainToken]

/-- Plain tokens cannot change. -/
theorem eq_of_plain : ∀ {items items' : List Item}, ReshapedAll items items' →
    items.all Item.isPlainToken = true → items' = items
  | _, _, .nil, _ => rfl
  | _, _, .cons h hs, hplain => by
    rw [List.all_cons, Bool.and_eq_true] at hplain
    rw [hs.eq_of_plain hplain.2]
    cases h with
    | refl => rfl
    | inside => cases hplain.1
    | choice => cases hplain.1
    | branch => cases hplain.1

theorem isArmPart : ∀ {items items' : List Item}, ReshapedAll items items' →
    (∀ item ∈ items, item.isArmPart = true) → ∀ item ∈ items', item.isArmPart = true
  | _, _, .nil, _ => by simp
  | _, _, @ReshapedAll.cons first first' _ _ h hs, hparts => by
    intro item hitem
    rcases List.mem_cons.1 hitem with rfl | hitem
    · exact h.isArmPart_eq.trans (hparts first List.mem_cons_self)
    · have hrest := fun item hitem => hparts item (List.mem_cons_of_mem first hitem)
      exact hs.isArmPart hrest item hitem

end ReshapedAll

/-! ## Writing -/

/-- The first arm of a statement has a condition, which is a list. -/
theorem Opening.exists_condition {word : String} {opening : List Item} (h : Opening word opening)
    (hword : word ≠ "else") : ∃ C ∈ opening, C.isList = true := by
  cases h with
  | @conditional _ k t C _ _ hC _ =>
    rw [Item.isArmPart, Bool.and_eq_true] at hC
    exact ⟨C, by simp, hC.1⟩
  | otherwise => exact absurd rfl hword

/-- Lists with reshaped items are written alike if their items are. -/
theorem ReshapedAll.write_list {items items' : List Item} (h : ReshapedAll items items')
    (hwrite : ∀ p : Page, Item.writeAll p items' = Item.writeAll p items) (field : Option Text)
    (kind : Text) (p : Page) :
    (Item.list field kind items').write p = (Item.list field kind items).write p := by
  rw [Item.write, Item.write, h.all_isPlainToken]
  split
  · rename_i hplain
    rw [h.eq_of_plain hplain]
  · exact hwrite p

mutual

/-- Reshaped items are written alike. -/
theorem Reshaped.write_eq : ∀ {item item' : Item}, Reshaped item item' →
    ∀ p : Page, item'.write p = item.write p
  | _, _, .refl _, _ => rfl
  | _, _, @Reshaped.inside field kind _ _ _ _ h, p => h.write_list h.write_eq field kind p
  | _, _, @Reshaped.choice field _ _ _ _ h, p => h.write_list h.write_eq field _ p
  | _, _, @Reshaped.branch field front opening body body' later later' back _ _ hopening _ hbodies
      hlater _, p => by
    obtain ⟨C, hC, hlist⟩ := hopening.exists_condition (by decide)
    rw [write_list_of_mem (E := C) (by simp [hC]) hlist,
      write_list_of_mem (E := C) (by simp [hC]) hlist]
    simp only [Item.writeAll_append]
    rw [hbodies.write_eq, hlater.write_eq]

theorem ReshapedAll.write_eq : ∀ {items items' : List Item}, ReshapedAll items items' →
    ∀ p : Page, Item.writeAll p items' = Item.writeAll p items
  | _, _, .nil, _ => rfl
  | _, _, .cons h hs, p => by
    rw [Item.writeAll, Item.writeAll, h.write_eq, hs.write_eq]

theorem ReshapedArms.write_eq : ∀ {later later' : List Item}, ReshapedArms later later' →
    ∀ p : Page, Item.writeAll p later' = Item.writeAll p later
  | _, _, .nil, _ => rfl
  | _, _, .cons hopening _ hbody hbodies hlater, p => by
    rw [Item.writeAll_append, Item.writeAll_append,
      write_armItems hopening (hbodies.isArmPart hbody), write_armItems hopening hbody,
      Item.writeAll_append, Item.writeAll_append, hbodies.write_eq, hlater.write_eq]

end

/-! ## Growing -/

theorem isLookedInto_trunk {field : Option Text} (hfield : IsStatementField field) {kind : Text}
    (hkind : Kind.ofTag (String.ofList kind) ≠ .sensitivityList) (source : Text) (ns : List Node) :
    (trunk source kind field ns).isLookedInto = false := by
  have hkind' : (trunk source kind field ns).kind = Kind.ofTag (String.ofList kind) := rfl
  have hunder : ∀ name, (trunk source kind field ns).isUnder name =
      (field.map String.ofList == some name) := fun _ => rfl
  simp only [IsStatementField, List.mem_cons, List.not_mem_nil, or_false, not_or] at hfield
  simp only [isLookedInto, hkind', hunder, Bool.or_eq_false_iff, beq_eq_false_iff_ne]
  exact ⟨⟨⟨hfield.1, hfield.2.1⟩, hfield.2.2⟩, hkind⟩

namespace ReshapedAll

variable {source : Text}

/-- Rows of reshaped items are cut at the same keyword, if they have one. -/
theorem behindCase?_growAll {items items' : List Item} (h : ReshapedAll items items') {p : Page}
    (htext : (Item.writeAll p items).text <+: source) :
    (behindCase? items = none ∧ behindCase? items' = none ∧
      splitAt? (·.isToken "case") (Item.growAll source p items) = none ∧
      splitAt? (·.isToken "case") (Item.growAll source p items') = none) ∨
    ∃ after after' q, ReshapedAll after after' ∧
      behindCase? items = some after ∧ behindCase? items' = some after' ∧
      (splitAt? (·.isToken "case") (Item.growAll source p items)).map Prod.snd =
        some (Item.growAll source q after) ∧
      (splitAt? (·.isToken "case") (Item.growAll source p items')).map Prod.snd =
        some (Item.growAll source q after') := by
  induction items generalizing items' p with
  | nil =>
    cases h
    exact .inl ⟨rfl, rfl, rfl, rfl⟩
  | cons item items ih =>
    cases h with
    | @cons _ item' _ items' h hs =>
      rw [Item.writeAll] at htext
      have hitem := (Item.text_writeAll items _).trans htext
      have htoken := Item.isToken_grow hitem "case"
      have htoken' : (item'.grow source p).isToken "case" = item.isWordToken "case" := by
        rw [Item.isToken_grow (by rw [h.write_eq]; exact hitem), h.isWordToken_eq]
      simp only [Item.growAll, splitAt?, htoken, htoken', behindCase?, h.isWordToken_eq, h.write_eq]
      -- Both rows are at the keyword at the same time; the page is the same, as reshaping changes
      -- no text.
      cases item.isWordToken "case" with
      | true => exact .inr ⟨items, items', item.write p, hs, by simp⟩
      | false => simpa [Function.comp_def] using ih hs htext

/-- If the first item of a kind is the same, so is the first node. -/
theorem find?_growAll {f : Node → Bool} {g : Item → Bool}
    (hf : ∀ (item : Item) (q : Page), f (item.grow source q) = g item)
    (hg : ∀ {item item' : Item}, Reshaped item item' → g item' = g item)
    {items items' : List Item} (h : ReshapedAll items items')
    (hfind : items.find? g = items'.find? g) (p : Page) :
    (Item.growAll source p items).find? f = (Item.growAll source p items').find? f := by
  induction items generalizing items' p with
  | nil =>
    cases h
    rfl
  | cons item items ih =>
    cases h with
    | cons h hs =>
      rw [List.find?_cons, List.find?_cons, hg h] at hfind
      rw [Item.growAll, Item.growAll, List.find?_cons, List.find?_cons, hf, hf, hg h, h.write_eq]
      cases hfound : g item with
      | true =>
        rw [hfound] at hfind
        rw [Option.some.inj hfind]
      | false =>
        rw [hfound] at hfind
        exact ih hs hfind _

/-- The expression of a case statement does not change. -/
theorem caseExpression?_eq {items items' : List Item} (h : ReshapedAll items items')
    (hexpression : (∃ item ∈ items, item.field = some "expression".toList) ∨
      caseItem? items = caseItem? items')
    {p : Page} (htext : (Item.writeAll p items).text <+: source) {n m : Node}
    (hn : n.children = Item.growAll source p items)
    (hm : m.children = Item.growAll source p items')
    (halike : List.Forall₂ Alike n.children m.children) :
    n.caseExpression? = m.caseExpression? := by
  have hunder : n.childUnder "expression" = m.childUnder "expression" :=
    find?_eq halike (fun _ _ hcd => hcd.isUnder_eq _) fun c hc => by simp [isLookedInto, hc]
  rw [caseExpression?, caseExpression?, ← hunder]
  -- With an expression under its field the search behind the keyword is never made.
  rcases hexpression with ⟨item, hitem, hfield⟩ | hsame
  · have hholds : n.children.any (·.isUnder "expression") = true := by
      rw [hn, Item.any_growAll (g := fun i => i.field.map String.ofList == some "expression")
        (fun i q => by rw [isUnder, Item.field_grow])]
      exact List.any_eq_true.2 ⟨item, hitem, by rw [hfield]; rfl⟩
    have hsome : (n.childUnder "expression").isSome = true := by
      rw [childUnder, List.find?_isSome]
      exact List.any_eq_true.1 hholds
    rw [Option.or_of_isSome hsome, Option.or_of_isSome hsome]
  · have hselector (item : Item) (q : Page) :
        ((item.grow source q).named && (item.grow source q).kind != .caseAlternative) =
          item.isSelector := by
      rw [Item.named_grow, Item.kind_grow, Item.isSelector]
    rw [hn, hm]
    congr 1
    rcases h.behindCase?_growAll htext with ⟨hno, hno', hcut, hcut'⟩ |
      ⟨after, after', q, hafter, hbehind, hbehind', hcut, hcut'⟩
    · rw [caseItem?, caseItem?, hno, hno'] at hsame
      rw [hcut, hcut']
      exact h.find?_growAll hselector Reshaped.isSelector_eq hsame p
    · rw [caseItem?, caseItem?, hbehind, hbehind'] at hsame
      rw [hcut, hcut']
      exact hafter.find?_growAll hselector Reshaped.isSelector_eq hsame q

end ReshapedAll

/-- What stands after the arms of an `if` statement is no part of them. -/
theorem takeWhile_isBeforeEnd_back {source : Text} {p : Page} {back : List Item}
    (hback : back = [] ∨ ∃ e more, back = .token none e :: more ∧ isWord e "end" = true)
    (htext : (Item.writeAll p back).text <+: source) :
    (Item.growAll source p back).takeWhile isBeforeEnd = [] := by
  rcases hback with rfl | ⟨e, more, rfl, he⟩
  · rfl
  · rw [Item.writeAll] at htext
    have hlabel : ((Item.token none e).grow source p).isUnder "label" = false := rfl
    have hend : ((Item.token none e).grow source p).isToken "end" = true := by
      rw [Item.isToken_grow ((Item.text_writeAll more _).trans htext)]
      exact he
    rw [Item.growAll, List.takeWhile_cons, isBeforeEnd, hlabel, hend]
    rfl

/-- Lists over alike statements are alike. -/
theorem alike_inside {source kind : Text} {field : Option Text} {ns ms : List Node}
    (hfield : IsStatementField field) (hkind : HoldsStatements kind)
    (h : List.Forall₂ Alike ns ms) :
    Alike (trunk source kind field ns) (trunk source kind field ms) := by
  have hrow := SameRow.of_alike h
  have hbare := bare_trunk_eq hrow.first hrow.last source kind field
  rcases hkind with hkind | hkind
  · refine .container hbare h hkind (isLookedInto_trunk hfield ?_ source _)
    intro hlist
    rw [hlist] at hkind
    cases hkind
  · simp only [List.mem_cons, List.not_mem_nil, or_false] at hkind
    refine .subprogram hbare h ?_ (isLookedInto_trunk hfield ?_ source _)
    · show (Kind.ofTag (String.ofList kind) == .functionDeclaration ||
        Kind.ofTag (String.ofList kind) == .procedureDeclaration) = true
      rcases hkind with hkind | hkind <;> rw [hkind] <;> rfl
    · rcases hkind with hkind | hkind <;> rw [hkind] <;> decide

/-- Case statements with the same expression and alike alternatives are alike. -/
theorem alike_choice {source : Text} {field : Option Text} {ns ms : List Node}
    (hfield : IsStatementField field) (h : List.Forall₂ Alike ns ms)
    (hexpression : (trunk source "case_statement".toList field ns).caseExpression? =
      (trunk source "case_statement".toList field ms).caseExpression?) :
    Alike (trunk source "case_statement".toList field ns)
      (trunk source "case_statement".toList field ms) := by
  have hrow := SameRow.of_alike h
  have hstatement : Kind.ofTag (String.ofList "case_statement".toList) = .caseStatement := by
    decide
  exact .choice (bare_trunk_eq hrow.first hrow.last source _ field) h hstatement hexpression
    (isLookedInto_trunk hfield (by decide) source _)

section Branch

variable {source : Text} {p : Page} {opening : List Item} {front back : List Node}
  (hopening : Opening "if" opening) (htext : (Item.writeAll p opening).text <+: source)
  (hfront : ∀ c ∈ front, c.isBeforeEnd = true) (hback : back.takeWhile isBeforeEnd = [])

include hopening htext hfront

/-- All of an `if` statement but its last part stands before the keyword `end`. -/
theorem isBeforeEnd_of_mem_branch {body later : List Node}
    (hbody : ∀ c ∈ body, c.isArmPart = true) (hlater : ∀ c ∈ later, c.isBeforeEnd = true) :
    ∀ c ∈ front ++ (Item.growAll source p opening ++ body) ++ later, c.isBeforeEnd = true := by
  intro c hc
  simp only [List.mem_append] at hc
  rcases hc with (hc | hc | hc) | hc
  · exact hfront c hc
  · exact isBeforeEnd_of_mem_growAll hopening.not_end htext c hc
  · have hpart := hbody c hc
    rw [Node.isArmPart, Bool.and_eq_true] at hpart
    simp [isBeforeEnd, isToken, hpart.1]
  · exact hlater c hc

include hback

/-- The arms of an `if` statement: those in front of the keyword, its own and the later ones. -/
theorem arms_branch {n : Node} {body later : List Node}
    (hn : n.children = front ++ (Item.growAll source p opening ++ body) ++ later ++ back)
    (hbody : ∀ c ∈ body, c.isArmPart = true) (hlater : ∀ c ∈ later, c.isBeforeEnd = true)
    (hled : ArmPiece.Led (armPieces later)) :
    n.arms = ArmPiece.arms none false (armPieces front) ++
      ArmPiece.arms none false (armPieces (Item.growAll source p opening ++ body)) ++
        ArmPiece.arms none false (armPieces later) := by
  obtain ⟨-, -, hopens, -⟩ := hopening.arms htext
  have hbefore := isBeforeEnd_of_mem_branch hopening htext hfront hbody hlater
  refine arms_of_rows hn hbefore hback ?_ hled
  rw [armPieces_append]
  exact hopens _

end Branch

/-- `if` statements with alike bodies and the same later arms are alike. -/
theorem alike_branch {source : Text} {p : Page} {field : Option Text} {opening : List Item}
    {front body body' later later' back : List Node} (hfield : IsStatementField field)
    (hopening : Opening "if" opening) (htext : (Item.writeAll p opening).text <+: source)
    (hfront : ∀ c ∈ front, c.isBeforeEnd = true) (hbody : ∀ c ∈ body, c.isArmPart = true)
    (hbody' : ∀ c ∈ body', c.isArmPart = true) (hbodies : List.Forall₂ Alike body body')
    (hlater : SameLater later later') (hback : back.takeWhile isBeforeEnd = []) :
    Alike
      (trunk source "if_statement".toList field
        (front ++ (Item.growAll source p opening ++ body) ++ later ++ back))
      (trunk source "if_statement".toList field
        (front ++ (Item.growAll source p opening ++ body') ++ later' ++ back)) := by
  set O := Item.growAll source p opening
  have hkind : ∀ ns, (trunk source "if_statement".toList field ns).kind = .ifStatement := by
    intro ns
    show Kind.ofTag (String.ofList "if_statement".toList) = .ifStatement
    decide
  have hrow : SameRow (front ++ (O ++ body) ++ later ++ back)
      (front ++ (O ++ body') ++ later' ++ back) :=
    (((SameRow.refl front).append ((SameRow.refl O).append (.of_alike hbodies))).append
      hlater.row).append (.refl back)
  have hbare := bare_trunk_eq hrow.first hrow.last source "if_statement".toList field
  refine ⟨hbare, .node hbare hrow ?_ ?_ ?_, fun s ctx => ?_, fun hlooked => ?_⟩
  · rw [declaresLocals, hkind]
    rfl
  · intro hloop
    cases (hkind _).symm.trans hloop
  · intro halternative
    cases (hkind _).symm.trans halternative
  · obtain ⟨a, b, ha, hb, hab, -⟩ := hopening.sameArm htext hbody hbodies
    have harms : (trunk source "if_statement".toList field
        (front ++ (O ++ body) ++ later ++ back)).arms = _ :=
      arms_branch hopening htext hfront hback rfl hbody hlater.before.1 hlater.led.1
    have harms' : (trunk source "if_statement".toList field
        (front ++ (O ++ body') ++ later' ++ back)).arms = _ :=
      arms_branch hopening htext hfront hback rfl hbody' hlater.before.2 hlater.led.2
    rw [ha] at harms
    rw [hb] at harms'
    -- A reset is looked for in the first arm of all, which may stand in front of the keyword.
    cases hfirst : ArmPiece.arms none false (armPieces front) with
    | nil =>
      rw [hfirst] at harms harms'
      exact SameArms.activity_eq (hkind _) (hkind _) harms harms' hab hlater.arms s ctx
    | cons first others =>
      rw [hfirst] at harms harms'
      exact SameArms.activity_eq (hkind _) (hkind _) harms harms' (.refl first)
        (((SameArms.refl others).append (.cons hab .nil)).append hlater.arms) s ctx
  · rw [isLookedInto_trunk hfield (by decide) source _] at hlooked
    cases hlooked

/-- Lists grow into alike nodes if they do with nodes for their items. -/
theorem ReshapedAll.alike_list {source kind : Text} {field : Option Text} {items items' : List Item}
    (h : ReshapedAll items items') {p : Page}
    (htext : ((Item.list field kind items).write p).text <+: source)
    (htrunk : (Item.writeAll p items).text <+: source →
      Alike (trunk source kind field (Item.growAll source p items))
        (trunk source kind field (Item.growAll source p items'))) :
    Alike ((Item.list field kind items).grow source p)
      ((Item.list field kind items').grow source p) := by
  -- Plain tokens alone grow into one leaf, and reshaping leaves them as they are.
  by_cases hplain : items.all Item.isPlainToken = true
  · rw [h.eq_of_plain hplain]
    exact .refl _
  · rw [Item.write, if_neg hplain] at htext
    rw [Item.grow, Item.grow, h.all_isPlainToken, if_neg hplain, if_neg hplain]
    exact htrunk htext

mutual

/-- Reshaped items grow into alike nodes. -/
theorem Reshaped.alike {source : Text} : ∀ {item item' : Item}, Reshaped item item' →
    ∀ p : Page, (item.write p).text <+: source →
      Alike (item.grow source p) (item'.grow source p)
  | _, _, .refl _, _, _ => .refl _
  | _, _, @Reshaped.inside field kind items items' hfield hkind h, p, htext =>
    h.alike_list htext fun hitems => alike_inside hfield hkind (h.alike p hitems)
  | _, _, @Reshaped.choice field items items' hfield hexpression h, p, htext => by
    refine h.alike_list htext fun hitems => ?_
    have hparts := h.alike p hitems
    exact alike_choice hfield hparts (h.caseExpression?_eq hexpression hitems rfl rfl hparts)
  | _, _, @Reshaped.branch field front opening body body' later later' back hfield hfront hopening
      hbody hbodies hlater hback, p, htext => by
    obtain ⟨C, hC, hlist⟩ := hopening.exists_condition (by decide)
    rw [write_list_of_mem (E := C) (by simp [hC]) hlist] at htext
    rw [grow_list_of_mem (E := C) (by simp [hC]) hlist,
      grow_list_of_mem (E := C) (by simp [hC]) hlist]
    simp only [Item.growAll_append, Item.writeAll_append, hbodies.write_eq, hlater.write_eq]
    simp only [Item.writeAll_append] at htext
    -- The text written up to each part is the beginning of what all parts write.
    have hlaterText := (Item.text_writeAll back _).trans htext
    have hbodyText := (Item.text_writeAll later _).trans hlaterText
    have hopeningText := (Item.text_writeAll body _).trans hbodyText
    exact alike_branch hfield hopening hopeningText
      (isBeforeEnd_of_mem_growAll hfront ((Item.text_writeAll opening _).trans hopeningText))
      (isArmPart_of_mem_growAll hbody) (isArmPart_of_mem_growAll (hbodies.isArmPart hbody))
      (hbodies.alike _ hbodyText) (hlater.sameLater _ hlaterText)
      (takeWhile_isBeforeEnd_back hback htext)

theorem ReshapedAll.alike {source : Text} : ∀ {items items' : List Item},
    ReshapedAll items items' → ∀ p : Page, (Item.writeAll p items).text <+: source →
      List.Forall₂ Alike (Item.growAll source p items) (Item.growAll source p items')
  | _, _, .nil, _, _ => .nil
  | _, _, @ReshapedAll.cons item item' items items' h hs, p, htext => by
    rw [Item.writeAll] at htext
    rw [Item.growAll, Item.growAll, h.write_eq]
    exact .cons (h.alike p ((Item.text_writeAll items _).trans htext)) (hs.alike _ htext)

theorem ReshapedArms.sameLater {source : Text} : ∀ {later later' : List Item},
    ReshapedArms later later' → ∀ p : Page, (Item.writeAll p later).text <+: source →
      SameLater (Item.growAll source p later) (Item.growAll source p later')
  | _, _, .nil, _, _ => .nil
  | _, _, @ReshapedArms.cons wrapped wrapped' word opening body body' later later' hopening hword
      hbody hbodies hlater, p, htext => by
    have hbody' := hbodies.isArmPart hbody
    rw [Item.writeAll_append, write_armItems hopening hbody] at htext
    have harm : (Item.writeAll p (opening ++ body)).text <+: source :=
      (Item.text_writeAll later _).trans htext
    rw [Item.growAll_append, Item.growAll_append, write_armItems hopening hbody,
      write_armItems hopening hbody', Item.writeAll_append p opening body', hbodies.write_eq,
      ← Item.writeAll_append]
    refine SameLater.append ?_ (hlater.sameLater _ htext)
    refine sameLater_armItems hopening hword hbody hbody' (hbodies.write_eq _) harm ?_ wrapped
      wrapped'
    rw [Item.writeAll_append] at harm
    exact hbodies.alike _ harm

end

/-! ## Processes -/

theorem ReshapedAll.processHarvest_grow {items items' : List Item} (h : ReshapedAll items items')
    (field : Option Text) {source : Text} {p : Page}
    (htext : ((Item.list field "process_statement".toList items).write p).text <+: source)
    (config : Config) (L : Lookup) (scope : Scope) :
    processHarvest config L scope
        ((Item.list field "process_statement".toList items).grow source p) =
      processHarvest config L scope
        ((Item.list field "process_statement".toList items').grow source p) := by
  by_cases hplain : items.all Item.isPlainToken = true
  · rw [h.eq_of_plain hplain]
  · rw [Item.write, if_neg hplain] at htext
    have hparts := h.alike p htext
    rw [Item.grow, Item.grow, h.all_isPlainToken, if_neg hplain, if_neg hplain]
    have hrow := SameRow.of_alike hparts
    have hbare := bare_trunk_eq hrow.first hrow.last source "process_statement".toList field
    exact processHarvest_congr hparts hbare config L scope

/-- **Both shapes of an `if` statement mean the same.** In any surroundings, processes that differ
by the shapes of `if` statements have the same source text around and in them, and the same facts.
-/
theorem processHarvest_reshaped {items items' : List Item} (h : ReshapedAll items items')
    (field : Option Text) (around : List Hole) :
    ∃ tree tree' n n',
      (layout (Hole.fill (.list field "process_statement".toList items) around)).load = .ok tree ∧
      (layout (Hole.fill (.list field "process_statement".toList items') around)).load =
        .ok tree' ∧
      tree.source = tree'.source ∧
      Hole.node? around tree.root = some n ∧ Hole.node? around tree'.root = some n' ∧
      ∀ config L scope, processHarvest config L scope n = processHarvest config L scope n' := by
  set P := Item.list field "process_statement".toList items with hP
  set P' := Item.list field "process_statement".toList items' with hP'
  have hwrite : ∀ p, P'.write p = P.write p := h.write_list h.write_eq field _
  have hsource : (Hole.fill P around).write {} = (Hole.fill P' around).write {} :=
    (Hole.write_fill_eq rfl rfl hwrite around {}).symm
  have hlist : P.isList = true := rfl
  have htext := Hole.text_write_page hlist around {}
  refine ⟨_, _, _, _, load_layout_eq_grow _, load_layout_eq_grow _, congrArg Page.text hsource,
    Hole.node?_grow_fill rfl around _ _, Hole.node?_grow_fill rfl around _ _, ?_⟩
  rw [← hsource]
  exact h.processHarvest_grow field htext

/-- A register with a reset: what it does at the clock edge is again an `if` statement, with an
`else` that has nothing. If the arms of the outer statement are in clauses, those of the inner one
are not. -/
def registerItems (wrapped : Bool) : List Item :=
  let word (s : String) : Item := .token none s.toList
  let name (s : String) : Item := .list none "identifier".toList [word s]
  let assignment (value : String) : Item :=
    .list none "sequential_signal_assignment".toList [name "q", word "<=", name value, word ";"]
  let test (function signal : String) : Item :=
    .list none "function_call".toList [name function, word "(", name signal, word ")"]
  let close := [word "end", word "if", word ";"]
  let load : Item := .list none "if_statement".toList
    ([] ++ ([word "if", name "en", word "then"] ++ [assignment "d"]) ++
      (armItems (!wrapped) "else" ([word "else"] ++ []) ++ []) ++ close)
  [word "process", word "begin",
    .list none "if_statement".toList
      ([] ++ ([word "if", name "rst", word "then"] ++ [assignment "zero"]) ++
        (armItems wrapped "elsif" ([word "elsif", test "rising_edge" "clk", word "then"] ++ [load])
          ++ []) ++ close),
    word "end", word "process", word ";"]

theorem reshapedAll_register : ReshapedAll (registerItems true) (registerItems false) := by
  have hkeep : ∀ items, ReshapedAll items items := by
    intro items
    induction items with
    | nil => exact .nil
    | cons item items ih => exact .cons (.refl item) ih
  have hback : ∀ back : List Item, back.head? = some (.token none "end".toList) →
      back = [] ∨ ∃ e more, back = .token none e :: more ∧ isWord e "end" = true := by
    intro back hhead
    cases back with
    | nil => cases hhead
    | cons first more => exact .inr ⟨_, more, by simpa using hhead, by decide⟩
  refine .cons (.refl _) (.cons (.refl _) (.cons ?_ (hkeep _)))
  refine .branch (by decide) (by simp) (.conditional (.inl rfl) (by decide) (by decide) (by decide))
    (by simp; decide) (hkeep _) ?_ (hback _ rfl)
  refine .cons (.conditional (.inr rfl) (by decide) (by decide) (by decide)) (by decide)
    (by simp; decide) (.cons ?_ .nil) .nil
  refine .branch (by decide) (by simp) (.conditional (.inl rfl) (by decide) (by decide) (by decide))
    (by simp; decide) (hkeep _) ?_ (hback _ rfl)
  exact .cons (.otherwise (by decide)) (by decide) (by simp) .nil .nil

theorem processHarvest_reshaped_register :
    let process (wrapped : Bool) : Item :=
      .list none "process_statement".toList (registerItems wrapped)
    let around : List Hole :=
      [⟨none, "architecture_body".toList, [.token none "begin".toList], []⟩]
    ReshapedAll (registerItems true) (registerItems false) ∧
    ∃ tree tree' n n',
      (layout (Hole.fill (process true) around)).load = .ok tree ∧
      (layout (Hole.fill (process false) around)).load = .ok tree' ∧
      tree.source = tree'.source ∧
      Hole.node? around tree.root = some n ∧ Hole.node? around tree'.root = some n' ∧
      ∀ config L scope, processHarvest config L scope n = processHarvest config L scope n' :=
  ⟨reshapedAll_register, processHarvest_reshaped reshapedAll_register none _⟩

end DesignFacts.Sexp
