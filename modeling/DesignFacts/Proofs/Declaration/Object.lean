import DesignFacts.Proofs.Declaration.Written
import DesignFacts.Proofs.Extraction.Record
import DesignFacts.Proofs.Name.Spine
import DesignFacts.Proofs.Tree.Row

/-!
# Object declarations in trees and in texts

The children of a declaration give what is declared, whatever the optional parts, the number of
names and the fields (`Written.ofNode_of_children`). Its text gives the same if and only if it is
clear.

Main result: `object_declaration_written`.
-/

namespace DesignFacts.ObjectDeclaration

open Text

/-! ## Parts as nodes -/

theorem kind_of_not_named {c : Node} (h : c.named = false) : c.kind = .other := by
  rw [Node.kind, if_neg (by simp [h])]

theorem isToken_of_named {c : Node} (h : c.named = true) (word : String) :
    c.isToken word = false := by
  rw [Node.isToken, h]
  rfl

/-- A word of a list is no other word. -/
theorem isToken_of_oneOf_text {ws : List String} {c : Node} (h : oneOf ws (lower c.text) = true)
    {word : String} (hword : oneOf ws (lower word.toList) = false) : c.isToken word = false := by
  rw [Bool.eq_false_iff]
  intro htoken
  rw [same_iff.1 (Bool.and_eq_true_iff.1 htoken).2, hword] at h
  cases h

namespace IsMark

variable {mark : String} {c : Node} (h : IsMark mark c)

include h

theorem not_named : c.named = false := Node.named_of_isToken h.isToken

theorem lower_text : lower c.text = lower mark.toList :=
  same_iff.1 (Bool.and_eq_true_iff.1 h.isToken).2

theorem isToken_eq (word : String) : c.isToken word = isWord mark.toList word := by
  rw [Node.isToken, h.not_named, isWord, isWord, same, same, h.lower_text]
  rfl

theorem classWord?_eq_none (hmark : oneOf classes (lower mark.toList) = false) :
    classWord? c = none := by
  rw [classWord?, kind_of_not_named h.not_named, if_neg (by decide), h.lower_text, hmark]
  simp

end IsMark

theorem IsClass.classWord?_eq {c : Node} (h : IsClass c) : classWord? c = some (lower c.text) := by
  rw [classWord?]
  rcases h.kind with hnamed | hkind
  · rw [kind_of_not_named hnamed, if_neg (by decide), hnamed, h.isClass]
    rfl
  · have htoken : IsToken c.text := isToken_of_oneOf (by decide) h.isClass
    rw [hkind, if_pos (by decide), Node.trimmed, trim_eq_self htoken.not_blank]

theorem IsClass.kind_ne {c : Node} (h : IsClass c) : c.kind ≠ .identifier := by
  rcases h.kind with hnamed | hkind
  · rw [kind_of_not_named hnamed]
    decide
  · rw [hkind]
    decide

theorem IsName.named {c : Node} (h : IsName c) : c.named = true :=
  Node.named_of_isName (by rw [h.kind]; rfl)

theorem IsName.classWord?_eq_none {c : Node} (h : IsName c) : classWord? c = none := by
  rw [classWord?, h.kind, h.named]
  rfl

theorem IsMode.add_eq {c : Node} (h : IsMode c) :
    TypePart.add {} c = { mode := some (lower c.text) } := by
  rw [TypePart.add]
  rcases h.kind with hnamed | hkind
  · have hcomment : c.isComment = false := by
      rw [Node.isComment, kind_of_not_named hnamed]
      rfl
    rw [kind_of_not_named hnamed, if_neg (by decide), hcomment, hnamed]
    simp [h.isMode]
  · have htoken : IsToken c.text := isToken_of_oneOf (by decide) h.isMode
    rw [hkind, if_pos (by decide), Node.trimmed, trim_eq_self htoken.not_blank]

theorem IsType.add_eq {c : Node} (h : IsType c) (p : TypePart) :
    p.add c = { p with nodes := p.nodes ++ [c] } := by
  rw [TypePart.add, if_neg (by simpa using h.not_mode), h.named,
    if_neg (by simpa [Node.isComment] using h.not_comment), if_pos rfl]

/-- A semicolon behind the type belongs to no part. -/
theorem IsMark.add_semicolon {c : Node} (h : IsMark ";" c) {p : TypePart} (hp : p.nodes ≠ []) :
    p.add c = p := by
  have hkind := kind_of_not_named h.not_named
  have hcomment : c.isComment = false := by
    rw [Node.isComment, hkind]
    rfl
  rw [TypePart.add, hkind, if_neg (by decide), hcomment, h.not_named, if_neg Bool.false_ne_true,
    if_neg Bool.false_ne_true, List.isEmpty_eq_false_iff.2 hp, h.lower_text]
  rfl

namespace Written

variable (d : Written)

/-! ### The declaration in the tree -/

/-- The part that a field holds. -/
def partUnder (field : String) : Option Node :=
  match field with
  | "class" => d.objectClass.map Part.node
  | "direction" => d.mode.map Part.node
  | "type" => some d.type.node
  | "default" => d.default.map (·.2.node)
  | _ => none

/-- A child under a field of the declaration is the part that the field holds. -/
theorem partUnder_of_isUnder {c : Node} {field : String} (hc : c ∈ d.nodes)
    (hfield : field ∈ fields) (hunder : c.isUnder field = true) : d.partUnder field = some c := by
  have hnone (h : IsUnderOwn none c) : d.partUnder field = some c := by
    cases h field hfield hunder
  have hown {own : String} (h : IsUnderOwn (some own) c) (hpart : d.partUnder own = some c) :
      d.partUnder field = some c := by
    obtain rfl := Option.some.inj (h field hfield hunder)
    exact hpart
  obtain ⟨q, hq, rfl⟩ := List.mem_map.1 hc
  simp only [parts, opening, nameParts, typeParts, endParts, List.mem_append, List.mem_cons,
    List.mem_flatMap, Option.mem_toList, List.not_mem_nil, or_false] at hq
  rcases hq with (hq | hq) | (rfl | ⟨other, hother, rfl | rfl⟩) | rfl | (hq | rfl) |
    (⟨value, hvalue, rfl | rfl⟩ | hq)
  · exact hnone (d.isShared q hq).isUnderOwn
  · exact hown (d.isClass q hq).isUnderOwn (by rw [partUnder, hq]; rfl)
  · exact hnone d.isName.isUnderOwn
  · exact hnone (d.isOther other hother).1.isUnderOwn
  · exact hnone (d.isOther other hother).2.isUnderOwn
  · exact hnone d.isColon.isUnderOwn
  · exact hown (d.isMode q hq).isUnderOwn (by rw [partUnder, hq]; rfl)
  · exact hown d.isType.isUnderOwn rfl
  · exact hnone (d.isDefault value hvalue).1.isUnderOwn
  · exact hown (d.isDefault value hvalue).2.isUnderOwn (by rw [partUnder, hvalue]; rfl)
  · exact hnone (d.isSemicolon q hq).isUnderOwn

/-- What stands under a field is the part that is found without it. -/
theorem map_childUnder_or {α : Type} {n : Node} (h : n.children = d.nodes) {field : String}
    (hfield : field ∈ fields) (f : Node → α) :
    ((n.childUnder field).map f).or ((d.partUnder field).map f) = (d.partUnder field).map f := by
  cases hchild : n.childUnder field with
  | none => rfl
  | some c =>
    have hmem : c ∈ d.nodes := h ▸ Node.mem_children_of_childUnder hchild
    rw [d.partUnder_of_isUnder hmem hfield (Node.isUnder_of_childUnder hchild)]
    rfl

/-- The children before the colon. -/
def front : List Node := (d.opening ++ d.nameParts).map Part.node

/-- The children behind the colon. -/
def back : List Node := (d.typeParts ++ d.endParts).map Part.node

theorem opening_cases {q : Part} (hq : q ∈ d.opening) :
    IsMark "shared" q.node ∨ IsClass q.node := by
  simp only [opening, List.mem_append, Option.mem_toList] at hq
  exact hq.imp (d.isShared q) (d.isClass q)

theorem nameParts_cases {q : Part} (hq : q ∈ d.nameParts) : IsName q.node ∨ IsMark "," q.node := by
  simp only [nameParts, List.mem_cons, List.mem_flatMap, List.not_mem_nil, or_false] at hq
  rcases hq with rfl | ⟨other, hother, rfl | rfl⟩
  · exact .inl d.isName
  · exact .inr (d.isOther other hother).1
  · exact .inl (d.isOther other hother).2

theorem splitAt?_nodes : Node.splitAt? (·.isToken ":") d.nodes = some (d.front, d.back) := by
  have hnodes : d.nodes = d.front ++ d.colon.node :: d.back := by simp [nodes, parts, front, back]
  have hfront : ∀ c ∈ d.front, c.isToken ":" = false := by
    intro c hc
    obtain ⟨q, hq, rfl⟩ := List.mem_map.1 hc
    rcases List.mem_append.1 hq with hq | hq
    · rcases d.opening_cases hq with h | h
      · exact (h.isToken_eq ":").trans (by decide)
      · exact isToken_of_oneOf_text h.isClass (by decide)
    · rcases d.nameParts_cases hq with h | h
      · exact isToken_of_named h.named ":"
      · exact (h.isToken_eq ":").trans (by decide)
  rw [hnodes]
  exact Node.splitAt?_append_cons hfront d.isColon.isToken

theorem namesIn_front : namesIn d.front = d.declared.names := by
  have hopening : (d.opening.map Part.node).filter (·.kind == .identifier) = [] := by
    rw [List.filter_eq_nil_iff]
    intro c hc
    obtain ⟨q, hq, rfl⟩ := List.mem_map.1 hc
    rcases d.opening_cases hq with h | h
    · simp [kind_of_not_named h.not_named]
    · simpa using h.kind_ne
  -- Behind the first name a comma and a name take turns, and only the names are identifiers.
  have hothers : ∀ others : List (Part × Part),
      (∀ q ∈ others, IsMark "," q.1.node ∧ IsName q.2.node) →
      ((others.flatMap fun q => [q.1, q.2]).map Part.node).filter (·.kind == .identifier) =
        others.map (·.2.node) := by
    intro others hall
    induction others with
    | nil => rfl
    | cons q others ih =>
      obtain ⟨hcomma, hname⟩ := hall q List.mem_cons_self
      have hrest := ih fun x hx => hall x (List.mem_cons_of_mem q hx)
      simpa [kind_of_not_named hcomma.not_named, hname.kind] using hrest
  have hnames : d.front.filter (·.kind == .identifier) = d.names := by
    rw [front, List.map_append, List.filter_append, hopening, nameParts, List.map_cons,
      List.filter_cons_of_pos (by simp [d.isName.kind]), hothers d.others d.isOther]
    rfl
  have hdeclared : d.declared.names = d.names.map fun c => (c.text, c.line) := rfl
  rw [namesIn, hnames, hdeclared]
  refine List.map_congr_left fun c hc => ?_
  rw [Node.trimmed, (d.isName_of_mem_names hc).isIdentifier.trim_eq]

theorem classWord?_front :
    (d.front.filterMap classWord?).getLast? = d.declared.objectClass := by
  have hnames : (d.nameParts.map Part.node).filterMap classWord? = [] := by
    rw [List.filterMap_eq_nil_iff]
    intro c hc
    obtain ⟨q, hq, rfl⟩ := List.mem_map.1 hc
    rcases d.nameParts_cases hq with h | h
    · exact h.classWord?_eq_none
    · exact h.classWord?_eq_none (by decide)
  have hshared : (d.shared.toList.map Part.node).filterMap classWord? = [] := by
    rw [List.filterMap_eq_nil_iff]
    intro c hc
    obtain ⟨q, hq, rfl⟩ := List.mem_map.1 hc
    exact (d.isShared q (Option.mem_toList.1 hq)).classWord?_eq_none (by decide)
  rw [front, List.map_append, List.filterMap_append, hnames, List.append_nil, opening,
    List.map_append, List.filterMap_append, hshared, List.nil_append, declared]
  cases hclass : d.objectClass with
  | none => rfl
  | some q => simp [(d.isClass q hclass).classWord?_eq]

theorem isToken_shared_front : d.front.any (·.isToken "shared") = d.declared.shared := by
  have hnames : (d.nameParts.map Part.node).any (·.isToken "shared") = false := by
    rw [List.any_eq_false]
    intro c hc
    obtain ⟨q, hq, rfl⟩ := List.mem_map.1 hc
    rcases d.nameParts_cases hq with h | h
    · simp [isToken_of_named h.named]
    · rw [h.isToken_eq]
      decide
  have hclass : (d.objectClass.toList.map Part.node).any (·.isToken "shared") = false := by
    rw [List.any_eq_false]
    intro c hc
    obtain ⟨q, hq, rfl⟩ := List.mem_map.1 hc
    have htoken : q.node.isToken "shared" = false :=
      isToken_of_oneOf_text (d.isClass q (Option.mem_toList.1 hq)).isClass (by decide)
    simp [htoken]
  rw [front, List.map_append, List.any_append, hnames, Bool.or_false, opening, List.map_append,
    List.any_append, hclass, Bool.or_false, declared]
  cases hshared : d.shared with
  | none => rfl
  | some q => simp [(d.isShared q hshared).isToken]

theorem foldl_typeParts :
    (d.typeParts.map Part.node).foldl TypePart.add {} =
      { mode := d.declared.mode, nodes := [d.type.node] } := by
  rw [typeParts, List.map_append, List.foldl_append, declared]
  cases hmode : d.mode with
  | none => exact d.isType.add_eq {}
  | some q =>
    show TypePart.add (TypePart.add {} q.node) d.type.node = _
    rw [(d.isMode q hmode).add_eq, d.isType.add_eq]
    rfl

/-- What the children behind the colon say: the mode, the type and the default. -/
theorem splitAt?_back :
    let sides := (Node.splitAt? (·.isToken ":=") d.back).getD (d.back, [])
    sides.1.foldl TypePart.add {} = { mode := d.declared.mode, nodes := [d.type.node] } ∧
      Node.spanText (sides.2.filter fun c => !c.isToken ";") = d.declared.default := by
  have htype : ∀ c ∈ d.typeParts.map Part.node, c.isToken ":=" = false := by
    intro c hc
    obtain ⟨q, hq, rfl⟩ := List.mem_map.1 hc
    rcases List.mem_append.1 hq with hq | hq
    · exact isToken_of_oneOf_text (d.isMode q (Option.mem_toList.1 hq)).isMode (by decide)
    · obtain rfl := List.mem_singleton.1 hq
      exact isToken_of_named d.isType.named ":="
  have hsemicolon : ∀ c ∈ d.semicolon.toList.map Part.node, IsMark ";" c := by
    intro c hc
    obtain ⟨q, hq, rfl⟩ := List.mem_map.1 hc
    exact d.isSemicolon q (Option.mem_toList.1 hq)
  cases hdefault : d.default with
  | none =>
    -- Without a default all that follows the colon belongs to the type, and a semicolon adds
    -- nothing.
    have hback : d.back = d.typeParts.map Part.node ++ d.semicolon.toList.map Part.node := by
      simp [back, endParts, hdefault]
    have hnone : Node.splitAt? (·.isToken ":=") d.back = none := by
      refine Node.splitAt?_eq_none fun c hc => ?_
      rw [hback] at hc
      rcases List.mem_append.1 hc with hc | hc
      · exact htype c hc
      · exact ((hsemicolon c hc).isToken_eq ":=").trans (by decide)
    rw [hnone]
    refine ⟨?_, ?_⟩
    · show d.back.foldl TypePart.add {} = _
      rw [hback, List.foldl_append, d.foldl_typeParts]
      cases hsemi : d.semicolon with
      | none => rfl
      | some q => exact (d.isSemicolon q hsemi).add_semicolon (List.cons_ne_nil _ _)
    · simp [declared, hdefault, Node.spanText]
  | some q =>
    obtain ⟨hassign, hvalue⟩ := d.isDefault q hdefault
    have hback : d.back = d.typeParts.map Part.node ++
        q.1.node :: q.2.node :: d.semicolon.toList.map Part.node := by
      simp [back, endParts, hdefault]
    have hsplit : Node.splitAt? (·.isToken ":=") d.back =
        some (d.typeParts.map Part.node, q.2.node :: d.semicolon.toList.map Part.node) := by
      rw [hback]
      exact Node.splitAt?_append_cons htype hassign.isToken
    rw [hsplit]
    refine ⟨d.foldl_typeParts, ?_⟩
    -- Behind the assignment mark stand the default and at most a semicolon.
    have hfilter : (q.2.node :: d.semicolon.toList.map Part.node).filter (fun c => !c.isToken ";") =
        [q.2.node] := by
      rw [List.filter_cons_of_pos (by simp [isToken_of_named hvalue.named]),
        List.filter_eq_nil_iff.2]
      intro c hc
      simp [(hsemicolon c hc).isToken]
    show Node.spanText (List.filter _ (q.2.node :: d.semicolon.toList.map Part.node)) = _
    rw [hfilter, declared, hdefault]
    rfl

theorem objectClass_declared :
    d.declared.objectClass = (d.partUnder "class").map fun c => lower c.trimmed := by
  cases hclass : d.objectClass with
  | none => simp [declared, partUnder, hclass]
  | some q =>
    have htoken : IsToken q.node.text := isToken_of_oneOf (by decide) (d.isClass q hclass).isClass
    simp [declared, partUnder, hclass, Node.trimmed, trim_eq_self htoken.not_blank]

theorem mode_declared :
    d.declared.mode = (d.partUnder "direction").map fun c => lower c.trimmed := by
  cases hmode : d.mode with
  | none => simp [declared, partUnder, hmode]
  | some q =>
    have htoken : IsToken q.node.text := isToken_of_oneOf (by decide) (d.isMode q hmode).isMode
    simp [declared, partUnder, hmode, Node.trimmed, trim_eq_self htoken.not_blank]

theorem default_declared :
    d.declared.default = (d.partUnder "default").map fun c => squash c.text := by
  simp [declared, partUnder, Function.comp_def]

theorem ofNode_of_children {n : Node} (h : n.children = d.nodes) : ofNode n = d.declared := by
  obtain ⟨hpart, hdefault⟩ := d.splitAt?_back
  have htype : ((n.childUnder "type").map fun c => squash c.text).or
      (Node.spanText [d.type.node]) = some (squash d.type.node.text) :=
    d.map_childUnder_or h (by decide) fun c => squash c.text
  rw [ofNode, h, d.splitAt?_nodes]
  dsimp only
  rw [ofParts]
  dsimp only
  rw [hpart, hdefault, d.namesIn_front, d.classWord?_front, d.isToken_shared_front, htype,
    d.objectClass_declared, d.mode_declared, d.default_declared,
    d.map_childUnder_or h (by decide), d.map_childUnder_or h (by decide),
    d.map_childUnder_or h (by decide), ← d.objectClass_declared, ← d.mode_declared,
    ← d.default_declared]
  rfl

end Written

/-- A declaration comes out of a tree as it is written. It comes out of its text in the same way if
and only if it is clear. -/
theorem object_declaration_written (d : Written) {n : Node} (hchildren : n.children = d.nodes)
    (htext : n.text = d.text) (line : Nat) :
    ofNode n = d.declared ∧ (ofText n.text line = (ofNode n).onLine line ↔ d.IsClear) := by
  have hnode := d.ofNode_of_children hchildren
  rw [hnode, htext]
  exact ⟨rfl, d.ofText_text_iff line⟩

namespace Written

theorem isUnderOwn_of_field_eq_none {c : Node} (h : c.field = none) (own : Option String) :
    IsUnderOwn own c := by
  intro field _ hunder
  simp [Node.isUnder, h] at hunder

/-- A node behind a space. -/
def spaced (n : Node) : Part := ⟨[' '], n, List.all_eq_true.1 (by decide)⟩

/-- A node behind no blanks. -/
def glued (n : Node) : Part := ⟨[], n, isBlanks_nil⟩

/-- Two shared variables with all optional parts. -/
def counters : Written where
  shared := some (glued (.word "shared"))
  objectClass := some (spaced (.word "Variable"))
  name := spaced (.leaf "identifier" "ticks")
  others := [(glued (.word ","), spaced (.leaf "extended_identifier" "\\a:=b\\"))]
  colon := glued (.word ":")
  mode := some (spaced (.leaf "mode" "InOut"))
  type := spaced (.under "type" (.leaf "subtype_indication" "integer  range 0 to 7"))
  default := some (spaced (.word ":="), glued (.leaf "expression" "f(2);  "))
  semicolon := some (glued (.word ";"))
  last := ['\n']
  isShared := by
    rintro q ⟨⟩
    exact ⟨by decide, isUnderOwn_of_field_eq_none rfl _⟩
  isClass := by
    rintro q ⟨⟩
    exact ⟨by decide, .inl rfl, isUnderOwn_of_field_eq_none rfl _⟩
  isName := ⟨by decide, .of_all (by decide) (by decide) (by decide),
    by decide, isUnderOwn_of_field_eq_none rfl _⟩
  isOther := by
    intro q hq
    obtain rfl := List.mem_singleton.1 hq
    exact ⟨⟨by decide, isUnderOwn_of_field_eq_none rfl _⟩, by decide, .extended "a:=b".toList,
      by decide, isUnderOwn_of_field_eq_none rfl _⟩
  isColon := ⟨by decide, isUnderOwn_of_field_eq_none rfl _⟩
  isMode := by
    rintro q ⟨⟩
    exact ⟨by decide, .inr (by decide), isUnderOwn_of_field_eq_none rfl _⟩
  isType := by
    refine ⟨rfl, by decide, by decide, by decide, by decide, by decide, by decide, ?_⟩
    intro field _ hunder
    exact (beq_iff_eq.1 hunder)
  isDefault := by
    rintro q ⟨⟩
    exact ⟨⟨by decide, isUnderOwn_of_field_eq_none rfl _⟩, rfl, by decide, by decide,
      isUnderOwn_of_field_eq_none rfl _⟩
  isSemicolon := by
    rintro q ⟨⟩
    exact ⟨by decide, isUnderOwn_of_field_eq_none rfl _⟩
  isBlanks_last := List.all_eq_true.1 (by decide)
  shared_apart := by decide
  class_apart := by decide
  mode_apart := by decide
  colon_apart := by decide

/-- The node of these variables. -/
def countersNode : Node :=
  { Node.leaf "variable_declaration"
      "shared Variable ticks, \\a:=b\\: InOut integer  range 0 to 7 :=f(2);  ;\n" with
    children := counters.nodes }

end Written

open Written in
theorem object_declaration_written_counters :
    counters.IsClear ∧ ofNode countersNode = counters.declared ∧
      ofText countersNode.text 1 = counters.declared.onLine 1 := by
  have hclear : counters.IsClear := by
    have hnames : (counters.names.all fun c =>
        !c.text.contains ',' && decide (ColonsAssign c.text)) = true := by decide
    simp only [List.all_eq_true, Bool.and_eq_true, Bool.not_eq_true', decide_eq_true_iff] at hnames
    exact ⟨fun c hc => by simpa using (hnames c hc).1, fun c hc => (hnames c hc).2, nofun⟩
  have hwritten := object_declaration_written counters (n := countersNode) rfl (by decide) 1
  exact ⟨hclear, hwritten.1, by rw [hwritten.2.2 hclear, hwritten.1]⟩

/-- A signal whose name is an extended identifier with a comma in it. -/
def laneNode : Node :=
  { Node.leaf "signal_declaration" "signal \\lane,0\\ : std_logic ;" with
    children := [.word "signal", .leaf "extended_identifier" "\\lane,0\\", .word ":",
      .leaf "identifier" "std_logic", .word ";"] }

/-- The children give the one name, and the text gives two. -/
theorem lane_split_in_text :
    (ofNode laneNode).names = [("\\lane,0\\".toList, 1)] ∧
      (ofText laneNode.text 1).names = [("\\lane".toList, 1), ("0\\".toList, 1)] := by
  decide +kernel

end DesignFacts.ObjectDeclaration
