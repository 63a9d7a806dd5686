import DesignFacts.Proofs.Bound.Evaluation

/-!
# Evaluation with more constants

A text that has a value keeps it when constants are added. This is not plain from the order of an
evaluation: it asks for the whole text as the name of a constant before it looks for an operator, so
that a new constant could take the place of an operation.

**Identifiers** (`IsIdentifier`). A basic identifier holds no operator, and no text with an operator
is taken for one. An extended identifier such as `\a+b\` is any text between two backslashes, with
every backslash in it written twice. It can hold operators.

**Unclosed texts** (`Unclosed`). In front of an operator in an extended identifier, the number of
backslashes is odd: the first one, and pairs. An identifier has an even number. So the text in front
of the operator is no name, is no literal, and if it is split itself, its own left side is of the
same kind. It has no value (`evaluate_unclosed`), and there was no operation to take the place of.

Main result: `evaluate_of_extends`.
-/

namespace DesignFacts.Bound

open Text Numeral

variable {m m' : Constants} {c op : Char} {l r s t : Text}

/-! ## Identifiers -/

/-- What stands between the backslashes of an extended identifier. -/
inductive Escaped : Text → Prop
  | nil : Escaped []
  | char {c : Char} {t : Text} (hc : c ≠ '\\') (h : Escaped t) : Escaped (c :: t)
  | backslash {t : Text} (h : Escaped t) : Escaped ('\\' :: '\\' :: t)

/-- An identifier: a name without backslashes, or an escaped text between two of them. -/
inductive IsIdentifier : Text → Prop
  | basic {t : Text} (hname : IsName t) (hplain : '\\' ∉ t) : IsIdentifier t
  | extended {t : Text} (h : Escaped t) : IsIdentifier ('\\' :: (t ++ ['\\']))

def operators : List Char := ['+', '-', '*', '/']

theorem ne_backslash_of_mem_operators (h : op ∈ operators) : op ≠ '\\' := by
  rintro rfl
  exact absurd h (by decide)

theorem mem_marks_of_mem_operators (h : op ∈ operators) : op ∈ marks := by
  simp only [operators, List.mem_cons, List.not_mem_nil, or_false] at h
  rcases h with rfl | rfl | rfl | rfl <;> decide

theorem toLower_of_mem_operators (h : op ∈ operators) : op.toLower = op := by
  simp only [operators, List.mem_cons, List.not_mem_nil, or_false] at h
  rcases h with rfl | rfl | rfl | rfl <;> decide

/-! ### Small letters -/

theorem Escaped.lower (h : Escaped t) : Escaped (lower t) := by
  induction h with
  | nil => exact .nil
  | char hc _ ih => exact .char (mt (toLower_eq_iff (by decide) _).1 hc) ih
  | backslash _ ih => exact .backslash ih

theorem IsName.lower (h : IsName t) : IsName (lower t) where
  plain := by
    intro c hc
    obtain ⟨x, hx, rfl⟩ := List.mem_map.1 hc
    obtain ⟨⟨hblank, hmark⟩, hhash⟩ := h.plain x hx
    refine ⟨⟨by rwa [isBlank_toLower], fun hmem => hmark ?_⟩, ?_⟩
    · have hletters : marks.all (!·.isAlpha) = true := by decide
      have hcontains := contains_toLower hletters x
      rwa [List.contains_iff_mem.2 hmem, eq_comm, List.contains_iff_mem] at hcontains
    · exact mt (toLower_eq_iff (by decide) x).1 hhash
  letter := by
    obtain ⟨x, hx, hdigit, hunderscore⟩ := h.letter
    refine ⟨x.toLower, List.mem_map_of_mem hx, by rwa [isDigit_toLower], ?_⟩
    exact mt (toLower_eq_iff (by decide) x).1 hunderscore

theorem IsIdentifier.lower (h : IsIdentifier t) : IsIdentifier (lower t) := by
  cases h with
  | basic hname hplain => exact .basic hname.lower (mt (mem_lower t (by decide)).1 hplain)
  | @extended inner h =>
    rw [lower_cons, lower_append]
    exact .extended h.lower

theorem count_backslash_lower (t : Text) : (lower t).count '\\' = t.count '\\' := by
  induction t with
  | nil => rfl
  | cons c t ih =>
    rw [lower_cons, List.count_cons, List.count_cons, ih, toLower_beq (by decide)]

/-! ### Backslashes -/

theorem Escaped.count_even (h : Escaped t) : t.count '\\' % 2 = 0 := by
  induction h with
  | nil => rfl
  | char hc _ ih => rwa [List.count_cons_of_ne hc]
  | backslash _ ih =>
    rw [List.count_cons_self, List.count_cons_self]
    omega

/-- In front of another character, the backslashes come in pairs. -/
theorem Escaped.count_even_before (h : Escaped t) (hc : c ≠ '\\') :
    ∀ {l r : Text}, t = l ++ c :: r → l.count '\\' % 2 = 0 := by
  induction h with
  | nil =>
    intro l r heq
    exact absurd heq.symm (by simp)
  | char hd _ ih =>
    intro l r heq
    cases l with
    | nil => rfl
    | cons x l =>
      obtain ⟨hx, htail⟩ := List.cons.inj heq
      rw [← hx, List.count_cons_of_ne hd]
      exact ih htail
  | backslash _ ih =>
    intro l r heq
    match l, heq with
    | [], heq => exact absurd (List.cons.inj heq).1.symm hc
    | [x], heq => exact absurd (List.cons.inj (List.cons.inj heq).2).1.symm hc
    | x :: y :: l, heq =>
      obtain ⟨hx, htail⟩ := List.cons.inj heq
      obtain ⟨hy, htail⟩ := List.cons.inj htail
      have hrest := ih htail
      rw [← hx, ← hy, List.count_cons_self, List.count_cons_self]
      omega

theorem IsIdentifier.count_even (h : IsIdentifier t) : t.count '\\' % 2 = 0 := by
  cases h with
  | basic _ hplain => rw [List.count_eq_zero.2 hplain]
  | extended h =>
    have heven := h.count_even
    rw [List.count_cons_self, List.count_append, List.count_singleton_self]
    omega

/-- In front of an operator, the backslash that opens an identifier has no partner. -/
theorem IsIdentifier.count_odd_before (h : IsIdentifier (l ++ op :: r)) (hop : op ∈ operators) :
    l.count '\\' % 2 = 1 := by
  have hne : op ≠ '\\' := ne_backslash_of_mem_operators hop
  generalize htext : l ++ op :: r = t at h
  cases h with
  | basic hname _ =>
    have hmem : op ∈ t := by simp [← htext]
    exact absurd hname (not_isName_of_mem hmem (mem_marks_of_mem_operators hop))
  | @extended inner h =>
    cases l with
    | nil => exact absurd (List.cons.inj htext).1 hne
    | cons x l =>
      obtain ⟨hx, hrest⟩ := List.cons.inj htext
      -- The operator is not the last character, which is a backslash.
      rcases List.eq_nil_or_concat r with rfl | ⟨r, y, rfl⟩
      · have hlast : [op] = ['\\'] := (List.append_inj' hrest rfl).2
        exact absurd (List.cons.inj hlast).1 hne
      · have hsplit : (l ++ op :: r) ++ [y] = inner ++ ['\\'] := by simpa using hrest
        have hinner : l ++ op :: r = inner := (List.append_inj' hsplit rfl).1
        have heven := h.count_even_before hne hinner.symm
        rw [hx, List.count_cons_self]
        omega

/-! ## Unclosed texts -/

/-- The beginning of an identifier, with an odd number of backslashes. -/
structure Unclosed (t : Text) : Prop where
  odd : t.count '\\' % 2 = 1
  begins : ∃ rest, IsIdentifier (lower t ++ rest)

theorem Unclosed.exists_eq_cons (h : Unclosed t) : ∃ rest, t = '\\' :: rest := by
  have hmem : '\\' ∈ t := by
    refine List.count_pos_iff.1 ?_
    have hodd := h.odd
    omega
  obtain ⟨rest, hrest⟩ := h.begins
  generalize htext : lower t ++ rest = whole at hrest
  cases hrest with
  | basic _ hplain =>
    refine absurd ?_ hplain
    rw [← htext]
    exact List.mem_append_left rest ((mem_lower t (by decide)).2 hmem)
  | extended _ =>
    cases t with
    | nil => exact absurd hmem List.not_mem_nil
    | cons x t =>
      have hx : x.toLower = '\\' := (List.cons.inj htext).1
      exact ⟨t, by rw [(toLower_eq_iff (by decide) x).1 hx]⟩

/-- Blanks at the end are no backslashes. -/
theorem Unclosed.trimEnd (h : Unclosed t) : Unclosed (Text.trimEnd t) := by
  obtain ⟨b, hb, hsplit⟩ := exists_eq_trimEnd_append t
  have hnone : b.count '\\' = 0 :=
    List.count_eq_zero.2 fun hmem => absurd (hb '\\' hmem) (by decide)
  have hodd := h.odd
  obtain ⟨rest, hrest⟩ := h.begins
  refine ⟨?_, Text.lower b ++ rest, ?_⟩
  · rw [hsplit, List.count_append, hnone] at hodd
    exact hodd
  · rwa [hsplit, lower_append, List.append_assoc] at hrest

/-- The left side of an operator in an unclosed text is unclosed. -/
theorem Unclosed.left (h : Unclosed (l ++ op :: r)) (hop : op ∈ operators) : Unclosed l := by
  obtain ⟨rest, hrest⟩ := h.begins
  rw [lower_append, lower_cons, toLower_of_mem_operators hop, List.append_assoc,
    List.cons_append] at hrest
  refine ⟨?_, _, hrest⟩
  rw [← count_backslash_lower]
  exact hrest.count_odd_before hop

theorem Unclosed.core_eq (h : Unclosed t) : core t = Text.trimEnd t := by
  obtain ⟨rest, rfl⟩ := h.exists_eq_cons
  obtain ⟨kept, hkept⟩ := exists_trimEnd_cons (c := '\\') (by decide) rest
  rw [core, trim, trimStart_cons (by decide), hkept, stripParens_eq, enclosed?_cons (by decide)]

/-- No literal begins with a backslash. -/
theorem integer?_backslash (t : Text) : integer? ('\\' :: t) = none := by
  have hdigit : digit? 10 '\\' = none := by decide
  unfold integer?
  split
  · have hmark : ('\\' == '#') = false := by decide
    have hbase (u : Text) : unsigned? 10 word32 (trim ('\\' :: u)) = none := by
      obtain ⟨kept, hkept⟩ := exists_trimEnd_cons (c := '\\') (by decide) u
      have hdigits : digits? 10 ('\\' :: kept) = none :=
        digits?_eq_none_of_mem (List.mem_cons_self ..) hdigit
      rw [trim, trimStart_cons (by decide), hkept]
      show (digits? 10 ('\\' :: kept)).filter (· < word32) = none
      rw [hdigits, Option.filter_none]
    unfold based? splitOn
    rw [splitWith, hmark, if_neg (by simp)]
    cases hsplit : splitWith (· == '#') t with
    | nil => rfl
    | cons part parts =>
      cases parts with
      | nil => rfl
      | cons digits rest =>
        show (unsigned? 10 word32 (trim ('\\' :: part))).bind _ = none
        rw [hbase, Option.bind_none]
  · have hmem : '\\' ∈ ('\\' :: t).filter (· != '_') := List.mem_filter.2 ⟨by simp, by decide⟩
    rw [signed?_of_unsigned (by simp), digits?_eq_none_of_mem hmem hdigit, Option.bind_none]

/-! ## Splitting -/

theorem splitLast_eq_some {ops : List Char} {d : Int} {o : Bool}
    (h : splitLast ops d o t = some (l, op, r)) : t = l ++ op :: r ∧ op ∈ ops := by
  induction t generalizing d o l with
  | nil => cases h
  | cons c t ih =>
    cases hrest : splitLast ops (depthStep d c) (operandStep o c) t with
    | some parts =>
      obtain ⟨left, op', right⟩ := parts
      rw [splitLast_cons_of_some hrest] at h
      cases h
      obtain ⟨rfl, hop⟩ := ih hrest
      exact ⟨rfl, hop⟩
    | none =>
      rw [splitLast_cons_of_none hrest] at h
      split at h
      · rename_i hhere
        cases h
        simp only [Bool.and_eq_true, List.contains_iff_mem] at hhere
        exact ⟨rfl, hhere.1.2⟩
      · cases h

theorem split?_eq_some (h : split? t = some (l, op, r)) :
    t = l ++ op :: r ∧ op ∈ operators := by
  rcases Option.or_eq_some_iff.1 h with h | ⟨-, h⟩
  · obtain ⟨htext, hop⟩ := splitLast_eq_some h
    exact ⟨htext, List.mem_append_left ['*', '/'] hop⟩
  · obtain ⟨htext, hop⟩ := splitLast_eq_some h
    exact ⟨htext, List.mem_append_right ['+', '-'] hop⟩

theorem combine_eq_some {x y : Except Fault (Option Int)} {v : Int}
    (h : combine op x y = .ok (some v)) :
    ∃ a b, x = .ok (some a) ∧ y = .ok (some b) ∧ operate op a b = .ok (some v) := by
  unfold combine at h
  split at h
  · cases h
  · cases h
  · cases h
  · cases h
  · exact ⟨_, _, rfl, rfl, h⟩

/-! ## More constants -/

/-- The constants stand under identifiers. -/
def Identified (m : Constants) : Prop := ∀ key ∈ m.keys, IsIdentifier key

/-- `m'` has all constants of `m`, with their values. -/
def Extends (m m' : Constants) : Prop := ∀ key v, m.get? key = some v → m'.get? key = some v

theorem Extends.refl (m : Constants) : Extends m m := fun _ _ h => h

theorem Extends.trans {m'' : Constants} (h : Extends m m') (h' : Extends m' m'') :
    Extends m m'' := fun key v hv => h' key v (h key v hv)

theorem mem_keys_of_get? {key : Text} {v : Int} (h : m.get? key = some v) : key ∈ m.keys := by
  obtain ⟨entry, hfind, -⟩ := Option.map_eq_some_iff.1 h
  have hkey : entry.1 = key := by simpa using List.find?_some hfind
  exact hkey ▸ List.mem_map_of_mem (List.mem_of_find?_eq_some hfind)

theorem exists_get?_of_mem_keys {key : Text} (h : key ∈ m.keys) : ∃ v, m.get? key = some v := by
  obtain ⟨entry, hentry, rfl⟩ := List.mem_map.1 h
  have hfound : (m.find? fun e => e.1 = entry.1).isSome :=
    List.find?_isSome.2 ⟨entry, hentry, decide_eq_true rfl⟩
  obtain ⟨found, hfound⟩ := Option.isSome_iff_exists.1 hfound
  exact ⟨found.2, by rw [Assoc.get?, hfound, Option.map_some]⟩

theorem Identified.of_extends (hm' : Identified m') (h : Extends m m') : Identified m := by
  intro key hkey
  obtain ⟨v, hv⟩ := exists_get?_of_mem_keys hkey
  exact hm' key (mem_keys_of_get? (h key v hv))

theorem get?_eq_none_of_not_mem_keys {key : Text} (h : key ∉ m.keys) : m.get? key = none := by
  cases hget : m.get? key with
  | none => rfl
  | some v => exact absurd (mem_keys_of_get? hget) h

/-- An unclosed text has no value. -/
theorem evaluate_unclosed (hm : Identified m) {t : Text} (h : Unclosed t) :
    evaluate m t = .ok none := by
  have hcore := h.trimEnd
  obtain ⟨rest, hrest⟩ := hcore.exists_eq_cons
  have hkey : m.get? (lower (trimEnd t)) = none := by
    refine get?_eq_none_of_not_mem_keys fun hmem => ?_
    have heven := (hm _ hmem).count_even
    have hodd := hcore.odd
    rw [count_backslash_lower] at heven
    omega
  have hatom : atom? m (trimEnd t) = none := by
    rw [atom?, hkey, hrest, integer?_backslash, Option.none_or, ite_self]
  rw [evaluate_eq, h.core_eq, hatom]
  cases hsplit : split? (trimEnd t) with
  | none => rfl
  | some parts =>
    obtain ⟨left, op, right⟩ := parts
    obtain ⟨htext, hop⟩ := split?_eq_some hsplit
    have hlen := length_split? hsplit
    have hle := length_core_le t
    have hlt : left.length < t.length := by
      rw [h.core_eq] at hle
      omega
    -- The left side is shorter and unclosed as well, and without its value there is none.
    have hleft : evaluate m left = .ok none := evaluate_unclosed hm (htext ▸ hcore |>.left hop)
    show combine op (evaluate m left) (evaluate m right) = .ok none
    rw [hleft]
    rfl
termination_by t.length

theorem atom?_of_extends (h : Extends m m') {v : Int} (hv : atom? m t = some v) :
    atom? m' t = some v := by
  unfold atom? at hv ⊢
  split at hv
  · cases hv
  · rename_i hne
    rw [if_neg hne]
    rcases Option.or_eq_some_iff.1 hv with hv | ⟨hliteral, hv⟩
    · rw [hv, Option.some_or]
    · rw [hliteral, Option.none_or, h _ v hv]

/-- No constant takes the place of an operation that has a value. -/
theorem atom?_eq_none_of_split (hm : Identified m) (hm' : Identified m')
    (hatom : atom? m t = none) (hsplit : split? t = some (l, op, r)) {a : Int}
    (hleft : evaluate m l = .ok (some a)) : atom? m' t = none := by
  obtain ⟨htext, hop⟩ := split?_eq_some hsplit
  have hne : ¬ t.isEmpty = true := by simp [htext]
  have hliteral : integer? t = none := by
    rw [atom?, if_neg hne] at hatom
    exact (Option.or_eq_none_iff.1 hatom).1
  rw [atom?, if_neg hne, hliteral, Option.none_or]
  refine get?_eq_none_of_not_mem_keys fun hmem => ?_
  have hidentifier := hm' _ hmem
  rw [htext, lower_append, lower_cons, toLower_of_mem_operators hop] at hidentifier
  have hodd := hidentifier.count_odd_before hop
  rw [count_backslash_lower] at hodd
  rw [evaluate_unclosed hm ⟨hodd, _, hidentifier⟩] at hleft
  cases hleft

/-- **Values stay when constants are added.** -/
theorem evaluate_of_extends (hm' : Identified m') (h : Extends m m') {t : Text} {v : Int}
    (hv : evaluate m t = .ok (some v)) : evaluate m' t = .ok (some v) := by
  rw [evaluate_eq] at hv ⊢
  cases hatom : atom? m (core t) with
  | some w =>
    rw [hatom] at hv
    rw [atom?_of_extends h hatom]
    exact hv
  | none =>
    rw [hatom] at hv
    cases hsplit : split? (core t) with
    | none =>
      rw [hsplit] at hv
      cases hv
    | some parts =>
      obtain ⟨left, op, right⟩ := parts
      rw [hsplit] at hv
      obtain ⟨a, b, hleft, hright, hresult⟩ := combine_eq_some hv
      have hlen := length_split? hsplit
      have hle := length_core_le t
      rw [atom?_eq_none_of_split (hm'.of_extends h) hm' hatom hsplit hleft]
      show combine op (evaluate m' left) (evaluate m' right) = .ok (some v)
      rw [evaluate_of_extends hm' h hleft, evaluate_of_extends hm' h hright]
      exact hresult
termination_by t.length

end DesignFacts.Bound
