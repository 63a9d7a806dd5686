import DesignFacts.Expression.Relation
import DesignFacts.Proofs.Text.WholeWord

/-!
# The search for a relational operator

`findOperator` looks for the first relational operator of a text. A text is passed over if the
search goes on behind it as if it began there (`Passes`). This holds of strings and characters with
operator signs in them, but for a character beyond ASCII, and of texts without signs.

**What is found.** The search knows the six plain operators, and what it finds are the sides of one
of them (`foundIn_findOperator`). Each of them is found where it stands (`findOperator_plain`).

**Names.** An extended identifier may hide an operator, an arrow or the beginning of a string. It is
passed over if and only if one operator behind it is found (`IsPassed.findOperator_append`).
-/

namespace DesignFacts

open Text

variable {t u l r : Text}

/-! ## What the search passes over -/

namespace OperatorSearch

/-- Put a text before what was searched. -/
def append (l : Text) (s : OperatorSearch) : OperatorSearch := l.foldr cons s

theorem append_found (l left operator right : Text) :
    append l (found left operator right) = found (l ++ left) operator right := by
  induction l with
  | nil => rfl
  | cons c l ih => exact congrArg (cons c) ih

theorem append_deadEnd (l : Text) : append l deadEnd = deadEnd := by
  induction l with
  | nil => rfl
  | cons c l ih => exact congrArg (cons c) ih

theorem append_absent (l : Text) : append l absent = absent := by
  induction l with
  | nil => rfl
  | cons c l ih => exact congrArg (cons c) ih

theorem exists_of_append_eq_found {s : OperatorSearch} {k l o r : Text}
    (h : append k s = found l o r) : ∃ l', l = k ++ l' := by
  cases s with
  | found left operator right =>
    rw [append_found] at h
    exact ⟨left, (found.inj h).1.symm⟩
  | deadEnd => cases (append_deadEnd k).symm.trans h
  | absent => cases (append_absent k).symm.trans h

theorem cons_eq_found_iff {c : Char} {s : OperatorSearch} {l o r : Text} :
    cons c s = found l o r ↔ ∃ l', l = c :: l' ∧ s = found l' o r := by
  cases s with
  | found left operator right =>
    simp only [cons, found.injEq]
    constructor
    · rintro ⟨rfl, rfl, rfl⟩
      exact ⟨left, rfl, rfl, rfl, rfl⟩
    · rintro ⟨l', rfl, rfl, rfl, rfl⟩
      exact ⟨rfl, rfl, rfl⟩
  | deadEnd => simp [cons]
  | absent => simp [cons]

theorem found_of_cons {c : Char} {s : OperatorSearch} {l o r : Text}
    (h : cons c s = found (c :: l) o r) : s = found l o r := by
  obtain ⟨l', hl, hs⟩ := cons_eq_found_iff.1 h
  rwa [(List.cons.inj hl).2]

end OperatorSearch

/-- The search for an operator passes over a text, whatever follows it. -/
def Passes (l : Text) : Prop := ∀ t, findOperator (l ++ t) = .append l (findOperator t)

/-- The characters at which the search does something. -/
def isSign (c : Char) : Bool := ['"', '\'', '/', '<', '>', '='].contains c

/-- A character without a property that all signs have is none of them. -/
theorem isSign_eq_false {p : Char → Bool} (hall : ['"', '\'', '/', '<', '>', '='].all p = true)
    {c : Char} (hc : p c = false) : isSign c = false := by
  rw [Bool.eq_false_iff]
  intro hsign
  have hp := List.all_eq_true.1 hall c (by simpa [isSign] using hsign)
  exact Bool.false_ne_true (hc.symm.trans hp)

theorem isSign_of_isBlank {c : Char} (hc : isBlank c = true) : isSign c = false :=
  isSign_eq_false (p := (!isBlank ·)) (by decide) (by simp [hc])

theorem isSign_of_isNameChar {c : Char} (hc : isNameChar c = true) : isSign c = false :=
  isSign_eq_false (p := (!isNameChar ·)) (by decide) (by simp [hc])

theorem isSign_of_isIdent {c : Char} (hc : isIdent c = true) : isSign c = false :=
  isSign_of_isNameChar (by simp [isNameChar, hc])

theorem isSign_of_le {c : Char} (hc : 0x80 ≤ c.toNat) : isSign c = false :=
  isSign_eq_false (p := (·.toNat < 0x80)) (by decide) (by simpa using hc)

theorem findOperator_cons_of_not {c : Char} (hc : isSign c = false) (t : Text) :
    findOperator (c :: t) = .cons c (findOperator t) := by
  rw [findOperator]
  all_goals
    intros
    subst_vars
    exact absurd hc (by decide)

theorem Passes.append {k l : Text} (hk : Passes k) (hl : Passes l) : Passes (k ++ l) := by
  intro t
  rw [List.append_assoc, hk, hl, OperatorSearch.append, OperatorSearch.append,
    OperatorSearch.append, List.foldr_append]

theorem passes_of_not_isSign (h : ∀ c ∈ l, isSign c = false) : Passes l := by
  intro t
  induction l with
  | nil => rfl
  | cons c l ih =>
    rw [List.cons_append, findOperator_cons_of_not (h c (by simp)),
      ih fun x hx => h x (by simp [hx])]
    rfl

theorem passes_blanks (h : IsBlanks l) : Passes l :=
  passes_of_not_isSign fun c hc => isSign_of_isBlank (h c hc)

/-- A character of ASCII between quotes is passed over, whatever it is. -/
theorem passes_character {c : Char} (hc : c.toNat < 0x80) : Passes ['\'', c, '\''] := by
  intro t
  show findOperator ('\'' :: c :: '\'' :: t) = _
  rw [findOperator, if_pos hc]
  rfl

/-- The inside of a string: quotes stand in it as pairs only. -/
inductive IsStringBody : Text → Prop
  | nil : IsStringBody []
  | cons {c : Char} {body : Text} (hc : c ≠ '"') (h : IsStringBody body) : IsStringBody (c :: body)
  | pair {body : Text} (h : IsStringBody body) : IsStringBody ('"' :: '"' :: body)

theorem findAfterString_body {body : Text} (h : IsStringBody body) (t : Text) :
    findAfterString (body ++ '"' :: t) = .append (body ++ ['"']) (findOperator t) := by
  induction h with
  | nil =>
    rw [List.nil_append, findAfterString]
    rfl
  | cons hc _ ih =>
    rw [List.cons_append, findAfterString, if_neg (by simpa using hc), ih]
    rfl
  | pair _ ih =>
    -- The first quote of a pair ends the string, and the second one begins it again.
    rw [List.cons_append, List.cons_append, findAfterString, if_pos (by decide), findOperator, ih]
    rfl

theorem passes_string {body : Text} (h : IsStringBody body) : Passes ('"' :: (body ++ ['"'])) := by
  intro t
  rw [List.cons_append, List.append_assoc, List.singleton_append, findOperator,
    findAfterString_body h]
  rfl

/-- A quote that opens no character is passed over by itself. -/
theorem findOperator_quote {t : Text} (h : t.tail.head? ≠ some '\'') :
    findOperator ('\'' :: t) = .cons '\'' (findOperator t) := by
  rw [findOperator]
  case x_2 =>
    rintro c cs - rfl
    exact h rfl
  all_goals
    intros
    exact absurd ‹ '\'' = _› (by decide)

/-- A character beyond ASCII is passed over, unless a quote comes second behind it. -/
theorem findOperator_character {c : Char} (hc : 0x80 ≤ c.toNat) {t : Text}
    (h : t.tail.head? ≠ some '\'') :
    findOperator ('\'' :: c :: '\'' :: t) = .append ['\'', c, '\''] (findOperator t) := by
  rw [findOperator, if_neg (by omega), findOperator_cons_of_not (isSign_of_le hc),
    findOperator_quote h]
  rfl

/-! ## Operators -/

/-- The operators that the search knows. -/
def plainOps : List Text := ["=", "/=", "<", "<=", ">", ">="].map String.toList

/-- A relational operator is a plain one or a plain one behind a question mark. -/
theorem mem_relationalOps_iff {op : Text} :
    op ∈ relationalOps ↔ op ∈ plainOps ∨ ∃ plain ∈ plainOps, op = '?' :: plain := by
  have hops : relationalOps = plainOps ++ plainOps.map ('?' :: ·) := by decide
  rw [hops, List.mem_append, List.mem_map]
  simp only [eq_comm]

/-- A plain operator is found where it stands, unless what follows continues it. -/
theorem findOperator_plain {op : Text} (hop : op ∈ plainOps) {c : Char} (heq : c ≠ '=')
    (hgt : c ≠ '>') (u : Text) : findOperator (op ++ c :: u) = .found [] op (c :: u) := by
  have hnext {d : Char} (hd : c ≠ d) : ∀ v, c :: u = d :: v → False := by
    rintro v ⟨⟩
    exact hd rfl
  simp only [plainOps, List.map_cons, List.map_nil, List.mem_cons, List.not_mem_nil,
    or_false] at hop
  rcases hop with rfl | rfl | rfl | rfl | rfl | rfl
  · show findOperator ('=' :: c :: u) = _
    rw [findOperator]
    · rfl
    · exact hnext hgt
  · rfl
  · show findOperator ('<' :: c :: u) = _
    rw [findOperator]
    · rfl
    · exact hnext heq
  · rfl
  · show findOperator ('>' :: c :: u) = _
    rw [findOperator]
    · rfl
    · exact hnext heq
  · rfl

/-- What the search says about a text: it is made of the sides it gives and a plain operator between
them. -/
def FoundIn (t : Text) (s : OperatorSearch) : Prop :=
  ∀ l op r, s = .found l op r → t = l ++ (op ++ r) ∧ op ∈ plainOps

theorem FoundIn.cons {s : OperatorSearch} (h : FoundIn t s) (c : Char) :
    FoundIn (c :: t) (.cons c s) := by
  intro l op r hfound
  obtain ⟨l', rfl, hs⟩ := OperatorSearch.cons_eq_found_iff.1 hfound
  obtain ⟨rfl, hop⟩ := h l' op r hs
  exact ⟨rfl, hop⟩

theorem foundIn_here {op : Text} (hop : op ∈ plainOps) (r : Text) :
    FoundIn (op ++ r) (.found [] op r) := by
  rintro l op' r' ⟨⟩
  exact ⟨rfl, hop⟩

theorem foundIn_findOperator (t : Text) : FoundIn t (findOperator t) := by
  -- The search and its continuation inside a string are defined by one recursion. All cases but
  -- those with an operator only pass on what is found later.
  refine findOperator.induct (fun t => FoundIn t (findOperator t))
    (fun t => FoundIn t (findAfterString t)) ?_ ?_ ?_ ?_ ?_ ?_ ?_ ?_ ?_ ?_ ?_ ?_ ?_ ?_ t
  · rintro l op r ⟨⟩
  · intro cs ih
    exact ih.cons _
  · intro c cs hc ih
    rw [findOperator, if_pos hc]
    exact ((ih.cons _).cons _).cons _
  · intro c cs hc ih
    rw [findOperator, if_neg hc]
    exact ih.cons _
  · exact foundIn_here (by decide)
  · exact foundIn_here (by decide)
  · exact foundIn_here (by decide)
  · rintro cs l op r ⟨⟩
  · intro cs h
    rw [findOperator]
    · exact foundIn_here (by decide) cs
    · exact h
  · intro cs h
    rw [findOperator]
    · exact foundIn_here (by decide) cs
    · exact h
  · intro cs h
    rw [findOperator]
    · exact foundIn_here (by decide) cs
    · exact h
  · intro c cs _ _ _ _ _ _ _ _ _ ih
    rw [findOperator]
    · exact ih.cons _
    all_goals assumption
  · rintro l op r ⟨⟩
  · intro c cs ih ih'
    rw [findAfterString]
    refine .cons ?_ c
    split
    · exact ih
    · exact ih'

/-! ## Names in front of the operator -/

/-- An operator right behind a name is found there. This holds of every basic identifier. -/
def IsPassed (name : Text) : Prop := findOperator (name ++ ['=']) = .found name ['='] []

theorem Passes.isPassed (h : Passes l) : IsPassed l := by
  rw [IsPassed, h, findOperator]
  · rw [OperatorSearch.append_found, List.append_nil]
  · rintro v ⟨⟩

/-- A string that was begun is left only behind a quote. -/
theorem quote_mem_of_findAfterString {op : Text} (h : findAfterString t = .found l op r) :
    '"' ∈ l := by
  induction t generalizing l with
  | nil => cases h
  | cons c t ih =>
    rw [findAfterString] at h
    obtain ⟨l', rfl, hsearch⟩ := OperatorSearch.cons_eq_found_iff.1 h
    split at hsearch
    · rename_i hc
      rw [beq_iff_eq] at hc
      simp [hc]
    · simp [ih hsearch]

/-- Nothing is passed over at the first sign of an operator. -/
theorem findOperator_sign_ne {c : Char} (hc : c ∈ ['<', '>', '=']) {op : Text} :
    findOperator (c :: t) ≠ .found (c :: l) op r := by
  intro h
  rw [findOperator.eq_def] at h
  split at h <;> simp_all

/-- Whether the search comes behind a backslash in good order does not depend on what follows, as
long as the backslash does not stand between quotes. -/
theorem findOperator_backslash {op g : Text} (hu : u.head? ≠ some '\'') (hg : '"' ∉ g)
    (ht : t.head? ≠ some '\'') (body : Text)
    (h : findOperator (body ++ '\\' :: u) = .found (body ++ '\\' :: g) op r) :
    findOperator (body ++ '\\' :: t) = .append (body ++ ['\\']) (findOperator t) := by
  revert h
  refine findOperator.induct
    (fun body => findOperator (body ++ '\\' :: u) = .found (body ++ '\\' :: g) op r →
      findOperator (body ++ '\\' :: t) = .append (body ++ ['\\']) (findOperator t))
    (fun body => findAfterString (body ++ '\\' :: u) = .found (body ++ '\\' :: g) op r →
      findAfterString (body ++ '\\' :: t) = .append (body ++ ['\\']) (findOperator t))
    ?_ ?_ ?_ ?_ ?_ ?_ ?_ ?_ ?_ ?_ ?_ ?_ ?_ ?_ body
  · intro _
    exact findOperator_cons_of_not (by decide) t
  · intro cs ih h
    show findOperator ('"' :: (cs ++ '\\' :: t)) = _
    rw [findOperator, ih (OperatorSearch.found_of_cons h)]
    rfl
  · intro c cs hc ih h
    simp only [List.cons_append, findOperator, if_pos hc] at h ⊢
    rw [ih (OperatorSearch.found_of_cons (OperatorSearch.found_of_cons
      (OperatorSearch.found_of_cons h)))]
    rfl
  · intro c cs hc ih h
    simp only [List.cons_append] at h ih ⊢
    rw [findOperator, if_neg hc] at h ⊢
    rw [ih (OperatorSearch.found_of_cons h)]
    rfl
  · rintro cs ⟨⟩
  · rintro cs ⟨⟩
  · rintro cs ⟨⟩
  · rintro cs ⟨⟩
  · intro cs _ h
    exact absurd h (findOperator_sign_ne (by decide))
  · intro cs _ h
    exact absurd h (findOperator_sign_ne (by decide))
  · intro cs _ h
    exact absurd h (findOperator_sign_ne (by decide))
  · intro c cs hstring hquote hslash _ _ _ hlt hgt heq ih h
    have hstep {v : Text} (hv : v.head? ≠ some '\'') :
        findOperator (c :: (cs ++ '\\' :: v)) = .cons c (findOperator (cs ++ '\\' :: v)) := by
      rw [findOperator]
      · exact hstring
      · intro d w hc hcs
        -- The quote that ends a character cannot come from behind the backslash.
        rcases cs with - | ⟨x, - | ⟨y, cs⟩⟩ <;>
          simp only [List.cons_append, List.nil_append, List.cons.injEq] at hcs
        · exact hv (by simp [hcs.2])
        · exact absurd hcs.2.1 (by decide)
        · exact hquote x cs hc (by rw [hcs.2.1])
      · intro w hc hcs
        cases cs with
        | nil => exact absurd (List.cons.inj hcs).1 (by decide)
        | cons x cs => exact hslash cs hc (by rw [(List.cons.inj hcs).1])
      · exact fun _ hc => absurd hc hlt
      · exact fun _ hc => absurd hc hgt
      · exact fun _ hc => absurd hc heq
      · exact hlt
      · exact hgt
      · exact heq
    rw [List.cons_append, hstep hu] at h
    rw [List.cons_append, hstep ht, ih (OperatorSearch.found_of_cons h)]
    rfl
  · intro h
    have hmem := quote_mem_of_findAfterString h
    simp [hg] at hmem
  · intro c cs ih ih' h
    rw [List.cons_append, findAfterString] at h ⊢
    split
    · rw [if_pos ‹_›] at h
      rw [ih (OperatorSearch.found_of_cons h)]
      rfl
    · rw [if_neg ‹_›] at h
      rw [ih' (OperatorSearch.found_of_cons h)]
      rfl

/-- A name behind which one operator is found is passed over in front of everything that begins
with no quote. -/
theorem IsPassed.findOperator_append (h : IsPassed l) (hname : IsIdentifier l)
    (ht : t.head? ≠ some '\'') : findOperator (l ++ t) = .append l (findOperator t) := by
  cases hname with
  | basic hne hchars hdigit =>
    exact passes_of_not_isSign (fun c hc => isSign_of_isNameChar (hchars c hc)) t
  | extended body =>
    have hfound : findOperator (('\\' :: body) ++ '\\' :: ['=']) =
        .found (('\\' :: body) ++ '\\' :: []) ['='] [] := by
      simpa [IsPassed] using h
    have hsearch := findOperator_backslash (by decide) (by decide) ht ('\\' :: body) hfound
    simpa using hsearch

theorem isPassed_of_isNameChar (h : ∀ c ∈ l, isNameChar c = true) : IsPassed l :=
  (passes_of_not_isSign fun c hc => isSign_of_isNameChar (h c hc)).isPassed

end DesignFacts
