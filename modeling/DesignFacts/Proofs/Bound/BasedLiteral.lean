import DesignFacts.Proofs.Bound.Evaluation

/-!
# Based literals as operands

A text with a `#` in it is read as a based literal before any operator is looked for, and such a
literal is read up to its second `#`. So a based literal is an operand like any other only on the
right of an operator. On the left it hides the operator and all that follows: `1 + 16#FF#` is 256,
and `16#FF# + 1` is 255.

Main result: `evaluate_based`.
-/

namespace DesignFacts.Bound

open Text Numeral

variable {m : Constants}

/-- A based literal: a base from 2 to 16 in decimal digits, and a numeral of this base. -/
structure BasedLiteral where
  base : Text
  digits : Text
  decimal : IsNumeral 10 base
  joined : '_' ∉ base
  range : 2 ≤ valueOf 10 base ∧ valueOf 10 base ≤ 16
  numeral : IsNumeral (valueOf 10 base) digits

namespace BasedLiteral

def text (l : BasedLiteral) : Text := l.base ++ '#' :: (l.digits ++ ['#'])

def value (l : BasedLiteral) : Nat := valueOf (valueOf 10 l.base) l.digits

variable (l : BasedLiteral)

theorem text_append (rest : Text) :
    l.text ++ rest = l.base ++ '#' :: (l.digits ++ '#' :: rest) := by
  simp [text]

theorem isPlain_of_mem_text : ∀ c ∈ l.text, IsPlain c := by
  intro c hc
  have hhash : IsPlain '#' := by decide
  simp only [text, List.mem_append, List.mem_cons, List.not_mem_nil, or_false] at hc
  rcases hc with hc | rfl | hc | rfl
  · exact isPlain_of_isNumeral l.decimal c hc
  · exact hhash
  · exact isPlain_of_isNumeral l.numeral c hc
  · exact hhash

theorem text_ne_nil : l.text ≠ [] := by simp [text]

/-! ## Reading a based literal -/

theorem splitOn_text_append (rest : Text) :
    splitOn '#' (l.text ++ rest) = l.base :: l.digits :: splitOn '#' rest := by
  have hpart {t : Text} (h : '#' ∉ t) : splitWith (· == '#') t = [t] := by
    have hnot : ∀ c ∈ t, (c == '#') = false := fun c hc => beq_false_of_ne fun heq => h (heq ▸ hc)
    simpa using splitWith_append_of_not hnot (show splitWith (· == '#') [] = [[]] from rfl)
  rw [text_append, splitOn, splitWith_append_cons (by decide), splitWith_append_cons (by decide),
    hpart (not_hash_mem_of_isNumeral l.decimal), hpart (not_hash_mem_of_isNumeral l.numeral)]
  rfl

/-- What stands behind the second `#` is not looked at. -/
theorem integer?_text_append (rest : Text) : integer? (l.text ++ rest) = checked l.value := by
  have hhash : (l.text ++ rest).contains '#' = true := by simp [text]
  have htrim : trim l.base = l.base :=
    trim_eq_self fun c hc => (isPlain_of_isNumeral l.decimal c hc).1
  have hbase : unsigned? 10 word32 l.base = some (valueOf 10 l.base) :=
    unsigned?_of_isNumeral l.decimal l.joined (lt_of_le_of_lt l.range.2 (by decide))
  rw [integer?, if_pos hhash, based?, splitOn_text_append]
  dsimp only
  rw [htrim, hbase, Option.bind_some, if_pos l.range, basedDigits?, digits?_of_isNumeral l.numeral,
    Option.bind_some, value]

/-- Trimming does not reach the literal, and no parentheses stand around it. -/
theorem exists_core_eq {w : Text} (hw : IsBlanks w) (rest : Text) :
    ∃ rest', core (w ++ l.text ++ rest) = l.text ++ rest' := by
  have hhash : isBlank '#' = false := by decide
  obtain ⟨rest', hend⟩ := exists_trimEnd_cons hhash rest
  obtain ⟨c, base, hbase⟩ := List.exists_cons_of_ne_nil l.decimal.ne_nil
  have hc : IsPlain c := isPlain_of_isNumeral l.decimal c (by simp [hbase])
  have hparen : c ≠ '(' := fun heq => hc.2 (by simp [heq, marks])
  have htext (u : Text) : l.text ++ u = (c :: (base ++ '#' :: l.digits)) ++ '#' :: u := by
    simp [text, hbase]
  have htrim : trim (w ++ l.text ++ rest) = l.text ++ rest' := by
    rw [List.append_assoc, trim_blanks_append hw, trim, htext, List.cons_append,
      trimStart_cons hc.1, ← List.cons_append, trimEnd_append_of_mem (List.mem_cons_self ..) hhash,
      hend, htext]
  refine ⟨rest', ?_⟩
  rw [core, htrim, stripParens_eq, htext, List.cons_append, enclosed?_cons hparen]

/-- A based literal is the value of every text that begins with it. -/
theorem evaluate_text_append (hvalue : IsWord l.value) {w : Text} (hw : IsBlanks w) (rest : Text) :
    evaluate m (w ++ l.text ++ rest) = .ok (some l.value) := by
  obtain ⟨rest', hcore⟩ := l.exists_core_eq hw rest
  have hne : (l.text ++ rest').isEmpty = false := by simp [text_ne_nil]
  have hatom : atom? m (l.text ++ rest') = some (l.value : Int) := by
    rw [atom?, hne, if_neg (by simp), integer?_text_append, checked_eq, if_pos hvalue,
      Option.some_or]
  rw [evaluate_eq, hcore, hatom]

end BasedLiteral

/-- **A based literal is an operand on the right only.** A text that begins with one has its value,
whatever follows. Behind an operator, the literal is an operand of it. -/
theorem evaluate_based {m : Constants} (hm : WellNamed m) (l : BasedLiteral)
    (hvalue : IsWord l.value) :
    (∀ w rest, IsBlanks w → evaluate m (w ++ l.text ++ rest) = .ok (some l.value)) ∧
    (∀ (op : Operator) e s w w', Written op.level e s → ¬ e.BreaksOff m →
      IsBlanks w → IsBlanks w' →
      evaluate m (s ++ op.symbol :: (w ++ l.text ++ w')) =
        .ok ((e.value? m).bind fun b => op.result? b l.value)) := by
  refine ⟨fun w rest hw => l.evaluate_text_append hvalue hw rest, ?_⟩
  intro op e s w w' hs hgood hw hw'
  have hscanned : Scanned op.level.tighter (w ++ l.text ++ w') :=
    (scanned_pad_iff hw hw').2 (scanned_of_plain l.isPlain_of_mem_text l.text_ne_nil _)
  have hleft : evaluate m s = .ok (e.value? m) := by
    rw [hs.evaluate_eq_evaluated hm, (Expression.evaluated_eq hm e).2 hgood]
  rw [evaluate_operation hm hs.scanned hscanned hs.exists_visible hs.not_hash_mem, hleft,
    l.evaluate_text_append hvalue hw]
  cases hb : e.value? m with
  | none => rfl
  | some b =>
    show operate op.symbol b l.value = .ok (op.result? b l.value)
    -- A based literal has no sign, so the quotient of the least number by `-1` is out of reach.
    rw [operate_symbol (Expression.isWord_of_value? hm hb), if_neg fun h => by omega]

/-- `16#FF#`. -/
def maxByte : BasedLiteral where
  base := ['1', '6']
  digits := ['F', 'F']
  decimal := by decide
  joined := by decide
  range := by decide
  numeral := by decide

theorem evaluate_based_maxByte :
    WellNamed [(['w'], 8)] ∧ IsWord maxByte.value ∧
      evaluate [(['w'], 8)] [' ', '1', '6', '#', 'F', 'F', '#', '*', 'w'] = .ok (some 255) ∧
      evaluate [(['w'], 8)] ['w', '*', ' ', '1', '6', '#', 'F', 'F', '#'] = .ok (some 2040) := by
  have hm : WellNamed [(['w'], 8)] := ⟨by decide, by decide, by decide⟩
  have hvalue : IsWord maxByte.value := by decide
  obtain ⟨hfirst, hsecond⟩ := evaluate_based hm maxByte hvalue
  have hw : Written .product (.constant ['w']) ['w'] := .loosen (.constant (by decide))
  have hproduct : (((Expression.constant ['w']).value? [(['w'], 8)]).bind fun b =>
      Operator.mul.result? b maxByte.value) = some 2040 := by decide
  refine ⟨hm, hvalue, hfirst [' '] ['*', 'w'] (by decide), ?_⟩
  rw [← hproduct]
  exact hsecond .mul _ _ [' '] [] hw (fun h => nomatch h) (by decide) (by decide)

/-- The sum of a based literal and one is not computed. -/
theorem evaluate_maxByte_add_one :
    Operator.add.result? maxByte.value 1 = some 256 ∧
      evaluate [] (maxByte.text ++ [' ', '+', ' ', '1']) = .ok (some 255) :=
  ⟨by decide, maxByte.evaluate_text_append (by decide) (w := []) (by decide) _⟩

end DesignFacts.Bound
