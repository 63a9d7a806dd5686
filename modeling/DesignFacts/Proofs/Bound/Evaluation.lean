import DesignFacts.Proofs.Bound.Scan

/-!
# The value of a written expression

`evaluate` looks at raw text: it takes blanks and parentheses away, tries the rest as a literal and
then as the name of a constant, and only then splits it at an operator. The order matters, because
each attempt sees the whole text. This file shows that the first attempts do not succeed by accident
on a text with an operator (`atom?_operation`), so that every written form of an expression has the
value of the expression.

Main result: `evaluate_written`.
-/

namespace DesignFacts.Bound

open Text Numeral

variable {m : Constants} {op : Operator} {s t : Text}

/-! ## Names of constants -/

theorem get?_eq_none (hm : WellNamed m) {key : Text} (h : ¬ IsName key) : m.get? key = none := by
  rw [Assoc.get?, Option.map_eq_none_iff, List.find?_eq_none]
  intro e he hkey
  exact h (of_decide_eq_true hkey ▸ hm.name e he)

theorem get?_lower (hm : WellNamed m) (name : Text) :
    m.get? (lower name) = (Expression.constant name).value? m := by
  rw [Assoc.get?, Expression.value?]
  congr 1
  have hkey : ∀ e ∈ m, decide (e.1 = lower name) = same e.1 name := by
    intro e he
    rw [same, hm.small e he, Bool.beq_eq_decide_eq]
  rw [← List.head?_filter, ← List.head?_filter, List.filter_congr hkey]

/-! ## Literals and names -/

theorem not_hash_mem_of_isNumeral {base : Nat} (h : IsNumeral base t) : '#' ∉ t :=
  h.notMem (by decide) (by decide)

theorem integer?_of_not_hash (h : '#' ∉ t) :
    integer? t = signed? (t.filter (· != '_')) := by
  rw [integer?, if_neg (by simpa using h)]

/-- Among plain characters there is no sign. -/
theorem integer?_of_plain (h : ∀ c ∈ t, IsPlain c) (hhash : '#' ∉ t) :
    integer? t = (digits? 10 (t.filter (· != '_'))).bind fun n => checked n := by
  rw [integer?_of_not_hash hhash]
  refine signed?_of_unsigned fun c hc => ?_
  have hmem : c ∈ t := (List.mem_filter.1 (List.mem_of_mem_head? hc)).1
  have hmark := (h c hmem).2
  exact ⟨fun hc => hmark (by simp [hc, marks]), fun hc => hmark (by simp [hc, marks])⟩

theorem integer?_literal (h : IsNumeral 10 t) : integer? t = checked (valueOf 10 t) := by
  rw [integer?_of_plain (isPlain_of_isNumeral h) (not_hash_mem_of_isNumeral h),
    digits?_of_isNumeral h, Option.bind_some]

theorem integer?_negative (h : IsNumeral 10 t) :
    integer? ('-' :: t) = checked (-valueOf 10 t) := by
  have hhash : '#' ∉ '-' :: t := by simpa using not_hash_mem_of_isNumeral h
  have hfilter : ('-' :: t).filter (· != '_') = '-' :: t.filter (· != '_') := rfl
  rw [integer?_of_not_hash hhash, hfilter, signed?, digits?_of_isNumeral h, Option.bind_some]

theorem integer?_name {name : Text} (h : IsName name) : integer? name = none := by
  obtain ⟨c, hc, hdigit, hunderscore⟩ := h.letter
  have hkept : c ∈ name.filter (· != '_') := List.mem_filter.2 ⟨hc, by simp [hunderscore]⟩
  rw [integer?_of_plain (fun c hc => (h.plain c hc).1) fun hhash => (h.plain '#' hhash).2 rfl,
    digits?_eq_none_of_mem hkept (digit?_ten_eq_none hdigit), Option.bind_none]

theorem not_isName_lower_of_isNumeral (h : IsNumeral 10 t) : ¬ IsName (lower t) := by
  rintro ⟨-, c, hc, hdigit, hunderscore⟩
  obtain ⟨x, hx, rfl⟩ := List.mem_map.1 hc
  rcases h.digit x hx with rfl | ⟨d, hd, hlt⟩
  · exact hunderscore rfl
  · rw [isDigit_toLower, isDigit_of_digitValue hd hlt] at hdigit
    cases hdigit

theorem not_isName_of_mem {name : Text} {c : Char} (hc : c ∈ name) (hmark : c ∈ marks) :
    ¬ IsName name := fun h => (h.plain c hc).1.2 hmark

/-! ## Texts with an operator -/

theorem Operator.symbol_mem_marks (op : Operator) : op.symbol ∈ marks := by
  cases op <;> decide

theorem Operator.digit?_symbol (op : Operator) : digit? 10 op.symbol = none := by
  cases op <;> decide

theorem Operator.symbol_mem_lower (op : Operator) (h : op.symbol ∈ t) : op.symbol ∈ lower t :=
  List.mem_map.2 ⟨op.symbol, h, by cases op <;> decide⟩

/-- Something stands before the operator, so the text is no number with a sign. -/
theorem signed?_operation (hvisible : ∃ c ∈ s, c ≠ '_') :
    signed? ((s ++ op.symbol :: t).filter (· != '_')) = none := by
  obtain ⟨c, hc, hne⟩ := hvisible
  have hkept : op.symbol ∈ (op.symbol :: t).filter (· != '_') :=
    List.mem_filter.2 ⟨by simp, by cases op <;> decide⟩
  rw [List.filter_append]
  cases hs : s.filter (· != '_') with
  | nil => exact absurd hne (by simpa using List.filter_eq_nil_iff.1 hs c hc)
  | cons x rest =>
    exact signed?_cons_eq_none (List.mem_append_right rest hkept) op.digit?_symbol

theorem unsigned?_operation (hvisible : ∃ c ∈ s, isBlank c = false) (bound : Nat) (t : Text) :
    unsigned? 10 bound (trim (s ++ op.symbol :: t)) = none := by
  obtain ⟨c, hc, hblank⟩ := hvisible
  have hkept : op.symbol ∈ trimEnd (op.symbol :: t) :=
    mem_dropEnd_of_not op.isBlank_symbol (by simp)
  have hstart : c ∈ trimStart s := mem_dropWhile_of_not hblank hc
  rw [trim, trimStart_append_of_mem hc hblank,
    trimEnd_append_of_mem (List.mem_cons_self ..) op.isBlank_symbol]
  cases hs : trimStart s with
  | nil => simp [hs] at hstart
  | cons x rest =>
    exact unsigned?_cons_eq_none (List.mem_append_right rest hkept) op.digit?_symbol

/-- The operator would belong to the base of a based literal. -/
theorem based?_operation (hvisible : ∃ c ∈ s, isBlank c = false) (hhash : '#' ∉ s) :
    based? (s ++ op.symbol :: t) = none := by
  have hbase : ∀ c ∈ s ++ [op.symbol], (c == '#') = false := by
    intro c hc
    rcases List.mem_append.1 hc with hc | hc
    · exact beq_false_of_ne fun heq => hhash (heq ▸ hc)
    · rw [List.mem_singleton.1 hc]
      cases op <;> decide
  cases ht : splitWith (· == '#') t with
  | nil => exact absurd ht (splitWith_ne_nil _ t)
  | cons part parts =>
    have hsplit := splitWith_append_of_not hbase ht
    rw [List.append_assoc, List.append_assoc] at hsplit
    unfold based? splitOn
    rw [show splitWith (· == '#') (s ++ op.symbol :: t) = _ from hsplit]
    cases parts with
    | nil => rfl
    | cons digits rest =>
      show (unsigned? 10 word32 (trim (s ++ op.symbol :: part))).bind _ = none
      rw [unsigned?_operation hvisible, Option.bind_none]

theorem integer?_operation (hvisible : ∃ c ∈ s, c ≠ '_' ∧ isBlank c = false) (hhash : '#' ∉ s) :
    integer? (s ++ op.symbol :: t) = none := by
  obtain ⟨c, hc, hne, hblank⟩ := hvisible
  unfold integer?
  split
  · exact based?_operation ⟨c, hc, hblank⟩ hhash
  · exact signed?_operation ⟨c, hc, hne⟩

/-- A text with an operator is neither a literal nor a name. -/
theorem atom?_operation (hm : WellNamed m) (hvisible : ∃ c ∈ s, c ≠ '_' ∧ isBlank c = false)
    (hhash : '#' ∉ s) : atom? m (s ++ op.symbol :: t) = none := by
  have hname : ¬ IsName (lower (s ++ op.symbol :: t)) :=
    not_isName_of_mem (op.symbol_mem_lower (by simp)) op.symbol_mem_marks
  rw [atom?, integer?_operation hvisible hhash, get?_eq_none hm hname, Option.none_or, ite_self]

/-! ## Evaluation -/

theorem evaluate_congr (h : core s = core t) : evaluate m s = evaluate m t := by
  rw [evaluate_eq, h, ← evaluate_eq]

/-- What is neither stripped nor split has a value as a literal or as a name. -/
theorem evaluate_of_core_eq (hcore : core t = t) (ht : Scanned .factor t) :
    evaluate m t = .ok ((integer? t).or (m.get? (lower t))) := by
  have hne : t.isEmpty = false := by
    obtain ⟨c, hc, -⟩ := ht.exists_visible
    exact List.isEmpty_eq_false_iff_exists_mem.2 ⟨c, hc⟩
  rw [evaluate_eq, hcore, split?_of_scanned_factor ht, atom?, hne, if_neg (by simp)]
  cases (integer? t).or (m.get? (lower t)) <;> rfl

theorem core_of_plain (h : ∀ c ∈ t, IsPlain c) : core t = t := by
  cases t with
  | nil =>
    rw [core, stripParens_eq]
    rfl
  | cons c t =>
    refine core_cons (fun x hx => (h x hx).1) fun hc => (h c (by simp)).2 ?_
    simp [hc, marks]

/-- The value of a text with an operator comes from the pieces on both sides of it. -/
theorem evaluate_operation (hm : WellNamed m) (hs : Scanned op.level s)
    (ht : Scanned op.level.tighter t) (hvisible : ∃ c ∈ s, c ≠ '_' ∧ isBlank c = false)
    (hhash : '#' ∉ s) :
    evaluate m (s ++ op.symbol :: t) = combine op.symbol (evaluate m s) (evaluate m t) := by
  obtain ⟨c, hc, hne, hblank⟩ := hvisible
  have hatom : atom? m (trimStart s ++ op.symbol :: trimEnd t) = none :=
    atom?_operation hm ⟨c, mem_dropWhile_of_not hblank hc, hne, hblank⟩ fun hmem =>
      hhash ((List.dropWhile_sublist _).subset hmem)
  have hleft : evaluate m (trimStart s) = evaluate m s :=
    evaluate_congr (by rw [core, trim_trimStart, core])
  have hright : evaluate m (trimEnd t) = evaluate m t :=
    evaluate_congr (by rw [core, trim_trimEnd, core])
  rw [evaluate_eq, core_operation hs ht, hatom, split?_operation hs.trimStart ht.trimEnd]
  show combine op.symbol (evaluate m (trimStart s)) (evaluate m (trimEnd t)) = _
  rw [hleft, hright]

/-! ## Written expressions -/

namespace Written

variable {v : Level} {e : Expression}

theorem exists_visible (h : Written v e t) : ∃ c ∈ t, c ≠ '_' ∧ isBlank c = false := by
  induction h with
  | literal h =>
    obtain ⟨c, hc, hne⟩ := h.nonempty
    exact ⟨c, hc, hne, (isPlain_of_isNumeral h c hc).1⟩
  | negative h => exact ⟨'-', by simp, by decide, by decide⟩
  | constant h =>
    obtain ⟨c, hc, -, hne⟩ := h.letter
    exact ⟨c, hc, hne, (h.plain c hc).1.1⟩
  | parens _ _ => exact ⟨'(', by simp, by decide, by decide⟩
  | operation _ _ ihs _ =>
    obtain ⟨c, hc, hvisible⟩ := ihs
    exact ⟨c, by simp [hc], hvisible⟩
  | loosen _ ih => exact ih
  | pad _ _ _ ih =>
    obtain ⟨c, hc, hvisible⟩ := ih
    exact ⟨c, by simp [hc], hvisible⟩

theorem not_hash_mem (h : Written v e t) : '#' ∉ t := by
  have hblank {a : Text} (ha : IsBlanks a) : '#' ∉ a := fun hmem => absurd (ha '#' hmem) (by decide)
  induction h with
  | literal h => exact not_hash_mem_of_isNumeral h
  | negative h => simpa using not_hash_mem_of_isNumeral h
  | constant h => exact fun hmem => (h.plain '#' hmem).2 rfl
  | parens _ ih => simpa using ih
  | @operation op _ _ _ _ _ _ ihs iht => cases op <;> simp [Operator.symbol, ihs, iht]
  | loosen _ ih => exact ih
  | pad ha _ hb ih => simp [hblank ha, ih, hblank hb]

/-- A written form is evaluated like its expression. -/
theorem evaluate_eq_evaluated (hm : WellNamed m) (h : Written v e t) :
    evaluate m t = e.evaluated m := by
  induction h with
  | literal h =>
    have hplain := isPlain_of_isNumeral h
    rw [evaluate_of_core_eq (core_of_plain hplain) (scanned_of_plain hplain h.ne_nil _),
      integer?_literal h, get?_eq_none hm (not_isName_lower_of_isNumeral h), Option.or_none,
      checked_eq]
    rfl
  | @negative digits h =>
    have hplain := isPlain_of_isNumeral h
    have hcore : core ('-' :: digits) = '-' :: digits :=
      core_cons (List.forall_mem_cons.2 ⟨by decide, fun c hc => (hplain c hc).1⟩) (by decide)
    have hname : ¬ IsName (lower ('-' :: digits)) :=
      not_isName_of_mem (List.mem_cons_self ..) (by decide)
    rw [evaluate_of_core_eq hcore (scanned_minus hplain h.ne_nil _), integer?_negative h,
      get?_eq_none hm hname, Option.or_none, checked_eq]
    rfl
  | constant h =>
    have hplain := fun c hc => (h.plain c hc).1
    rw [evaluate_of_core_eq (core_of_plain hplain) (scanned_of_plain hplain h.ne_nil _),
      integer?_name h, Option.none_or, get?_lower hm]
    rfl
  -- Brackets and blanks around a form are no part of its core, which is all that evaluation reads.
  | parens h ih => rw [← ih, evaluate_congr (core_parens h.closed)]
  | operation hl hr ihl ihr =>
    rw [evaluate_operation hm hl.scanned hr.scanned hl.exists_visible hl.not_hash_mem, ihl, ihr,
      Expression.evaluated]
  | loosen _ ih => exact ih
  | pad ha _ hb ih => rw [← ih, evaluate_congr (core_pad ha hb)]

end Written

end DesignFacts.Bound
