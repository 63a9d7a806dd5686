import DesignFacts.Proofs.Bound.Expression
import DesignFacts.Proofs.Text.TopLevel

/-!
# Scanning a written expression

An evaluation finds the operator to split at by one scan over the text, which counts parentheses and
remembers whether an operand has just ended. This file says what the scan sees in a piece of text.

**Pieces** (`Scanned v t`). A piece is scanned as an operand of a level if the scan leaves it at the
depth at which it entered, with an operand behind it, and finds no operator in it that is looser
than the level; inside parentheses it finds none at all. Words, negative numerals, parenthesized
pieces and pieces with an operator between them are scanned so, and blanks around a piece change
nothing (`scanned_pad_iff`).

**Parentheses.** A pair of parentheses around a piece is taken away (`core_parens`). A piece with an
operator in it is never taken for such a pair, even if it begins and ends with parentheses: the
depth is zero at the operator (`enclosed?_of_scanned`).

Main results: `Written.scanned`, `split?_operation` and `core_operation`.
-/

namespace DesignFacts.Bound

open Text Numeral

/-! ## The state of a scan -/

/-- The depth behind a character. -/
def depthStep (depth : Int) (c : Char) : Int :=
  if c == '(' then depth + 1 else if c == ')' then depth - 1 else depth

/-- Whether an operand ends with a character. -/
def operandStep (operand : Bool) (c : Char) : Bool :=
  if isBlank c then operand else !(['+', '-', '*', '/', '('].contains c)

/-- The depth behind a text. -/
def depthAfter (depth : Int) (t : Text) : Int := t.foldl depthStep depth

/-- Whether an operand ends with a text. -/
def operandAfter (operand : Bool) (t : Text) : Bool := t.foldl operandStep operand

theorem depthAfter_append (d : Int) (s t : Text) :
    depthAfter d (s ++ t) = depthAfter (depthAfter d s) t := List.foldl_append

theorem operandAfter_append (o : Bool) (s t : Text) :
    operandAfter o (s ++ t) = operandAfter (operandAfter o s) t := List.foldl_append

theorem depthAfter_eq (d : Int) (t : Text) : depthAfter d t = d + depth t := by
  induction t generalizing d with
  | nil => exact (Int.add_zero d).symm
  | cons c t ih =>
    have hstep : depthStep d c = d + depth [c] := by
      rw [depthStep, depth_singleton]
      simp only [beq_iff_eq]
      split
      · rfl
      · split <;> omega
    rw [depth_cons, ← Int.add_assoc, ← hstep]
    exact ih (depthStep d c)

theorem depthAfter_add (d k : Int) (t : Text) : depthAfter (d + k) t = depthAfter d t + k := by
  rw [depthAfter_eq, depthAfter_eq]
  omega

/-- Every place that a scan of an expression with fewer than `2 ^ 31` parentheses comes to has a
depth of 32 bits. -/
theorem depthAfter_fits {s t : Text} (hs : s <+: t)
    (hfew : t.count '(' + t.count ')' < 2147483648) :
    -2147483648 ≤ depthAfter 0 s ∧ depthAfter 0 s < 2147483648 := by
  rw [depthAfter_eq, Int.zero_add]
  exact depth_fits hs hfew

variable {ops : List Char} {d : Int} {o : Bool} {c op : Char} {a b l r s t : Text}

theorem splitLast_cons_of_some
    (h : splitLast ops (depthStep d c) (operandStep o c) t = some (l, op, r)) :
    splitLast ops d o (c :: t) = some (c :: l, op, r) := by
  unfold depthStep operandStep at h
  simp only [splitLast, h]

theorem splitLast_cons_of_none (h : splitLast ops (depthStep d c) (operandStep o c) t = none) :
    splitLast ops d o (c :: t) =
      if d == 0 && ops.contains c && o then some ([], c, t) else none := by
  unfold depthStep operandStep at h
  simp only [splitLast, h]

/-- An operator that is found behind a piece is the last one. -/
theorem splitLast_append_of_some
    (h : splitLast ops (depthAfter d s) (operandAfter o s) t = some (l, op, r)) :
    splitLast ops d o (s ++ t) = some (s ++ l, op, r) := by
  induction s generalizing d o with
  | nil => exact h
  | cons c s ih => exact splitLast_cons_of_some (ih h)

theorem splitLast_cons_eq_none_iff :
    splitLast ops d o (c :: t) = none ↔
      (d == 0 && ops.contains c && o) = false ∧
        splitLast ops (depthStep d c) (operandStep o c) t = none := by
  cases hrest : splitLast ops (depthStep d c) (operandStep o c) t with
  | some found =>
    obtain ⟨l, op, r⟩ := found
    simp [splitLast_cons_of_some hrest]
  | none =>
    rw [splitLast_cons_of_none hrest]
    cases d == 0 && ops.contains c && o <;> simp

theorem splitLast_append_eq_none_iff :
    splitLast ops d o (s ++ t) = none ↔
      splitLast ops d o s = none ∧ splitLast ops (depthAfter d s) (operandAfter o s) t = none := by
  induction s generalizing d o with
  | nil => simp [splitLast, depthAfter, operandAfter]
  | cons c s ih =>
    rw [List.cons_append, splitLast_cons_eq_none_iff, ih, splitLast_cons_eq_none_iff, and_assoc]
    rfl

/-! ## Levels -/

def Level.symbols : Level → List Char
  | sum => ['+', '-']
  | product => ['*', '/']
  | factor => []

/-- The number of looser levels. -/
def Level.rank : Level → Nat
  | sum => 0
  | product => 1
  | factor => 2

theorem Level.rank_le_tighter (v : Level) : v.rank ≤ v.tighter.rank := by
  cases v <;> decide

theorem Level.contains_symbols_eq_false (v : Level) (h : c ∉ ['+', '-', '*', '/']) :
    v.symbols.contains c = false := by
  simp only [List.mem_cons, List.not_mem_nil, or_false, not_or] at h
  cases v <;> simp [symbols, h]

namespace Operator

variable (op : Operator)

theorem rank_level_lt_tighter : op.level.rank < op.level.tighter.rank := by
  cases op <;> decide

theorem contains_symbols_level : op.level.symbols.contains op.symbol = true := by
  cases op <;> decide

theorem contains_symbols_of_rank_lt {w : Level} (h : w.rank < op.level.rank) :
    w.symbols.contains op.symbol = false := by
  cases op <;> cases w <;> revert h <;> decide

theorem isBlank_symbol : isBlank op.symbol = false := by cases op <;> decide

theorem depthStep_symbol (d : Int) : depthStep d op.symbol = d := by cases op <;> rfl

theorem operandStep_symbol (o : Bool) : operandStep o op.symbol = false := by
  cases op <;> cases o <;> decide

end Operator

/-! ## Pieces -/

/-- A piece of text is scanned as an operand of a level. -/
structure Scanned (v : Level) (t : Text) : Prop where
  depth (d : Int) : depthAfter d t = d
  operand : operandAfter false t = true
  quiet (w : Level) (d : Int) (hd : 0 ≤ d) (h : 0 < d ∨ w.rank < v.rank) :
    splitLast w.symbols d false t = none

theorem Scanned.loosen {v : Level} (h : Scanned v.tighter t) : Scanned v t where
  depth := h.depth
  operand := h.operand
  quiet w d hd hw := h.quiet w d hd (hw.imp_right fun hlt => lt_of_lt_of_le hlt v.rank_le_tighter)

/-- A text over which a scan goes without a change of depth and without finding an operator. -/
structure Flat (t : Text) : Prop where
  depth (d : Int) : depthAfter d t = d
  quiet (w : Level) (d : Int) (o : Bool) : splitLast w.symbols d o t = none

theorem flat_of_forall (h : ∀ c ∈ t, c ∉ marks) : Flat t := by
  induction t with
  | nil => exact ⟨fun _ => rfl, fun _ _ _ => rfl⟩
  | cons c t ih =>
    have hc := h c (by simp)
    simp only [marks, List.mem_cons, List.not_mem_nil, or_false, not_or] at hc
    obtain ⟨hadd, hsub, hmul, hdiv, hopen, hclose⟩ := hc
    have ht := ih fun x hx => h x (by simp [hx])
    have hstep (d : Int) : depthStep d c = d := by simp [depthStep, hopen, hclose]
    refine ⟨fun d => ?_, fun w d o => ?_⟩
    · rw [depthAfter, List.foldl_cons, hstep]
      exact ht.depth d
    · rw [splitLast_cons_eq_none_iff, hstep,
        w.contains_symbols_eq_false (by simp [hadd, hsub, hmul, hdiv])]
      exact ⟨by simp, ht.quiet w d _⟩

/-! ### Blanks -/

theorem not_mem_marks_of_isBlank (h : isBlank c = true) : c ∉ marks := by
  intro hc
  have hmarks : marks.all (fun c => !isBlank c) = true := by decide
  have hblank := List.all_eq_true.1 hmarks c hc
  rw [h] at hblank
  cases hblank

theorem flat_of_isBlanks (h : IsBlanks a) : Flat a :=
  flat_of_forall fun c hc => not_mem_marks_of_isBlank (h c hc)

theorem operandAfter_of_isBlanks (h : IsBlanks a) (o : Bool) : operandAfter o a = o := by
  induction a with
  | nil => rfl
  | cons c a ih =>
    rw [operandAfter, List.foldl_cons, operandStep, if_pos (h c (by simp))]
    exact ih fun x hx => h x (by simp [hx])

/-- Blanks around a piece change nothing. -/
theorem scanned_pad_iff {v : Level} (ha : IsBlanks a) (hb : IsBlanks b) :
    Scanned v (a ++ t ++ b) ↔ Scanned v t := by
  have hbefore := flat_of_isBlanks ha
  have hbehind := flat_of_isBlanks hb
  -- Blanks move neither the depth nor the operand, and no operator stands in them.
  have hdepth (d : Int) : depthAfter d (a ++ t ++ b) = depthAfter d t := by
    rw [depthAfter_append, depthAfter_append, hbefore.depth, hbehind.depth]
  have hoperand : operandAfter false (a ++ t ++ b) = operandAfter false t := by
    rw [operandAfter_append, operandAfter_append, operandAfter_of_isBlanks ha,
      operandAfter_of_isBlanks hb]
  have hquiet (w : Level) (d : Int) : splitLast w.symbols d false (a ++ t ++ b) = none ↔
      splitLast w.symbols d false t = none := by
    rw [splitLast_append_eq_none_iff, splitLast_append_eq_none_iff, hbefore.depth,
      operandAfter_of_isBlanks ha]
    simp [hbefore.quiet, hbehind.quiet]
  constructor
  · intro h
    refine ⟨fun d => ?_, ?_, fun w d hd hw => ?_⟩
    · rw [← hdepth, h.depth]
    · rw [← hoperand, h.operand]
    · rw [← hquiet]
      exact h.quiet w d hd hw
  · intro h
    refine ⟨fun d => ?_, ?_, fun w d hd hw => ?_⟩
    · rw [hdepth, h.depth]
    · rw [hoperand, h.operand]
    · rw [hquiet]
      exact h.quiet w d hd hw

theorem Scanned.trimStart {v : Level} (h : Scanned v t) : Scanned v (Text.trimStart t) := by
  obtain ⟨a, ha, hsplit⟩ := exists_eq_append_trimStart t
  rw [← scanned_pad_iff ha isBlanks_nil, List.append_nil, ← hsplit]
  exact h

theorem Scanned.trimEnd {v : Level} (h : Scanned v t) : Scanned v (Text.trimEnd t) := by
  obtain ⟨b, hb, hsplit⟩ := exists_eq_trimEnd_append t
  rw [← scanned_pad_iff isBlanks_nil hb, List.nil_append, ← hsplit]
  exact h

/-- A piece has something in it that is no blank. -/
theorem Scanned.exists_visible {v : Level} (h : Scanned v t) : ∃ c ∈ t, isBlank c = false := by
  by_contra hnone
  have hblanks : IsBlanks t := by simpa [IsBlanks] using hnone
  have hoperand := h.operand
  rw [operandAfter_of_isBlanks hblanks] at hoperand
  cases hoperand

/-! ### Words, parentheses and operators -/

theorem operandAfter_of_plain (h : ∀ c ∈ t, IsPlain c) (hne : t ≠ []) (o : Bool) :
    operandAfter o t = true := by
  induction t generalizing o with
  | nil => exact absurd rfl hne
  | cons c t ih =>
    obtain ⟨hblank, hmark⟩ := h c (by simp)
    have hstep : operandStep o c = true := by
      simp only [marks, List.mem_cons, List.not_mem_nil, or_false, not_or] at hmark
      simp [operandStep, hblank, hmark]
    rw [operandAfter, List.foldl_cons, hstep]
    by_cases ht : t = []
    · rw [ht]
      rfl
    · exact ih (fun x hx => h x (by simp [hx])) ht true

theorem scanned_of_plain (h : ∀ c ∈ t, IsPlain c) (hne : t ≠ []) (v : Level) : Scanned v t := by
  have hflat := flat_of_forall fun c hc => (h c hc).2
  exact ⟨hflat.depth, operandAfter_of_plain h hne false, fun w d _ _ => hflat.quiet w d false⟩

/-- A minus sign in front of a word stands behind no operand, so it is no operator. -/
theorem scanned_minus (h : ∀ c ∈ t, IsPlain c) (hne : t ≠ []) (v : Level) :
    Scanned v ('-' :: t) := by
  have hword := scanned_of_plain h hne v
  refine ⟨hword.depth, hword.operand, fun w d hd hw => ?_⟩
  rw [splitLast_cons_eq_none_iff]
  exact ⟨Bool.and_false _, hword.quiet w d hd hw⟩

theorem scanned_parens {v : Level} (h : Scanned v t) (u : Level) :
    Scanned u ('(' :: (t ++ [')'])) := by
  have hopen (d : Int) : depthStep d '(' = d + 1 := rfl
  refine ⟨fun d => ?_, ?_, fun w d hd _ => ?_⟩
  · rw [depthAfter, List.foldl_cons, hopen]
    show depthAfter (d + 1) (t ++ [')']) = d
    rw [depthAfter_append, h.depth]
    show d + 1 - 1 = d
    omega
  · show operandAfter false (t ++ [')']) = true
    rw [operandAfter_append]
    rfl
  · -- Inside the parentheses the depth is positive, so nothing is found there.
    have hclose : splitLast w.symbols (d + 1) true [')'] = none := by
      cases w <;> simp [splitLast, Level.symbols]
    rw [splitLast_cons_eq_none_iff, hopen]
    refine ⟨by cases w <;> simp [Level.symbols], ?_⟩
    show splitLast w.symbols (d + 1) false (t ++ [')']) = none
    rw [splitLast_append_eq_none_iff, h.depth, h.operand]
    exact ⟨h.quiet w (d + 1) (by omega) (.inl (by omega)), hclose⟩

theorem scanned_operation {op : Operator} (hs : Scanned op.level s)
    (ht : Scanned op.level.tighter t) : Scanned op.level (s ++ op.symbol :: t) := by
  refine ⟨fun d => ?_, ?_, fun w d hd hw => ?_⟩
  · rw [depthAfter_append, hs.depth, depthAfter, List.foldl_cons, op.depthStep_symbol]
    exact ht.depth d
  · rw [operandAfter_append, operandAfter, List.foldl_cons, op.operandStep_symbol]
    exact ht.operand
  · rw [splitLast_append_eq_none_iff, hs.depth, hs.operand, splitLast_cons_eq_none_iff,
      op.depthStep_symbol, op.operandStep_symbol]
    refine ⟨hs.quiet w d hd hw, ?_, ht.loosen.quiet w d hd hw⟩
    rcases hw with hpos | hlt
    · simp [Int.ne_of_gt hpos]
    · rw [op.contains_symbols_of_rank_lt hlt]
      simp

/-- A text with an operator between two pieces is split there. -/
theorem split?_operation {op : Operator} (hs : Scanned op.level s)
    (ht : Scanned op.level.tighter t) :
    split? (s ++ op.symbol :: t) = some (s, op.symbol, t) := by
  have hhere : splitLast op.level.symbols 0 true (op.symbol :: t) = some ([], op.symbol, t) := by
    have hright := ht.quiet op.level 0 (le_refl 0) (.inr op.rank_level_lt_tighter)
    rw [splitLast_cons_of_none (by rwa [op.depthStep_symbol, op.operandStep_symbol]),
      op.contains_symbols_level]
    rfl
  have hfound : splitLast op.level.symbols 0 false (s ++ op.symbol :: t) =
      some (s, op.symbol, t) := by
    rw [← hs.depth 0, ← hs.operand] at hhere
    rw [splitLast_append_of_some hhere, List.append_nil]
  -- Products are looked for where there is no sum.
  have hquiet := (scanned_operation hs ht).quiet .sum 0 (le_refl 0)
  unfold split?
  cases hlevel : op.level with
  | sum =>
    rw [hlevel] at hfound
    rw [show splitLast ['+', '-'] 0 false (s ++ op.symbol :: t) = _ from hfound, Option.some_or]
  | product =>
    rw [hlevel] at hfound hquiet
    rw [show splitLast ['+', '-'] 0 false (s ++ op.symbol :: t) = _ from
      hquiet (.inr (by decide)), Option.none_or]
    exact hfound
  | factor => cases op <;> cases hlevel

theorem split?_of_scanned_factor (h : Scanned .factor t) : split? t = none := by
  unfold split?
  rw [show splitLast ['+', '-'] 0 false t = none from
    h.quiet .sum 0 (le_refl 0) (.inr (by decide)), Option.none_or]
  exact h.quiet .product 0 (le_refl 0) (.inr (by decide))

/-! ## Parentheses around a text -/

/-- All parentheses of a piece are closed in it. -/
def Closed (t : Text) : Prop := ∀ n rest, balancedFrom n (t ++ rest) = balancedFrom n rest

theorem Closed.append (hs : Closed s) (ht : Closed t) : Closed (s ++ t) := by
  intro n rest
  rw [List.append_assoc, hs, ht]

theorem balancedFrom_open (n : Nat) (t : Text) :
    balancedFrom n ('(' :: t) = balancedFrom (n + 1) t := rfl

theorem balancedFrom_close (n : Nat) (t : Text) :
    balancedFrom n (')' :: t) = (decide (0 < n) && balancedFrom (n - 1) t) := rfl

theorem balancedFrom_other (hopen : c ≠ '(') (hclose : c ≠ ')') (n : Nat) (t : Text) :
    balancedFrom n (c :: t) = balancedFrom n t := by
  simp [balancedFrom, hopen, hclose]

theorem closed_of_forall (h : ∀ c ∈ t, c ∉ marks) : Closed t := by
  intro n rest
  induction t with
  | nil => rfl
  | cons c t ih =>
    have hopen : c ≠ '(' := fun hc => h c (by simp) (by simp [marks, hc])
    have hclose : c ≠ ')' := fun hc => h c (by simp) (by simp [marks, hc])
    rw [List.cons_append, balancedFrom_other hopen hclose]
    exact ih fun x hx => h x (by simp [hx])

theorem closed_symbol (op : Operator) : Closed [op.symbol] := by
  intro n rest
  cases op <;> exact balancedFrom_other (by decide) (by decide) n rest

theorem closed_parens (h : Closed t) : Closed ('(' :: (t ++ [')'])) := by
  intro n rest
  rw [List.cons_append, balancedFrom_open, List.append_assoc, h]
  show balancedFrom (n + 1) (')' :: rest) = balancedFrom n rest
  simp [balancedFrom_close]

/-- Where parentheses are closed in order, the depth is never negative. -/
theorem depthAfter_nonneg {n : Nat} (h : balancedFrom n (s ++ t) = true) :
    0 ≤ depthAfter n s := by
  induction s generalizing n with
  | nil => exact Int.natCast_nonneg n
  | cons c s ih =>
    rw [List.cons_append] at h
    show 0 ≤ depthAfter (depthStep n c) s
    by_cases hopen : c = '('
    · subst hopen
      rw [balancedFrom_open] at h
      exact ih h
    by_cases hclose : c = ')'
    · subst hclose
      rw [balancedFrom_close, Bool.and_eq_true, decide_eq_true_eq] at h
      obtain ⟨hpos, h⟩ := h
      have hstep : depthStep n ')' = (n - 1 : Nat) := by
        show (n : Int) - 1 = (n - 1 : Nat)
        omega
      rw [hstep]
      exact ih h
    · rw [balancedFrom_other hopen hclose] at h
      have hstep : depthStep n c = n := by simp [depthStep, hopen, hclose]
      rw [hstep]
      exact ih h

theorem enclosed?_cons (hc : c ≠ '(') (t : Text) : enclosed? (c :: t) = none := by
  unfold enclosed?
  split
  · rename_i heq
    exact absurd (List.cons.inj heq).1 hc
  · rfl

/-- What begins with a whole piece is not enclosed by one pair of parentheses. -/
theorem enclosed?_of_scanned {v : Level} (h : Scanned v s) (c : Char) (t : Text) :
    enclosed? (s ++ c :: t) = none := by
  cases s with
  | nil => exact absurd h.operand (by decide)
  | cons x s =>
    by_cases hopen : x = '('
    · -- At the end of the piece the depth would be negative inside the pair.
      have hnot : balancedFrom 0 (s ++ (c :: t).dropLast) = false := by
        rw [Bool.eq_false_iff]
        intro hbalanced
        have hnonneg := depthAfter_nonneg hbalanced
        have hdepth : depthAfter (0 + 1) s = 0 := by
          subst hopen
          exact h.depth 0
        rw [depthAfter_add] at hdepth
        simp only [Nat.cast_zero] at hnonneg
        omega
      subst hopen
      rw [List.cons_append, enclosed?, List.dropLast_append_of_ne_nil (List.cons_ne_nil c t), hnot,
        Bool.and_false]
      rfl
    · exact enclosed?_cons hopen _

/-- Parentheses around a piece are taken away. -/
theorem core_parens (h : Closed t) : core ('(' :: (t ++ [')'])) = core t := by
  have htrim : trim ('(' :: (t ++ [')'])) = '(' :: (t ++ [')']) := by
    rw [trim, trimStart_cons (by decide), ← List.cons_append, trimEnd_concat (by decide)]
  have hclosed : balancedFrom 0 t = true := by
    rw [← List.append_nil t, h]
    rfl
  have hinner : enclosed? ('(' :: (t ++ [')'])) = some (trim t) := by
    simp [enclosed?, hclosed]
  rw [core, htrim, stripParens_eq, hinner, core]

theorem core_pad (ha : IsBlanks a) (hb : IsBlanks b) : core (a ++ t ++ b) = core t := by
  rw [core, trim_pad ha hb, core]

theorem core_cons (h : ∀ x ∈ c :: t, isBlank x = false) (hc : c ≠ '(') :
    core (c :: t) = c :: t := by
  rw [core, trim_eq_self h, stripParens_eq, enclosed?_cons hc]

/-- Around an operator, only blanks are taken away. -/
theorem core_operation {op : Operator} {u v : Level} (hs : Scanned u s) (ht : Scanned v t) :
    core (s ++ op.symbol :: t) = trimStart s ++ op.symbol :: trimEnd t := by
  obtain ⟨x, hx, hxblank⟩ := hs.exists_visible
  obtain ⟨y, hy, hyblank⟩ := ht.exists_visible
  rw [core, trim_append_cons hx hxblank op.symbol hy hyblank, stripParens_eq,
    enclosed?_of_scanned hs.trimStart]

/-! ## Written expressions -/

theorem isPlain_of_digitValue {d : Nat} (h : digitValue c = some d) : IsPlain c := by
  constructor
  · have hdigit : c.isDigit = true ∨ c.isAlpha = true := by
      unfold digitValue at h
      split at h
      · exact .inl ‹_›
      · split at h
        · exact .inr ‹_›
        · cases h
    rw [isDigit_iff, isAlpha_iff] at hdigit
    have hrange : 48 ≤ c.toNat ∧ c.toNat ≤ 122 := by omega
    simp only [isBlank]
    grind
  · intro hmark
    have hmarks : marks.all (fun c => (digitValue c).isNone) = true := by decide
    have hnone := List.all_eq_true.1 hmarks c hmark
    rw [h] at hnone
    cases hnone

theorem isPlain_of_isNumeral {base : Nat} {digits : Text} (h : IsNumeral base digits) :
    ∀ c ∈ digits, IsPlain c := by
  intro c hc
  rcases h.digit c hc with rfl | ⟨d, hd, -⟩
  · decide
  · exact isPlain_of_digitValue hd

/-- The scan sees a written form as an operand of its level. -/
theorem Written.scanned {v : Level} {e : Expression} (h : Written v e t) : Scanned v t := by
  induction h with
  | literal h => exact scanned_of_plain (isPlain_of_isNumeral h) h.ne_nil _
  | negative h => exact scanned_minus (isPlain_of_isNumeral h) h.ne_nil _
  | constant h => exact scanned_of_plain (fun c hc => (h.plain c hc).1) h.ne_nil _
  | parens _ ih => exact scanned_parens ih _
  | operation _ _ hs ht => exact scanned_operation hs ht
  | loosen _ ih => exact ih.loosen
  | pad ha _ hb ih => exact (scanned_pad_iff ha hb).2 ih

theorem Written.closed {v : Level} {e : Expression} (h : Written v e t) : Closed t := by
  induction h with
  | literal h => exact closed_of_forall fun c hc => (isPlain_of_isNumeral h c hc).2
  | negative h =>
    exact (closed_symbol .sub).append
      (closed_of_forall fun c hc => (isPlain_of_isNumeral h c hc).2)
  | constant h => exact closed_of_forall fun c hc => (h.plain c hc).1.2
  | parens _ ih => exact closed_parens ih
  | @operation op _ _ _ _ _ _ hs ht => exact hs.append ((closed_symbol op).append ht)
  | loosen _ ih => exact ih
  | pad ha _ hb ih =>
    have hblanks {a : Text} (ha : IsBlanks a) : Closed a :=
      closed_of_forall fun c hc => not_mem_marks_of_isBlank (ha c hc)
    exact ((hblanks ha).append ih).append (hblanks hb)

end DesignFacts.Bound
