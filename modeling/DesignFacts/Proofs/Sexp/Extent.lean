import DesignFacts.Proofs.Sexp.Scan
import Mathlib.Data.List.Pairwise

/-!
# Where the tokens of a text lie

A token carries the offset at which it starts. This file says which bytes of the text belong to it,
and that the tokens, the comments and the blanks between them share the bytes of the text without
overlap and without a gap.

**Extents.** The extent of a token is that of the lexeme of its kind at its offset
(`Token.Extent`). A byte is in a comment if two slashes outside all tokens stand before it, or at
it, on the same line (`InComment`). Neither says how the text is read.

**Pieces** (`Piece`, `Row`). The lexemes of a text lie one behind the other, so each byte is in
exactly one of them. A byte in none of the tokens is then a blank or in a comment
(`Row.tokensCover`).

**Slices.** A slice of the text that cuts a character fails, and with it the reading. No reading
fails so, whatever the text: all slices that are taken begin and end between characters.

Main result: `tokenize_covers`.
-/

namespace DesignFacts.Sexp

open Text

variable {t p p' rest rest' : Text} {k k' i : Nat} {ts : List Token} {token : Token}

/-! ## Extents -/

/-- The extent of a token: the lexeme of its kind from its offset to `stop`. -/
def Token.Extent (t : Text) (token : Token) (stop : Nat) : Prop :=
  ∃ pre p rest, t = pre ++ (p ++ rest) ∧ bytes pre = token.offset ∧ token.offset + bytes p = stop ∧
    Lexeme p (some token.kind) rest

/-- A byte is in the extent of a token. -/
def Token.Holds (t : Text) (token : Token) (i : Nat) : Prop :=
  ∃ stop, token.Extent t stop ∧ token.offset ≤ i ∧ i < stop

/-- A byte is in a comment: two slashes outside the tokens begin at it or before it, and no line
ends in between. -/
def InComment (t : Text) (ts : List Token) (i : Nat) : Prop :=
  ∃ pre body rest, t = pre ++ ('/' :: '/' :: body ++ rest) ∧ '\n' ∉ body ∧
    (∀ token ∈ ts, ¬ token.Holds t (bytes pre)) ∧
    bytes pre ≤ i ∧ i < bytes pre + bytes ('/' :: '/' :: body)

/-- The tokens of a text up to an offset, as bytes of the text. -/
structure TokensCover (t : Text) (ts : List Token) (upTo : Nat) : Prop where
  increasing : ts.Pairwise (·.offset < ·.offset)
  /-- Every token has one extent, and neither end of it cuts a character. -/
  extent : ∀ token ∈ ts, IsBoundary t token.offset ∧
    ∃ stop, token.offset < stop ∧ stop ≤ upTo ∧ IsBoundary t stop ∧
      ∀ other, token.Extent t other ↔ other = stop
  /-- A token starts at a byte that is no blank and in no comment and no earlier token. -/
  starts : ∀ token ∈ ts, byteIs isSpace t token.offset = false ∧ ¬ InComment t ts token.offset ∧
    ∀ earlier ∈ ts, earlier.offset < token.offset → ¬ earlier.Holds t token.offset
  /-- Any byte but a blank is in a comment or in exactly one token. -/
  covered : ∀ i < upTo, byteIs isSpace t i = false → ¬ InComment t ts i →
    ∃! token, token ∈ ts ∧ token.Holds t i

/-! ## Lexemes in place -/

theorem Lexeme.ne_nil {kind : Option TokenKind} (h : Lexeme p kind rest) : p ≠ [] := by
  cases h with
  | atom hatom => exact hatom.ne_nil
  | _ => exact List.cons_ne_nil _ _

/-- A string ends at one quote only. -/
theorem Quotes.unique {body body' s s' : Text} (h : Quotes body s) (h' : Quotes body' s')
    (heq : body ++ '"' :: rest = body' ++ '"' :: rest') : body = body' := by
  induction h generalizing body' s' with
  | nil =>
    cases h' with
    | nil => rfl
    | plain hquote _ _ => exact absurd (List.cons.inj heq).1.symm hquote
    | escape _ => exact absurd (List.cons.inj heq).1 (by decide)
  | plain hquote hescape _ ih =>
    cases h' with
    | nil => exact absurd (List.cons.inj heq).1 hquote
    | plain _ _ h' =>
      obtain ⟨rfl, hrest⟩ := List.cons.inj heq
      rw [ih h' hrest]
    | escape _ => exact absurd (List.cons.inj heq).1 hescape
  | escape _ ih =>
    cases h' with
    | nil => exact absurd (List.cons.inj heq).1 (by decide)
    | plain _ hescape _ => exact absurd (List.cons.inj heq).1.symm hescape
    | escape h' =>
      obtain ⟨rfl, hrest⟩ := List.cons.inj (List.cons.inj heq).2
      rw [ih h' hrest]

theorem closes_append {body s : Text} (h : Quotes body s) (rest : Text) :
    closes (body ++ '"' :: rest) = true := by
  induction h with
  | nil => simp [closes]
  | plain _ hescape _ ih => simp [closes, hescape, ih]
  | escape _ ih => simpa [closes] using ih

/-- From one place on, there is one lexeme of a kind. -/
theorem Lexeme.unique {kind : TokenKind} (h : Lexeme p (some kind) rest)
    (h' : Lexeme p' (some kind) rest') (heq : p ++ rest = p' ++ rest') : p = p' := by
  cases h with
  | openParen =>
    cases h'
    rfl
  | closeParen =>
    cases h'
    rfl
  | string hbody =>
    cases h' with
    | string hbody' =>
      simp only [List.cons_append, List.append_assoc, List.cons.injEq, true_and] at heq
      rw [hbody.unique hbody' heq]
  | atom _ =>
    cases h'
    rfl

/-- A token begins with a character that is no blank. -/
theorem Lexeme.exists_head {kind : TokenKind} (h : Lexeme p (some kind) rest) :
    ∃ c q, p = c :: q ∧ isSpace c = false := by
  cases h with
  | openParen => exact ⟨_, _, rfl, by decide⟩
  | closeParen => exact ⟨_, _, rfl, by decide⟩
  | string _ => exact ⟨_, _, rfl, by decide⟩
  | atom hatom =>
    obtain ⟨c, q, rfl⟩ := List.exists_cons_of_ne_nil hatom.ne_nil
    have hc := hatom.undelimited c List.mem_cons_self
    simp only [isDelimiter, Bool.or_eq_false_iff] at hc
    exact ⟨c, q, rfl, hc.1.1.1⟩

/-! ## Pieces -/

/-- A lexeme and the offset at which it starts. -/
structure Piece where
  start : Nat
  text : Text
  kind : Option TokenKind

namespace Piece

variable {x y : Piece}

/-- The offset behind a piece. -/
def stop (x : Piece) : Nat := x.start + bytes x.text

/-- The token that a piece is, if it is one. -/
def token? (x : Piece) : Option Token := x.kind.map fun kind => ⟨kind, x.start⟩

/-- A byte is in the piece. -/
def Has (x : Piece) (i : Nat) : Prop := x.start ≤ i ∧ i < x.stop

/-- A text has the piece where it says it is. -/
def LiesIn (t : Text) (x : Piece) : Prop :=
  ∃ pre rest, t = pre ++ (x.text ++ rest) ∧ bytes pre = x.start ∧ Lexeme x.text x.kind rest

theorem token?_eq_some_iff :
    x.token? = some token ↔ x.kind = some token.kind ∧ x.start = token.offset := by
  rw [token?, Option.map_eq_some_iff]
  constructor
  · rintro ⟨kind, hkind, rfl⟩
    exact ⟨hkind, rfl⟩
  · rintro ⟨hkind, hstart⟩
    exact ⟨token.kind, hkind, by rw [hstart]⟩

theorem LiesIn.has_start (h : x.LiesIn t) : x.Has x.start := by
  obtain ⟨pre, rest, -, -, hlexeme⟩ := h
  obtain ⟨c, q, hcons⟩ := List.exists_cons_of_ne_nil hlexeme.ne_nil
  have hpos := c.utf8Size_pos
  refine ⟨Nat.le_refl _, ?_⟩
  rw [stop, hcons, bytes_cons]
  omega

theorem LiesIn.isBoundary (h : x.LiesIn t) : IsBoundary t x.start ∧ IsBoundary t x.stop := by
  obtain ⟨pre, rest, rfl, hpre, -⟩ := h
  exact ⟨⟨pre, x.text ++ rest, rfl, hpre⟩, pre ++ x.text, rest, by simp,
    by rw [bytes_append, hpre, stop]⟩

/-- A piece that is no token is a blank, or a comment to the end of its line. -/
theorem LiesIn.blank_or_comment (h : x.LiesIn t) (hkind : x.kind = none) :
    (∀ i, x.Has i → byteIs isSpace t i = true) ∨
      ∃ pre body rest, t = pre ++ ('/' :: '/' :: body ++ rest) ∧ '\n' ∉ body ∧
        (∀ c, rest.head? = some c → c = '\n') ∧ bytes pre = x.start ∧
        x.stop = x.start + bytes ('/' :: '/' :: body) := by
  obtain ⟨pre, rest, ht, hpre, hlexeme⟩ := h
  rw [hkind] at hlexeme
  unfold Has stop
  generalize x.text = p at ht hlexeme
  cases hlexeme with
  | @space c _ hc =>
    refine .inl fun i hi => ?_
    have hlt : i < bytes pre + c.utf8Size := by simpa [hpre] using hi.2
    rw [ht, List.singleton_append, byteIs_eq asciiOnly_isSpace rest (hpre ▸ hi.1) hlt, hc]
  | @comment body _ hbody hrest => exact .inr ⟨pre, body, rest, ht, hbody, hrest, hpre, rfl⟩

/-- The extent of a token is that of its piece. -/
theorem LiesIn.extent_iff (h : x.LiesIn t) (htoken : x.token? = some token) (other : Nat) :
    token.Extent t other ↔ other = x.stop := by
  obtain ⟨hkind, hstart⟩ := token?_eq_some_iff.1 htoken
  obtain ⟨pre, rest, rfl, hpre, hlexeme⟩ := h
  rw [hkind] at hlexeme
  constructor
  · rintro ⟨pre', p, rest', heq, hpre', rfl, hlexeme'⟩
    obtain ⟨-, hrest⟩ := append_inj_of_bytes_eq heq (hpre.trans (hstart.trans hpre'.symm))
    rw [stop, hlexeme.unique hlexeme' hrest, hstart]
  · rintro rfl
    exact ⟨pre, x.text, rest, rfl, hpre.trans hstart, by rw [stop, hstart], hlexeme⟩

theorem LiesIn.holds_iff (h : x.LiesIn t) (htoken : x.token? = some token) :
    token.Holds t i ↔ x.Has i := by
  obtain ⟨-, hstart⟩ := token?_eq_some_iff.1 htoken
  simp only [Token.Holds, h.extent_iff htoken, exists_eq_left, Has, hstart]

end Piece

/-- The pieces between two offsets of a text, one behind the other. -/
structure Row (t : Text) (k : Nat) (pieces : List Piece) (k' : Nat) : Prop where
  lies : ∀ x ∈ pieces, x.LiesIn t
  ordered : pieces.Pairwise fun x y => x.stop ≤ y.start
  within : ∀ x ∈ pieces, k ≤ x.start ∧ x.stop ≤ k'
  full : ∀ i, k ≤ i → i < k' → ∃ x ∈ pieces, x.Has i

/-- Going over lexemes leaves a row of pieces behind. -/
theorem Lexes.exists_row {t' : Text} (h : Lexes k t ts k' t') (pre : Text) (hpre : bytes pre = k) :
    ∃ mid pieces, t = mid ++ t' ∧ k' = k + bytes mid ∧ Row (pre ++ t) k pieces k' ∧
      ts = pieces.filterMap Piece.token? := by
  induction h generalizing pre with
  | here k t =>
    refine ⟨[], [], rfl, rfl, ⟨by simp, .nil, by simp, fun i hle hlt => ?_⟩, rfl⟩
    omega
  | @past k k' p rest t' kind ts hlexeme _ ih =>
    obtain ⟨mid, pieces, hmid, hk', hrow, rfl⟩ := ih (pre ++ p) (by rw [bytes_append, hpre])
    rw [List.append_assoc] at hrow
    have hlies : Piece.LiesIn (pre ++ (p ++ rest)) ⟨k, p, kind⟩ := ⟨pre, rest, rfl, hpre, hlexeme⟩
    refine ⟨p ++ mid, ⟨k, p, kind⟩ :: pieces, by rw [hmid, List.append_assoc],
      by rw [hk', bytes_append, Nat.add_assoc], ⟨?_, ?_, ?_, fun i hle hlt => ?_⟩, ?_⟩
    · exact List.forall_mem_cons.2 ⟨hlies, hrow.lies⟩
    · exact List.pairwise_cons.2 ⟨fun x hx => (hrow.within x hx).1, hrow.ordered⟩
    · refine List.forall_mem_cons.2 ⟨⟨Nat.le_refl _, ?_⟩, fun x hx => ?_⟩
      · show k + bytes p ≤ k'
        omega
      · have hx := hrow.within x hx
        omega
    · by_cases hi : i < k + bytes p
      · exact ⟨_, List.mem_cons_self, hle, hi⟩
      · obtain ⟨x, hx, hhas⟩ := hrow.full i (by omega) hlt
        exact ⟨x, List.mem_cons_of_mem _ hx, hhas⟩
    · cases kind <;> rfl

namespace Row

variable {pieces : List Piece} {x y : Piece} (hrow : Row t 0 pieces k)
include hrow

/-- Two pieces with a byte in common are one. -/
theorem eq_of_has (hx : x ∈ pieces) (hy : y ∈ pieces) (hxi : x.Has i) (hyi : y.Has i) : x = y := by
  have hpairs : pieces.Pairwise fun x y => x.Has i → y.Has i → x = y := by
    refine hrow.ordered.imp fun {x y} hle hx hy => ?_
    have hlt := hx.2
    have hstart := hy.1
    omega
  have hsymm : Std.Symm fun x y : Piece => x.Has i → y.Has i → x = y :=
    ⟨fun x y h hy hx => (h hx hy).symm⟩
  exact hpairs.forall_of_forall (fun _ _ _ _ => rfl) hx hy hxi hyi

theorem holds_iff (hx : x ∈ pieces) (htoken : x.token? = some token) :
    token.Holds t i ↔ x.Has i :=
  (hrow.lies x hx).holds_iff htoken

/-- The bytes of a piece that is no token are blanks or in a comment. -/
theorem isSpace_or_inComment (hx : x ∈ pieces) (hkind : x.kind = none) (hi : x.Has i) :
    byteIs isSpace t i = true ∨ InComment t (pieces.filterMap Piece.token?) i := by
  rcases (hrow.lies x hx).blank_or_comment hkind with
    hblank | ⟨pre, body, rest, ht, hbody, -, hpre, hstop⟩
  · exact .inl (hblank i hi)
  · refine .inr ⟨pre, body, rest, ht, hbody, fun token htoken hholds => ?_, hpre ▸ hi.1, ?_⟩
    · obtain ⟨y, hy, hytoken⟩ := List.mem_filterMap.1 htoken
      rw [hrow.holds_iff hy hytoken, hpre] at hholds
      obtain rfl := hrow.eq_of_has hx hy (hrow.lies x hx).has_start hholds
      rw [Piece.token?, hkind] at hytoken
      cases hytoken
    · rw [hpre, ← hstop]
      exact hi.2

/-- A comment goes on to the end of its line. -/
theorem lt_stop_of_slashes {pre body rest : Text} (hx : x ∈ pieces) (hkind : x.kind = none)
    (ht : t = pre ++ ('/' :: '/' :: body ++ rest)) (hbody : '\n' ∉ body) (hhas : x.Has (bytes pre))
    (hlt : i < bytes pre + bytes ('/' :: '/' :: body)) : i < x.stop := by
  rcases (hrow.lies x hx).blank_or_comment hkind with
    hblank | ⟨pre', body', rest', ht', -, hend, hpre', hstop⟩
  · -- The piece would be a blank and a slash.
    have hslash : byteIs isSpace t (bytes pre) = isSpace '/' := by
      rw [ht]
      exact byteIs_eq asciiOnly_isSpace _ (Nat.le_refl _) (Nat.lt_add_of_pos_right (by decide))
    rw [hblank _ hhas] at hslash
    exact absurd hslash (by decide)
  · by_contra hge
    have hbefore := hhas.2
    have hwhole := congrArg bytes (ht.symm.trans ht')
    rw [bytes_append, bytes_append, bytes_append, bytes_append, hpre'] at hwhole
    cases rest' with
    | nil =>
      rw [bytes_nil] at hwhole
      omega
    | cons c rest' =>
      -- Behind the piece a line ends, and that is before the byte.
      obtain rfl := hend c rfl
      rw [← List.append_assoc] at ht'
      obtain ⟨mid, hmid, hrest⟩ := exists_append_of_bytes_le (ht.symm.trans ht')
        (by rw [bytes_append, hpre']; omega)
      have hbytes := congrArg bytes hmid
      rw [bytes_append, bytes_append, hpre'] at hbytes
      have hmem := mem_of_bytes_lt hrest (by omega)
      simp [hbody] at hmem

/-- A byte in a comment is in a piece that is no token, if the row does not end at a slash. -/
theorem exists_of_inComment (hend : ∀ pre post, t = pre ++ post → bytes pre = k →
      post.head? ≠ some '/') (hik : i ≤ k) (hi : InComment t (pieces.filterMap Piece.token?) i) :
    ∃ x ∈ pieces, x.kind = none ∧ x.Has i := by
  obtain ⟨pre, body, rest, ht, hbody, hfree, hle, hlt⟩ := hi
  have hk : bytes pre < k := by
    refine Nat.lt_of_le_of_ne (hle.trans hik) fun heq => ?_
    exact hend pre _ ht heq rfl
  obtain ⟨x, hx, hhas⟩ := hrow.full (bytes pre) (Nat.zero_le _) hk
  have hkind : x.kind = none := by
    cases hkind : x.kind with
    | none => rfl
    | some kind =>
      have htoken : x.token? = some ⟨kind, x.start⟩ := by
        rw [Piece.token?, hkind]
        rfl
      refine absurd ((hrow.holds_iff hx htoken).2 hhas) (hfree _ ?_)
      exact List.mem_filterMap.2 ⟨x, hx, htoken⟩
  exact ⟨x, hx, hkind, hhas.1.trans hle, hrow.lt_stop_of_slashes hx hkind ht hbody hhas hlt⟩

theorem pairwise_offset :
    (pieces.filterMap Piece.token?).Pairwise fun a b => a.offset < b.offset := by
  rw [List.pairwise_filterMap]
  refine hrow.ordered.imp_of_mem fun {x y} hx hy hle a ha b hb => ?_
  rw [← (Piece.token?_eq_some_iff.1 ha).2, ← (Piece.token?_eq_some_iff.1 hb).2]
  exact Nat.lt_of_lt_of_le (hrow.lies x hx).has_start.2 hle

theorem not_isSpace_offset (hx : x ∈ pieces) (htoken : x.token? = some token) :
    byteIs isSpace t token.offset = false := by
  obtain ⟨hkind, hstart⟩ := Piece.token?_eq_some_iff.1 htoken
  obtain ⟨pre, rest, ht, hpre, hlexeme⟩ := hrow.lies x hx
  rw [hkind] at hlexeme
  obtain ⟨c, q, hcons, hc⟩ := hlexeme.exists_head
  have hpos := c.utf8Size_pos
  rw [ht, hcons, List.cons_append, byteIs_eq asciiOnly_isSpace _ (by omega) (by omega), hc]

/-- The tokens of a row of pieces cover the bytes of the row but for blanks and comments. -/
theorem tokensCover
    (hend : ∀ pre post, t = pre ++ post → bytes pre = k → post.head? ≠ some '/') :
    TokensCover t (pieces.filterMap Piece.token?) k where
  increasing := hrow.pairwise_offset
  extent := by
    intro token htoken
    obtain ⟨x, hx, htoken⟩ := List.mem_filterMap.1 htoken
    have hlies := hrow.lies x hx
    rw [← (Piece.token?_eq_some_iff.1 htoken).2]
    exact ⟨hlies.isBoundary.1, x.stop, hlies.has_start.2, (hrow.within x hx).2,
      hlies.isBoundary.2, hlies.extent_iff htoken⟩
  starts := by
    intro token htoken
    obtain ⟨x, hx, htoken⟩ := List.mem_filterMap.1 htoken
    obtain ⟨hkind, hstart⟩ := Piece.token?_eq_some_iff.1 htoken
    have hhas := (hrow.lies x hx).has_start
    refine ⟨hrow.not_isSpace_offset hx htoken, fun hcomment => ?_, fun earlier hearlier hlt => ?_⟩
    · have hle : token.offset ≤ k := by
        have hstop := (hrow.within x hx).2
        have hlt := hhas.2
        omega
      -- Every byte in a comment is in a piece without a token, and pieces do not overlap.
      obtain ⟨y, hy, hnone, hyhas⟩ := hrow.exists_of_inComment hend hle hcomment
      rw [← hstart] at hyhas
      obtain rfl := hrow.eq_of_has hx hy hhas hyhas
      rw [hkind] at hnone
      cases hnone
    · obtain ⟨y, hy, hytoken⟩ := List.mem_filterMap.1 hearlier
      rw [hrow.holds_iff hy hytoken, ← hstart]
      intro hyhas
      obtain rfl := hrow.eq_of_has hx hy hhas hyhas
      rw [(Piece.token?_eq_some_iff.1 hytoken).2] at hstart
      omega
  covered := by
    intro i hi hspace hcomment
    obtain ⟨x, hx, hhas⟩ := hrow.full i (Nat.zero_le i) hi
    cases htoken : x.token? with
    | none =>
      have hkind : x.kind = none := by simpa [Piece.token?] using htoken
      rcases hrow.isSpace_or_inComment hx hkind hhas with h | h
      · rw [h] at hspace
        cases hspace
      · exact absurd h hcomment
    | some token =>
      refine ⟨token, ⟨List.mem_filterMap.2 ⟨x, hx, htoken⟩, (hrow.holds_iff hx htoken).2 hhas⟩, ?_⟩
      rintro other ⟨hother, hholds⟩
      obtain ⟨y, hy, hytoken⟩ := List.mem_filterMap.1 hother
      obtain rfl := hrow.eq_of_has hx hy hhas ((hrow.holds_iff hy hytoken).1 hholds)
      exact Option.some.inj (hytoken.symm.trans htoken)

end Row

/-! ## The tokens of a text -/

/-- A string that starts at an offset behind the tokens, and that nothing closes: what follows its
quote is not the inside of a string with a quote behind it. -/
structure UnclosedAt (t : Text) (ts : List Token) (k : Nat) : Prop where
  outside : ¬ InComment t ts k ∧ ∀ token ∈ ts, ¬ token.Holds t k
  unclosed : ∃ pre body, t = pre ++ '"' :: body ∧ bytes pre = k ∧
    ∀ inner s rest, Quotes inner s → body ≠ inner ++ '"' :: rest

/-- **The tokens of a text cover it.** Reading a text gives its tokens: their offsets increase, each
of them starts at a byte of its own between two characters, and every byte but for blanks and
comments is in exactly one of them. Or it fails at the quote of a string that nothing closes, with
such tokens before it. A slice would fail just if it cut a character, and none does. -/
theorem tokenize_covers (t : Text) :
    ((∃ ts, tokenize t = .ok ts ∧ TokensCover t ts (bytes t)) ∨
      ∃ k ts, tokenize t = .error ⟨k, .unterminatedString⟩ ∧ TokensCover t ts k ∧
        UnclosedAt t ts k) ∧
    (∀ start stop, (∃ e, (Input.ofText t).slice start stop = .error e) ↔
      ¬ (start ≤ stop ∧ IsBoundary t start ∧ IsBoundary t stop)) ∧
    ∀ k, tokenize t ≠ .error ⟨k, .cutCharacter⟩ := by
  refine ⟨?_, Input.slice_eq_error_iff t, fun k hcut => ?_⟩
  · obtain ⟨ts, k, t', hlexes, hend⟩ := exists_lexes t 0
    obtain ⟨mid, pieces, rfl, rfl, hrow, rfl⟩ := hlexes.exists_row [] rfl
    rw [List.nil_append] at hrow
    rw [Nat.zero_add] at hrow hlexes
    -- Behind the row is the end of the text or a quote.
    have hquote : ∀ pre post, mid ++ t' = pre ++ post → bytes pre = bytes mid →
        post.head? ≠ some '/' := by
      intro pre post heq hbytes
      obtain ⟨-, rfl⟩ := append_inj_of_bytes_eq heq hbytes.symm
      rcases hend with rfl | ⟨body, rfl, -⟩ <;> simp
    have hcover := hrow.tokensCover hquote
    rcases hend with rfl | ⟨body, rfl, hopen⟩
    · rw [List.append_nil] at hlexes hcover ⊢
      exact .inl ⟨_, tokenize_of_lexes hlexes, hcover⟩
    · refine .inr ⟨_, _, tokenize_of_unclosed hlexes hopen, hcover, ⟨fun h => ?_, ?_⟩, ?_⟩
      · obtain ⟨x, hx, -, hhas⟩ := hrow.exists_of_inComment hquote (Nat.le_refl _) h
        exact absurd hhas.2 (Nat.not_lt.2 (hrow.within x hx).2)
      · intro token htoken hholds
        obtain ⟨x, hx, htoken⟩ := List.mem_filterMap.1 htoken
        rw [hrow.holds_iff hx htoken] at hholds
        exact absurd hholds.2 (Nat.not_lt.2 (hrow.within x hx).2)
      · refine ⟨mid, body, rfl, rfl, ?_⟩
        rintro inner s rest hinner rfl
        rw [closes_append hinner] at hopen
        cases hopen
  · obtain ⟨ts, body, hlexes, hopen⟩ := tokenize_eq_error hcut
    rw [tokenize_of_unclosed hlexes hopen] at hcut
    cases hcut

/-- A field name ends before a comment, an atom goes on through two slashes. -/
example : tokenize "f://é\n\"\\é\"a//b".toList =
    .ok [⟨.atom "f:".toList, 0⟩, ⟨.string "é".toList, 7⟩, ⟨.atom "a//b".toList, 12⟩] := by
  decide +kernel

end DesignFacts.Sexp
