import DesignFacts.Sexp.Item
import Mathlib.Data.List.TakeWhile

/-!
# The lexical grammar of s-expressions

The scanner goes from byte to byte. This file says in characters what it reads, as a grammar: a text
is a row of lexemes, and every lexeme is a blank, a comment or a token.

**Lexemes** (`Lexeme`). A parenthesis and a blank stand for themselves. A comment runs to the end of
its line, a string to the first quote that is not escaped, an atom to the next delimiter or through
the colon of a field name. Where a comment or an atom ends depends on what follows, so the text
after a lexeme is part of the relation.

**Rows** (`Lexes`). Going over lexemes leads from one byte offset to another, and their tokens carry
the offsets at which they start.

Main result: every text starts with a lexeme or with a string that nothing closes (`exists_lexeme`),
so going over its lexemes ends at its end or at such a string (`exists_lexes`).
-/

namespace DesignFacts.Sexp

open Text

/-! ## Strings -/

/-- What stands between the quotes of a string, and the text that it means. -/
inductive Quotes : Text → Text → Prop
  | nil : Quotes [] []
  | plain {c : Char} {body s : Text} :
      c ≠ '"' → c ≠ '\\' → Quotes body s → Quotes (c :: body) (c :: s)
  | escape {c : Char} {body s : Text} : Quotes body s → Quotes ('\\' :: c :: body) (c :: s)

/-- Whether a quote that is not escaped ends the string that goes on with a text. -/
def closes : Text → Bool
  | [] => false
  | '\\' :: _ :: t => closes t
  | c :: t => c == '"' || closes t

/-- A string is closed after what stands between its quotes, or not at all. -/
theorem exists_quotes (t : Text) :
    (∃ body s rest, t = body ++ '"' :: rest ∧ Quotes body s) ∨ closes t = false := by
  fun_induction closes t with
  | case1 => exact .inr rfl
  | case2 c t ih =>
    rcases ih with ⟨body, s, rest, rfl, hbody⟩ | hopen
    · exact .inl ⟨'\\' :: c :: body, c :: s, rest, rfl, .escape hbody⟩
    · exact .inr hopen
  | case3 c t hescape ih =>
    by_cases hquote : c = '"'
    · subst hquote
      exact .inl ⟨[], [], t, rfl, .nil⟩
    · rcases ih with ⟨body, s, rest, rfl, hbody⟩ | hopen
      · refine .inl ⟨c :: body, c :: s, rest, rfl, .plain hquote ?_ hbody⟩
        rintro rfl
        -- A backslash is followed by a character here, so the case before this one applies.
        cases body with
        | nil => exact hescape '"' rest rfl rfl
        | cons d body => exact hescape d (body ++ '"' :: rest) rfl rfl
      · exact .inr (by simp [hquote, hopen])

/-! ## Atoms -/

/-- A text is an atom, with the given text after it. -/
structure AtomAt (a rest : Text) : Prop where
  ne_nil : a ≠ []
  undelimited : ∀ c ∈ a, isDelimiter c = false
  no_comment : ¬ ['/', '/'] <+: a
  /-- The name of a field ends the atom after its colon. -/
  field_ends : ∀ name more, a = name ++ ':' :: more → isFieldName name = true → more = []
  ends : (∀ c, rest.head? = some c → isDelimiter c = true) ∨ (fieldOfAtom? a).isSome = true

theorem fieldOfAtom?_singleton (c : Char) : fieldOfAtom? [c] = none := by
  rw [fieldOfAtom?, List.reverse_singleton]
  split
  · rename_i heq
    obtain ⟨rfl, rfl⟩ := List.cons.inj heq
    rfl
  · rfl

/-! ## Lexemes -/

/-- A lexeme, the token it is, if it is one, and the text after it. -/
inductive Lexeme : Text → Option TokenKind → Text → Prop
  | space {c : Char} {rest : Text} : isSpace c = true → Lexeme [c] none rest
  | comment {body rest : Text} : '\n' ∉ body → (∀ c, rest.head? = some c → c = '\n') →
      Lexeme ('/' :: '/' :: body) none rest
  | openParen {rest : Text} : Lexeme ['('] (some .openParen) rest
  | closeParen {rest : Text} : Lexeme [')'] (some .closeParen) rest
  | string {body s rest : Text} : Quotes body s →
      Lexeme ('"' :: (body ++ ['"'])) (some (.string s)) rest
  | atom {a rest : Text} : AtomAt a rest → Lexeme a (some (.atom a)) rest

/-- Going over lexemes from one offset and text leads to another offset and text. -/
inductive Lexes : Nat → Text → List Token → Nat → Text → Prop
  | here (k : Nat) (t : Text) : Lexes k t [] k t
  | past {k k' : Nat} {p rest t' : Text} {kind : Option TokenKind} {ts : List Token} :
      Lexeme p kind rest → Lexes (k + bytes p) rest ts k' t' →
      Lexes k (p ++ rest) ((kind.map fun kind => ⟨kind, k⟩).toList ++ ts) k' t'

/-! ## Every text starts with a lexeme -/

/-- An atom that begins with `read`, if no field name in that has ended it. -/
theorem exists_atom (t read : Text) (hne : read ≠ []) (hread : ∀ c ∈ read, isDelimiter c = false)
    (hfield : ∀ name more, read = name ++ ':' :: more → isFieldName name = true → False)
    (hcomment : ¬ ['/', '/'] <+: read ++ t) :
    ∃ cs rest, t = cs ++ rest ∧ AtomAt (read ++ cs) rest := by
  induction t generalizing read with
  | nil =>
    refine ⟨[], [], rfl, ?_⟩
    rw [List.append_nil] at hcomment ⊢
    exact ⟨hne, hread, hcomment, fun name more heq hname => (hfield name more heq hname).elim,
      .inl (by simp)⟩
  | cons c t ih =>
    by_cases hc : isDelimiter c = true
    · refine ⟨[], c :: t, rfl, ?_⟩
      rw [List.append_nil]
      refine ⟨hne, hread, fun hslashes => hcomment (hslashes.trans (List.prefix_append _ _)),
        fun name more heq hname => (hfield name more heq hname).elim, .inl ?_⟩
      rintro d hd
      obtain rfl : c = d := by simpa using hd
      exact hc
    · have hlonger : ∀ d ∈ read ++ [c], isDelimiter d = false := by
        intro d hd
        rcases List.mem_append.1 hd with hd | hd
        · exact hread d hd
        · rw [List.mem_singleton.1 hd]
          exact Bool.eq_false_iff.2 hc
      -- A field name in the longer text ends it, or was there before.
      have hlast : ∀ name more, read ++ [c] = name ++ ':' :: more → isFieldName name = true →
          more = [] ∧ c = ':' ∧ read = name := by
        intro name more heq hname
        rcases List.eq_nil_or_concat more with rfl | ⟨more, d, rfl⟩
        · obtain ⟨rfl, hc⟩ := List.append_inj' heq rfl
          exact ⟨rfl, by simpa using hc, rfl⟩
        · rw [List.concat_eq_append, ← List.cons_append, ← List.append_assoc] at heq
          exact (hfield name more (List.append_inj' heq rfl).1 hname).elim
      have hlist : read ++ c :: t = read ++ [c] ++ t := by simp
      rw [hlist] at hcomment
      by_cases hcolon : c = ':' ∧ isFieldName read = true
      · obtain ⟨rfl, hname⟩ := hcolon
        refine ⟨[':'], t, rfl, by simp, hlonger,
          fun hslashes => hcomment (hslashes.trans (List.prefix_append _ _)),
          fun name more heq hname => (hlast name more heq hname).1, .inr ?_⟩
        simp [fieldOfAtom?, hname]
      · obtain ⟨cs, rest, rfl, hatom⟩ := ih (read ++ [c]) (by simp) hlonger (by
          intro name more heq hname
          obtain ⟨-, hc, rfl⟩ := hlast name more heq hname
          exact hcolon ⟨hc, hname⟩) hcomment
        exact ⟨c :: cs, rest, rfl, by simpa using hatom⟩

/-- A text starts with a lexeme, or with a string that nothing closes. -/
theorem exists_lexeme (t : Text) (hne : t ≠ []) :
    (∃ p kind rest, t = p ++ rest ∧ p ≠ [] ∧ Lexeme p kind rest) ∨
      ∃ body, t = '"' :: body ∧ closes body = false := by
  obtain ⟨c, t, rfl⟩ := List.exists_cons_of_ne_nil hne
  by_cases hc : isDelimiter c = true
  · simp only [isDelimiter, Bool.or_eq_true, beq_iff_eq] at hc
    rcases hc with ((hspace | rfl) | rfl) | rfl
    · exact .inl ⟨[c], none, t, rfl, by simp, .space hspace⟩
    · exact .inl ⟨['('], some .openParen, t, rfl, by simp, .openParen⟩
    · exact .inl ⟨[')'], some .closeParen, t, rfl, by simp, .closeParen⟩
    · rcases exists_quotes t with ⟨body, s, rest, rfl, hbody⟩ | hopen
      · exact .inl ⟨'"' :: (body ++ ['"']), some (.string s), rest, by simp, by simp,
          .string hbody⟩
      · exact .inr ⟨t, rfl, hopen⟩
  · left
    by_cases hcomment : ['/', '/'] <+: c :: t
    · obtain ⟨more, hmore⟩ := hcomment
      refine ⟨'/' :: '/' :: more.takeWhile (· != '\n'), none, more.dropWhile (· != '\n'), ?_,
        by simp, .comment ?_ ?_⟩
      · simp [← hmore]
      · intro hmem
        simpa using List.mem_takeWhile_imp hmem
      · intro d hd
        have hnot := List.head?_dropWhile_not (· != '\n') more
        rw [hd] at hnot
        simpa using hnot
    -- One character is no field name with a colon behind it, so the atom may go on.
    · have hfirst : ∀ name more, [c] = name ++ ':' :: more → isFieldName name = true → False := by
        intro name more heq hname
        cases name with
        | nil => exact absurd hname (by decide)
        | cons d name => simp at heq
      obtain ⟨cs, rest, rfl, hatom⟩ :=
        exists_atom t [c] (by simp) (by simpa using hc) hfirst hcomment
      exact ⟨c :: cs, some (.atom (c :: cs)), rest, rfl, by simp, .atom hatom⟩

/-! ## Rows of lexemes -/

namespace Lexes

variable {k k' : Nat} {t t' : Text} {ts : List Token}

theorem trans (h : Lexes k t ts k' t') {k'' : Nat} {t'' : Text} {us : List Token}
    (h' : Lexes k' t' us k'' t'') : Lexes k t (ts ++ us) k'' t'' := by
  induction h with
  | here => exact h'
  | past hlexeme _ ih =>
    rw [List.append_assoc]
    exact .past hlexeme (ih h')

/-- The tokens of a row start where their lexemes start. -/
theorem exists_of_mem (h : Lexes k t ts k' t') {token : Token} (htoken : token ∈ ts) :
    ∃ before p rest, Lexes k t before token.offset (p ++ rest) ∧
      Lexeme p (some token.kind) rest := by
  induction h with
  | here => simp at htoken
  | @past k k' p rest t' kind ts hlexeme hrest ih =>
    rcases List.mem_append.1 htoken with hfirst | hlater
    · cases kind with
      | none => simp at hfirst
      | some kind =>
        obtain rfl : token = ⟨kind, k⟩ := by simpa using hfirst
        exact ⟨[], p, rest, .here _ _, hlexeme⟩
    · obtain ⟨before, q, last, hbefore, hq⟩ := ih hlater
      exact ⟨_, q, last, .past hlexeme hbefore, hq⟩

end Lexes

/-- Going over lexemes ends at the end of a text, or at a string that nothing closes. -/
theorem exists_lexes (t : Text) (k : Nat) : ∃ ts k' t', Lexes k t ts k' t' ∧
    (t' = [] ∨ ∃ body, t' = '"' :: body ∧ closes body = false) := by
  induction hn : t.length using Nat.strongRecOn generalizing t k with
  | _ n ih =>
    by_cases hne : t = []
    · exact ⟨[], k, t, .here k t, .inl hne⟩
    · rcases exists_lexeme t hne with ⟨p, kind, rest, rfl, hp, hlexeme⟩ | hopen
      · have hlt : rest.length < n := by
          have := List.length_pos_iff.2 hp
          rw [← hn, List.length_append]
          omega
        obtain ⟨ts, k', t', hlexes, hend⟩ := ih _ hlt rest (k + bytes p) rfl
        exact ⟨_, k', t', .past hlexeme hlexes, hend⟩
      · exact ⟨[], k, t, .here k t, .inr hopen⟩

end DesignFacts.Sexp
