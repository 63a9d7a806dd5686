import DesignFacts.Proofs.Sexp.Lexeme
import DesignFacts.Proofs.Text.Encoding

/-!
# The scanner reads the lexical grammar

The scanner goes over the bytes of a text and takes slices of it, which fail where they cut a
character. This file shows that it reads lexeme after lexeme, and that no slice fails on the way.

**Offsets.** At the offset of a first piece of the text the scanner sees the first byte of the
character there. All its tests ask for ASCII characters, so each of them answers for the character
(`Text.byteIs_eq`), and also for all bytes inside a longer character.

**Loops.** Going to the end of a line, through a string and through an atom, the scanner comes to
the end of the lexeme (`lineEnd_ofText`, `readString_ofText`, `atomEnd_ofText`). The ends of the
slices that it takes are offsets of first pieces again.

**One lexeme at a time.** From the offset of a lexeme the scanner comes to the offset behind it with
its token read (`scan_lexeme`).

Main results: the tokens of a text are those of the row of its lexemes (`tokenize_eq_ok_iff`), and a
text without tokens has a string that nothing closes where its row ends (`tokenize_eq_error`).
-/

namespace DesignFacts.Sexp

open Text

variable {t pre post rest : Text} {c : Char} {p : Char → Bool} {i : Nat}

/-! ## Offsets -/

theorem asciiOnly_isSpace : AsciiOnly isSpace := by
  intro c h
  simp only [isSpace, Bool.or_eq_true, beq_iff_eq] at h
  rcases h with ((rfl | rfl) | rfl) | rfl <;> decide

theorem asciiOnly_isDelimiter : AsciiOnly isDelimiter := by
  intro c h
  simp only [isDelimiter, Bool.or_eq_true, beq_iff_eq] at h
  rcases h with ((h | rfl) | rfl) | rfl
  · exact asciiOnly_isSpace c h
  all_goals decide

namespace Input

@[simp] theorem size_ofText (t : Text) : (ofText t).octets.size = bytes t := by
  rw [ofText, List.size_toArray, length_textBytes]

theorem byteIs_ofText (p : Char → Bool) (t : Text) (i : Nat) :
    (ofText t).byteIs p i = Text.byteIs p t i := by
  rw [byteIs, Text.byteIs, ofText, List.getElem?_toArray]

/-- At the offset of a character the scanner sees the character. -/
theorem byteIs_char (hp : AsciiOnly p) (pre : Text) (c : Char) (post : Text) :
    (ofText (pre ++ c :: post)).byteIs p (bytes pre) = p c := by
  rw [byteIs_ofText]
  exact byteIs_eq hp post (Nat.le_refl _) (Nat.lt_add_of_pos_right c.utf8Size_pos)

theorem byteIs_beq {d : Char} (hd : d.toNat < 128) (pre : Text) (c : Char) (post : Text) :
    (ofText (pre ++ c :: post)).byteIs (· == d) (bytes pre) = (c == d) :=
  byteIs_char (asciiOnly_beq hd) pre c post

theorem slice_of_covers {start stop : Nat} {piece : Text} (h : Covers t start stop piece) :
    (ofText t).slice start stop = .ok piece := by
  have hslice : slice? start stop (ofText t).text = some piece := slice?_eq_some_iff.2 h
  rw [slice, hslice]

/-- A slice fails exactly if its ends are not in order or one of them cuts a character. -/
theorem slice_eq_error_iff (t : Text) (start stop : Nat) :
    (∃ e, (ofText t).slice start stop = .error e) ↔
      ¬ (start ≤ stop ∧ IsBoundary t start ∧ IsBoundary t stop) := by
  rw [← slice?_eq_none_iff]
  have htext : (ofText t).text = t := rfl
  unfold slice
  rw [htext]
  cases slice? start stop t <;> simp

theorem charAt?_char (pre : Text) (c : Char) (post : Text) :
    (ofText (pre ++ c :: post)).charAt? (bytes pre) = .ok (some c) := by
  have hcovers : Covers (pre ++ c :: post) (bytes pre) (ofText (pre ++ c :: post)).octets.size
      (c :: post) := ⟨pre, [], by simp, rfl, by simp⟩
  rw [charAt?, slice_of_covers hcovers]
  rfl

theorem lt_size (pre : Text) (c : Char) (post : Text) :
    bytes pre < (ofText (pre ++ c :: post)).octets.size := by
  have hpos := c.utf8Size_pos
  simp only [size_ofText, bytes_append, bytes_cons]
  omega

/-! ## Comments -/

theorem lineEnd_eq {input : Input} {stop : Nat} (hle : i ≤ stop)
    (hline : ∀ j, i ≤ j → j < stop → j < input.octets.size ∧ input.byteIs (· == '\n') j = false)
    (hstop : stop < input.octets.size → input.byteIs (· == '\n') stop = true) :
    input.lineEnd i = stop := by
  induction hn : stop - i generalizing i with
  | zero =>
    obtain rfl : i = stop := by omega
    rw [lineEnd, if_neg]
    intro h
    rw [Bool.and_eq_true, decide_eq_true_iff] at h
    simp [hstop h.1] at h
  | succ n ih =>
    obtain ⟨hsize, hbyte⟩ := hline i (Nat.le_refl i) (by omega)
    rw [lineEnd, if_pos (by simp [hsize, hbyte])]
    exact ih (by omega) (fun j hj hlt => hline j (by omega) hlt) (by omega)

/-- A byte inside a piece of the text belongs to a character of the piece. -/
theorem exists_byteIs_ofText {piece : Text} (hp : AsciiOnly p) (post : Text) (hle : bytes pre ≤ i)
    (hlt : i < bytes pre + bytes piece) :
    i < (ofText (pre ++ (piece ++ post))).octets.size ∧
      ∃ c ∈ piece, (ofText (pre ++ (piece ++ post))).byteIs p i = p c := by
  obtain ⟨before, c, after, rfl, hbefore, hafter⟩ :=
    exists_char_of_lt (t := piece) (i := i - bytes pre) (by omega)
  refine ⟨by simp only [size_ofText, bytes_append] at hlt ⊢; omega, c, by simp, ?_⟩
  have hsplit : pre ++ (before ++ c :: after ++ post) = pre ++ before ++ c :: (after ++ post) := by
    simp
  rw [byteIs_ofText, hsplit]
  exact byteIs_eq hp _ (by rw [bytes_append]; omega) (by rw [bytes_append]; omega)

theorem lineEnd_ofText {body : Text} (hbody : '\n' ∉ body)
    (hrest : ∀ c, rest.head? = some c → c = '\n') :
    (ofText (pre ++ (body ++ rest))).lineEnd (bytes pre) = bytes pre + bytes body := by
  refine lineEnd_eq (Nat.le_add_right _ _) (fun j hle hlt => ?_) fun hstop => ?_
  · obtain ⟨hsize, c, hc, hbyte⟩ :=
      exists_byteIs_ofText (asciiOnly_beq (c := '\n') (by decide)) rest hle hlt
    refine ⟨hsize, hbyte.trans (beq_eq_false_iff_ne.2 ?_)⟩
    rintro rfl
    exact hbody hc
  · cases rest with
    | nil =>
      simp at hstop
    | cons c rest =>
      obtain rfl := hrest c rfl
      rw [← List.append_assoc, ← bytes_append, byteIs_beq (by decide)]
      rfl

/-! ## Strings -/

/-- In a string the scanner sees a character that is no backslash and no quote, and takes it. -/
theorem readString_plain (hquote : c ≠ '"') (hescape : c ≠ '\\') (start : Nat)
    (pre post read : Text) :
    (ofText (pre ++ c :: post)).readString start (bytes pre) read =
      (ofText (pre ++ [c] ++ post)).readString start (bytes (pre ++ [c])) (c :: read) := by
  have hnext : bytes (pre ++ [c]) = bytes pre + c.utf8Size := by simp
  rw [readString, if_pos (lt_size pre c post), byteIs_beq (by decide), byteIs_beq (by decide),
    if_neg (by simp [hescape]), if_neg (by simp [hquote]), charAt?_char, ← List.append_cons, hnext]
  rfl

/-- A backslash in front of a character makes the scanner take that character. -/
theorem readString_escape (start : Nat) (pre : Text) (c : Char) (post read : Text) :
    (ofText (pre ++ '\\' :: c :: post)).readString start (bytes pre) read =
      (ofText (pre ++ ['\\', c] ++ post)).readString start (bytes (pre ++ ['\\', c]))
        (c :: read) := by
  have hnext : bytes (pre ++ ['\\']) = bytes pre + 1 := bytes_append pre ['\\']
  have hbehind : bytes (pre ++ ['\\', c]) = bytes pre + 1 + c.utf8Size := by
    rw [bytes_append, Nat.add_assoc]
    rfl
  have hsplit : pre ++ '\\' :: c :: post = pre ++ ['\\'] ++ c :: post := by simp
  have hmore : bytes pre + 1 < (ofText (pre ++ '\\' :: c :: post)).octets.size := by
    rw [hsplit, ← hnext]
    exact lt_size _ c post
  have hchar : (ofText (pre ++ '\\' :: c :: post)).charAt? (bytes pre + 1) = .ok (some c) := by
    rw [hsplit, ← hnext]
    exact charAt?_char _ c post
  rw [readString, if_pos (lt_size _ _ _), byteIs_beq (by decide), if_pos (by simpa using hmore),
    hchar, List.append_assoc, hbehind]
  rfl

theorem readString_ofText {body s : Text} (h : Quotes body s) (start : Nat) (pre read : Text) :
    (ofText (pre ++ (body ++ '"' :: rest))).readString start (bytes pre) read =
      .ok (read.reverse ++ s, bytes pre + bytes (body ++ ['"'])) := by
  induction h generalizing pre read with
  | nil =>
    rw [List.nil_append, readString, if_pos (lt_size _ _ _), byteIs_beq (by decide),
      byteIs_beq (by decide), if_neg (by simp), if_pos (by simp), List.append_nil]
    rfl
  | @plain c body s hquote hescape _ ih =>
    rw [List.cons_append, readString_plain hquote hescape, ih]
    simp [Nat.add_assoc]
  | @escape c body s _ ih =>
    rw [List.cons_append, List.cons_append, readString_escape, ih]
    simp [Nat.add_assoc]

theorem readString_end (t read : Text) (start : Nat) :
    (ofText t).readString start (bytes t) read = .error ⟨start, .unterminatedString⟩ := by
  rw [readString, if_neg (by simp)]
  rfl

/-- A string that nothing closes is reported where it starts. -/
theorem readString_unclosed {body : Text} (h : closes body = false) (start : Nat)
    (pre read : Text) :
    (ofText (pre ++ body)).readString start (bytes pre) read =
      .error ⟨start, .unterminatedString⟩ := by
  fun_induction closes body generalizing pre read with
  | case1 =>
    rw [List.append_nil]
    exact readString_end pre read start
  | case2 c t ih =>
    rw [readString_escape]
    exact ih h _ _
  | case3 c t hescape ih =>
    obtain ⟨hquote, hopen⟩ : c ≠ '"' ∧ closes t = false := by simpa using h
    by_cases hc : c = '\\'
    · -- A backslash at the very end has no character behind it and is taken as it is.
      subst hc
      obtain rfl : t = [] := by
        cases t with
        | nil => rfl
        | cons d t => exact absurd rfl (hescape d t rfl)
      have hnext : bytes pre + '\\'.utf8Size = bytes (pre ++ ['\\']) := by simp
      have hlast : ¬ bytes pre + 1 < (ofText (pre ++ ['\\'])).octets.size := by
        rw [size_ofText, ← hnext]
        exact Nat.lt_irrefl _
      rw [readString, if_pos (lt_size _ _ _), decide_eq_false hlast, Bool.and_false,
        if_neg Bool.false_ne_true, byteIs_beq (by decide), if_neg (by simp), charAt?_char]
      show (ofText (pre ++ ['\\'])).readString start (bytes pre + '\\'.utf8Size) _ = _
      rw [hnext]
      exact readString_end _ _ start
    · rw [readString_plain hquote hc]
      exact ih hopen _ _

/-! ## Atoms -/

theorem atomEnd_skip {input : Input} {start stop : Nat} (hle : i ≤ stop)
    (hbytes : ∀ j, i ≤ j → j < stop → j < input.octets.size ∧
      input.byteIs isDelimiter j = false ∧ (input.byteIs (· == ':') j && start < j) = false) :
    input.atomEnd start i = input.atomEnd start stop := by
  induction hn : stop - i generalizing i with
  | zero =>
    obtain rfl : i = stop := by omega
    rfl
  | succ n ih =>
    obtain ⟨hsize, hdelimiter, hcolon⟩ := hbytes i (Nat.le_refl i) (by omega)
    rw [atomEnd, if_pos hsize, if_neg (by simp [hdelimiter]), if_neg (by simp [hcolon])]
    exact ih (by omega) (fun j hj hlt => hbytes j (by omega) hlt) (by omega)

/-- At a colon behind the start of an atom the scanner asks whether a field name ends there. -/
theorem atomEnd_colon (pre post : Text) {read : Text} (hne : read ≠ []) :
    (ofText (pre ++ (read ++ ':' :: post))).atomEnd (bytes pre) (bytes (pre ++ read)) =
      if isFieldName read then .ok (bytes (pre ++ (read ++ [':'])))
      else (ofText (pre ++ (read ++ ':' :: post))).atomEnd (bytes pre)
        (bytes (pre ++ (read ++ [':']))) := by
  have hnext : bytes (pre ++ (read ++ [':'])) = bytes (pre ++ read) + 1 := by
    rw [← List.append_assoc, bytes_append]
    rfl
  have hstart : bytes pre < bytes (pre ++ read) := by
    have hpos := Nat.pos_of_ne_zero (mt bytes_eq_zero_iff.1 hne)
    rw [bytes_append]
    omega
  have hslice : (ofText (pre ++ (read ++ ':' :: post))).slice (bytes pre) (bytes (pre ++ read)) =
      .ok read := slice_of_covers ⟨pre, ':' :: post, by simp, rfl, by simp⟩
  have hsize := lt_size (pre ++ read) ':' post
  have hbyte := byteIs_char asciiOnly_isDelimiter (pre ++ read) ':' post
  have hcolon := byteIs_beq (d := ':') (by decide) (pre ++ read) ':' post
  rw [List.append_assoc] at hsize hbyte hcolon
  rw [atomEnd, if_pos hsize, hbyte, if_neg (by decide), hcolon, if_pos (by simpa using hstart),
    hslice, hnext]
  rfl

/-- The scanner goes on in an atom past a character that ends no field name. -/
theorem atomEnd_char (pre read post : Text) (hdelimiter : isDelimiter c = false)
    (hname : c = ':' → isFieldName read = false) :
    (ofText (pre ++ (read ++ c :: post))).atomEnd (bytes pre) (bytes (pre ++ read)) =
      (ofText (pre ++ (read ++ c :: post))).atomEnd (bytes pre) (bytes (pre ++ (read ++ [c]))) := by
  by_cases hcolon : c = ':' ∧ read ≠ []
  · obtain ⟨rfl, hne⟩ := hcolon
    rw [atomEnd_colon pre post hne, hname rfl, if_neg (by simp)]
  · -- None of the bytes of the character is a delimiter or a colon behind the start.
    have hsplit : pre ++ (read ++ c :: post) = pre ++ read ++ ([c] ++ post) := by simp
    have hnext : bytes (pre ++ (read ++ [c])) = bytes (pre ++ read) + bytes [c] := by
      rw [← List.append_assoc, bytes_append]
    refine atomEnd_skip (by rw [hnext]; omega) fun j hle hlt => ?_
    rw [hnext] at hlt
    rw [hsplit]
    obtain ⟨hsize, d, hd, hbyte⟩ := exists_byteIs_ofText asciiOnly_isDelimiter post hle hlt
    obtain ⟨-, e, he, hat⟩ :=
      exists_byteIs_ofText (p := (· == ':')) (asciiOnly_beq (by decide)) post hle hlt
    obtain rfl := List.mem_singleton.1 hd
    obtain rfl := List.mem_singleton.1 he
    refine ⟨hsize, hbyte.trans hdelimiter, ?_⟩
    rw [hat, Bool.and_eq_false_iff, beq_eq_false_iff_ne, decide_eq_false_iff_not]
    refine Classical.or_iff_not_imp_left.2 fun he => ?_
    obtain rfl := Classical.not_not.1 he
    obtain rfl : read = [] := by
      by_contra hne
      exact hcolon ⟨rfl, hne⟩
    have hone : bytes [':'] = 1 := rfl
    rw [List.append_nil] at hlt
    omega

/-- The rest `cs` of an atom, of which `read` is read. -/
theorem atomEnd_ofText (pre read cs rest : Text) (hatom : AtomAt (read ++ cs) rest)
    (hread : fieldOfAtom? read = none) :
    (ofText (pre ++ (read ++ (cs ++ rest)))).atomEnd (bytes pre) (bytes (pre ++ read)) =
      .ok (bytes (pre ++ (read ++ cs))) := by
  induction cs generalizing read with
  | nil =>
    rw [List.append_nil] at hatom
    rw [List.nil_append, List.append_nil]
    cases rest with
    | nil =>
      rw [List.append_nil, atomEnd, if_neg (by simp)]
      rfl
    | cons c rest =>
      -- The text read is no field, so what ends the atom is a delimiter.
      have hc : isDelimiter c = true := by
        rcases hatom.ends with hends | hfield
        · exact hends c rfl
        · rw [hread] at hfield
          exact absurd hfield (by decide)
      have hsize := lt_size (pre ++ read) c rest
      have hbyte := byteIs_char asciiOnly_isDelimiter (pre ++ read) c rest
      rw [List.append_assoc] at hsize hbyte
      rw [atomEnd, if_pos hsize, if_pos (by rw [hbyte, hc])]
      rfl
  | cons c cs ih =>
    have hc : isDelimiter c = false := hatom.undelimited c (by simp)
    -- A colon ends the atom if it makes a field of what is read, and then nothing more is in it.
    by_cases hcolon : c = ':' ∧ isFieldName read = true
    · obtain ⟨rfl, hname⟩ := hcolon
      obtain rfl : cs = [] := hatom.field_ends read cs rfl hname
      have hne : read ≠ [] := by
        rintro rfl
        exact absurd hname (by decide)
      rw [List.singleton_append, atomEnd_colon pre rest hne, hname, if_pos rfl]
    · have hname : c = ':' → isFieldName read = false := by
        intro hc
        rw [Bool.eq_false_iff]
        exact fun hname => hcolon ⟨hc, hname⟩
      have hlonger : fieldOfAtom? (read ++ [c]) = none := by
        rw [fieldOfAtom?, List.reverse_append, List.reverse_singleton, List.singleton_append]
        split
        · rename_i heq
          obtain ⟨rfl, rfl⟩ := List.cons.inj heq
          rw [List.reverse_reverse]
          exact if_neg (by simp [hname rfl])
        · rfl
      have hatom' : AtomAt (read ++ [c] ++ cs) rest := by simpa using hatom
      have hnext := ih (read ++ [c]) hatom' hlonger
      rw [List.cons_append, atomEnd_char pre read (cs ++ rest) hc hname]
      simpa using hnext

end Input

/-! ## One lexeme at a time -/

/-- What the scanner does at a character outside the tokens. -/
theorem scan_char (ht : t = pre ++ c :: post) (tokens : List Token) :
    scan (.ofText t) (bytes pre) tokens =
      if isSpace c then scan (.ofText t) (bytes pre + 1) tokens
      else if c == '/' && post.head? == some '/' then
        scan (.ofText t) ((Input.ofText t).lineEnd (bytes pre)) tokens
      else if c == '(' then
        scan (.ofText t) (bytes pre + 1) (⟨.openParen, bytes pre⟩ :: tokens)
      else if c == ')' then
        scan (.ofText t) (bytes pre + 1) (⟨.closeParen, bytes pre⟩ :: tokens)
      else if c == '"' then (do
        let (text, next) ← (Input.ofText t).readString (bytes pre) (bytes pre + 1) []
        scan (.ofText t) next (⟨.string text, bytes pre⟩ :: tokens))
      else (do
        let (text, next) ← (Input.ofText t).readAtom (bytes pre)
        scan (.ofText t) next (⟨.atom text, bytes pre⟩ :: tokens)) := by
  subst ht
  -- The byte behind a slash is that of the next character.
  have hslashes :
      (c == '/' && (Input.ofText (pre ++ c :: post)).byteIs (· == '/') (bytes pre + 1)) =
        (c == '/' && post.head? == some '/') := by
    by_cases hc : c = '/'
    · subst hc
      have hnext : bytes pre + 1 = bytes (pre ++ ['/']) := (bytes_append pre ['/']).symm
      rw [List.append_cons, hnext, beq_self_eq_true, Bool.true_and, Bool.true_and]
      cases post with
      | nil =>
        rw [List.append_nil, Input.byteIs_ofText, byteIs_of_le (Nat.le_refl _)]
        rfl
      | cons d post =>
        rw [Input.byteIs_beq (by decide)]
        rfl
    · rw [beq_false_of_ne hc, Bool.false_and, Bool.false_and]
  rw [scan_eq, if_pos (Input.lt_size pre c post), Input.byteIs_char asciiOnly_isSpace,
    Input.byteIs_beq (by decide), hslashes, Input.byteIs_beq (by decide),
    Input.byteIs_beq (by decide), Input.byteIs_beq (by decide)]

/-- Reading a lexeme leads behind it, with its token read. -/
theorem scan_lexeme {q : Text} {kind : Option TokenKind} (h : Lexeme q kind rest)
    (ht : t = pre ++ (q ++ rest)) (tokens : List Token) :
    scan (.ofText t) (bytes pre) tokens =
      scan (.ofText t) (bytes pre + bytes q)
        ((kind.map fun kind => ⟨kind, bytes pre⟩).toList ++ tokens) := by
  cases h with
  | @space c _ hc =>
    rw [scan_char ht, if_pos hc, bytes_cons, utf8Size_eq_one (asciiOnly_isSpace c hc)]
    rfl
  | @comment body _ hbody hrest =>
    have hline : '\n' ∉ '/' :: '/' :: body := by simpa using hbody
    have hend : (Input.ofText t).lineEnd (bytes pre) = bytes pre + bytes ('/' :: '/' :: body) := by
      rw [ht]
      exact Input.lineEnd_ofText hline hrest
    rw [scan_char ht, if_neg (by decide), if_pos (by simp), hend]
    rfl
  | openParen =>
    rw [scan_char ht, if_neg (by decide), if_neg (by simp), if_pos (by decide)]
    rfl
  | closeParen =>
    rw [scan_char ht, if_neg (by decide), if_neg (by simp), if_neg (by decide), if_pos (by decide)]
    rfl
  | @string body s _ hbody =>
    -- The content is read from behind the opening quote.
    have hread : (Input.ofText t).readString (bytes pre) (bytes pre + 1) [] =
        .ok (s, bytes pre + bytes ('"' :: (body ++ ['"']))) := by
      have hsplit : t = pre ++ ['"'] ++ (body ++ '"' :: rest) := by simp [ht]
      have hnext : bytes pre + 1 = bytes (pre ++ ['"']) := (bytes_append pre ['"']).symm
      rw [hsplit, hnext, Input.readString_ofText hbody, bytes_append pre, Nat.add_assoc]
      rfl
    rw [scan_char ht, if_neg (by decide), if_neg (by simp), if_neg (by decide),
      if_neg (by decide), if_pos (by decide), hread]
    rfl
  | atom hatom =>
    obtain ⟨c, cs, rfl⟩ := List.exists_cons_of_ne_nil hatom.ne_nil
    have hread : (Input.ofText t).readAtom (bytes pre) =
        .ok (c :: cs, bytes pre + bytes (c :: cs)) := by
      have hend := Input.atomEnd_ofText pre [] (c :: cs) rest hatom rfl
      have hslice : (Input.ofText t).slice (bytes pre) (bytes pre + bytes (c :: cs)) =
          .ok (c :: cs) := Input.slice_of_covers ⟨pre, rest, by simp [ht], rfl, rfl⟩
      rw [List.append_nil, List.nil_append, List.nil_append, ← ht, bytes_append] at hend
      rw [Input.readAtom, hend]
      show ((Input.ofText t).slice _ _ >>= _) = _
      rw [hslice]
      rfl
    have hc : isDelimiter c = false := hatom.undelimited c List.mem_cons_self
    simp only [isDelimiter, Bool.or_eq_false_iff] at hc
    obtain ⟨⟨⟨hspace, hopen⟩, hclose⟩, hquote⟩ := hc
    -- No comment begins here: an atom has no two slashes in front, and behind an atom that is one
    -- slash stands a delimiter.
    have hslashes : (c == '/' && (cs ++ rest).head? == some '/') = false := by
      rw [Bool.and_eq_false_iff, beq_eq_false_iff_ne, beq_eq_false_iff_ne]
      refine Classical.or_iff_not_imp_left.2 fun hslash hhead => ?_
      obtain rfl := Classical.not_not.1 hslash
      cases cs with
      | cons d cs =>
        obtain rfl : d = '/' := by simpa using hhead
        exact hatom.no_comment ⟨cs, rfl⟩
      | nil =>
        rcases hatom.ends with hends | hfield
        · exact absurd (hends '/' hhead) (by decide)
        · rw [fieldOfAtom?_singleton] at hfield
          exact absurd hfield (by decide)
    rw [List.cons_append] at ht
    rw [scan_char ht, hspace, hslashes, hopen, hclose, hquote, hread]
    rfl

/-- Reading a row of lexemes leads behind it, with its tokens read. -/
theorem Lexes.scan_eq {k k' : Nat} {u t' : Text} {ts : List Token} (h : Lexes k u ts k' t')
    (ht : t = pre ++ u) (hk : bytes pre = k) (tokens : List Token) :
    scan (.ofText t) k tokens = scan (.ofText t) k' (ts.reverse ++ tokens) := by
  induction h generalizing pre tokens with
  | here k u => rfl
  | @past k k' p rest t' kind ts hlexeme _ ih =>
    have hnext : t = pre ++ p ++ rest := by rw [ht, List.append_assoc]
    rw [← hk, scan_lexeme hlexeme ht, hk, ih hnext (by rw [bytes_append, hk])]
    cases kind <;> simp

/-- Behind a row of lexemes stands what is left of the text. -/
theorem Lexes.exists_append {k k' : Nat} {u t' : Text} {ts : List Token}
    (h : Lexes k u ts k' t') : ∃ mid, u = mid ++ t' ∧ k' = k + bytes mid := by
  induction h with
  | here k u => exact ⟨[], rfl, rfl⟩
  | @past k k' p rest t' kind ts _ _ ih =>
    obtain ⟨mid, rfl, rfl⟩ := ih
    exact ⟨p ++ mid, by simp, by simp [Nat.add_assoc]⟩

theorem Lexes.tokenize_eq {k : Nat} {t' : Text} {ts : List Token} (h : Lexes 0 t ts k t') :
    tokenize t = scan (.ofText t) k ts.reverse := by
  rw [tokenize, h.scan_eq (List.nil_append t).symm rfl, List.append_nil]

theorem tokenize_of_lexes {ts : List Token} {k : Nat} (h : Lexes 0 t ts k []) :
    tokenize t = .ok ts := by
  obtain ⟨mid, rfl, rfl⟩ := h.exists_append
  rw [h.tokenize_eq, scan_eq, if_neg (by simp), List.reverse_reverse]

theorem tokenize_of_unclosed {body : Text} {ts : List Token} {k : Nat}
    (h : Lexes 0 t ts k ('"' :: body)) (hopen : closes body = false) :
    tokenize t = .error ⟨k, .unterminatedString⟩ := by
  obtain ⟨mid, rfl, rfl⟩ := h.exists_append
  have hread := Input.readString_unclosed hopen (bytes mid) (mid ++ ['"']) []
  rw [List.append_assoc, List.singleton_append, bytes_append] at hread
  rw [h.tokenize_eq, Nat.zero_add, scan_char rfl, if_neg (by decide), if_neg (by simp),
    if_neg (by decide), if_neg (by decide), if_pos (by decide)]
  exact congrArg (· >>= _) hread

/-- **The tokens of a text are those of its lexemes.** -/
theorem tokenize_eq_ok_iff {t : Text} {ts : List Token} :
    tokenize t = .ok ts ↔ ∃ k, Lexes 0 t ts k [] := by
  constructor
  · intro h
    obtain ⟨us, k, t', hlexes, rfl | ⟨body, rfl, hopen⟩⟩ := exists_lexes t 0
    · rw [tokenize_of_lexes hlexes] at h
      cases h
      exact ⟨k, hlexes⟩
    · rw [tokenize_of_unclosed hlexes hopen] at h
      cases h
  · rintro ⟨k, hlexes⟩
    exact tokenize_of_lexes hlexes

/-- **A text without tokens has a string that nothing closes.** It is reported where it starts. -/
theorem tokenize_eq_error {t : Text} {e : Error} (h : tokenize t = .error e) :
    ∃ ts body, Lexes 0 t ts e.offset ('"' :: body) ∧ closes body = false := by
  obtain ⟨ts, k, t', hlexes, rfl | ⟨body, rfl, hopen⟩⟩ := exists_lexes t 0
  · rw [tokenize_of_lexes hlexes] at h
    cases h
  · rw [tokenize_of_unclosed hlexes hopen] at h
    cases h
    exact ⟨ts, body, hlexes, hopen⟩

end DesignFacts.Sexp
