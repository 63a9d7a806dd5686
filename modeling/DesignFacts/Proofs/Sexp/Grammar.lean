import DesignFacts.Proofs.Sexp.Scan
import DesignFacts.Proofs.Sexp.WellFormed

/-!
# The grammar of s-expressions

Which token sequences are items, and which item is each of them? The grammar (`Derives`) says

* an atom that is no field prefix, and a string, are tokens,
* a field prefix before an item puts the item under that field,
* `( atom item* )` is a list with the atom as its kind, even if that ends in a colon.

The reader keeps a stack of open lists instead of following the grammar.

**Completeness.** The reader goes over the tokens of an item and delivers the item, whatever lists
are open and whatever follows (`Derives.read_append`).

**Soundness.** The tokens read so far spell the open lists (`Opened`) and the field prefixes after
them (`Prefixes`). Every step keeps this, so the item that comes out is derived from all tokens read
(`derives_of_read`).

Main result: a text is read as a tree exactly if its tokens derive a list, and otherwise it is
refused at the start of the text or of one of its tokens (`readTree_sexp_iff_derives`).
-/

namespace DesignFacts.Sexp

open Text

namespace Item

/-- The item under the given field, whatever field it had. -/
def under (name : Text) : Item → Item
  | token _ text => token (some name) text
  | list _ kind items => list (some name) kind items

/-- The item under a field that is waiting for it, if there is one. -/
def held : Option Text → Item → Item
  | none, item => item
  | some name, item => item.under name

def isList : Item → Bool
  | token .. => false
  | list .. => true

/-- Of two fields before an item the first one counts. -/
theorem held_under (field : Option Text) (name : Text) (item : Item) :
    (item.under name).held field = item.held (some (field.getD name)) := by
  cases field <;> cases item <;> rfl

theorem held_token (field : Option Text) (text : Text) :
    (token none text).held field = token field text := by
  cases field <;> rfl

theorem held_list (field : Option Text) (kind : Text) (items : List Item) :
    (list none kind items).held field = list field kind items := by
  cases field <;> rfl

end Item

/-! ## The grammar -/

mutual

/-- A token sequence spells an item. -/
inductive Derives : List Token → Item → Prop
  | atom {a : Text} {k : Nat} : fieldOfAtom? a = none → Derives [⟨.atom a, k⟩] (.token none a)
  | string {s : Text} {k : Nat} : Derives [⟨.string s, k⟩] (.token none s)
  | field {a name : Text} {k : Nat} {ts : List Token} {item : Item} :
      fieldOfAtom? a = some name → Derives ts item → Derives (⟨.atom a, k⟩ :: ts) (item.under name)
  | list {kind : Text} {k₁ k₂ k₃ : Nat} {ts : List Token} {items : List Item} :
      DerivesAll ts items →
      Derives (⟨.openParen, k₁⟩ :: ⟨.atom kind, k₂⟩ :: (ts ++ [⟨.closeParen, k₃⟩]))
        (.list none kind items)

/-- A token sequence spells a row of items. -/
inductive DerivesAll : List Token → List Item → Prop
  | nil : DerivesAll [] []
  | cons {ts us : List Token} {item : Item} {items : List Item} :
      Derives ts item → DerivesAll us items → DerivesAll (ts ++ us) (item :: items)

end

theorem DerivesAll.concat {ts us : List Token} {item : Item} :
    ∀ {items : List Item}, DerivesAll ts items → Derives us item →
      DerivesAll (ts ++ us) (items ++ [item])
  | _, .nil, h => by simpa using DerivesAll.cons h .nil
  | _, .cons hfirst hrest, h => by
    rw [List.append_assoc]
    exact .cons hfirst (hrest.concat h)

/-! ## Completeness -/

/-- Go on reading after a complete item. -/
def resume (last : Nat) (item : Item) (stack : List Frame) (rest : List Token) :
    Except Error (Item × List Token) :=
  match deliver item stack with
  | some stack => read last stack none rest
  | none => .ok (item, rest)

mutual

/-- The reader goes over the tokens of an item and delivers the item. -/
theorem Derives.read_append (last : Nat) : ∀ {ts : List Token} {item : Item}, Derives ts item →
    ∀ (stack : List Frame) (field : Option Text) (rest : List Token),
      read last stack field (ts ++ rest) = resume last (item.held field) stack rest
  | _, _, .atom (a := a) h, stack, field, rest => by
    rw [Item.held_token, List.singleton_append, read, h]
    rfl
  | _, _, .string (s := s), stack, field, rest => by
    rw [Item.held_token, List.singleton_append, read]
    rfl
  | _, _, @Derives.field _ name _ _ _ ha h, stack, field, rest => by
    rw [Item.held_under, List.cons_append, read, ha]
    exact h.read_append last stack (some (field.getD name)) rest
  | _, _, @Derives.list kind _ _ _ _ items h, stack, field, rest => by
    have hclose : Frame.close ⟨field, kind, items.reverse ++ []⟩ = .list field kind items := by
      simp [Frame.close]
    rw [Item.held_list, List.cons_append, List.cons_append, List.append_assoc, read,
      h.read_append last ⟨field, kind, []⟩ stack, List.singleton_append, read, hclose]
    rfl

/-- The reader goes over the tokens of a row of items and puts them into the open list. -/
theorem DerivesAll.read_append (last : Nat) : ∀ {ts : List Token} {items : List Item},
    DerivesAll ts items → ∀ (frame : Frame) (stack : List Frame) (rest : List Token),
      read last (frame :: stack) none (ts ++ rest) =
        read last ({ frame with items := items.reverse ++ frame.items } :: stack) none rest
  | _, _, .nil, frame, stack, rest => rfl
  | _, _, @DerivesAll.cons _ _ item _ hfirst hrest, frame, stack, rest => by
    rw [List.append_assoc, hfirst.read_append last (frame :: stack) none]
    simp only [resume, deliver, Item.held]
    rw [hrest.read_append last { frame with items := item :: frame.items }]
    simp

end

/-! ## Soundness -/

/-- Field prefixes before an item, and the field that counts. -/
inductive Prefixes : List Token → Option Text → Prop
  | nil : Prefixes [] none
  | cons {a name : Text} {k : Nat} {ts : List Token} {field : Option Text} :
      fieldOfAtom? a = some name → Prefixes ts field → Prefixes (⟨.atom a, k⟩ :: ts) (some name)

theorem Prefixes.concat {ts : List Token} {field : Option Text} (h : Prefixes ts field)
    {a name : Text} (ha : fieldOfAtom? a = some name) (k : Nat) :
    Prefixes (ts ++ [⟨.atom a, k⟩]) (some (field.getD name)) := by
  induction h with
  | nil => exact .cons ha .nil
  | cons hb _ ih => exact .cons hb ih

theorem Prefixes.derives {fs : List Token} {field : Option Text} (h : Prefixes fs field)
    {ts : List Token} {item : Item} (hitem : Derives ts item) :
    Derives (fs ++ ts) (item.held field) := by
  induction h with
  | nil => exact hitem
  | @cons a name k fs field ha _ ih =>
    have hunder : item.held (some name) = (item.held field).under name := by
      cases field <;> cases item <;> rfl
    rw [hunder]
    exact .field ha ih

/-- The tokens that have opened the lists on a stack, with the items in them so far. -/
inductive Opened : List Token → List Frame → Prop
  | nil : Opened [] []
  | cons {pre fs ts : List Token} {frame : Frame} {outer : List Frame} {k₁ k₂ : Nat} :
      Opened pre outer → Prefixes fs frame.field → DerivesAll ts frame.items.reverse →
      Opened (pre ++ fs ++ ⟨.openParen, k₁⟩ :: ⟨.atom frame.kind, k₂⟩ :: ts) (frame :: outer)

namespace Opened

variable {pre fs ts : List Token} {stack : List Frame} {field : Option Text} {item : Item}

/-- A complete item joins the innermost open list. -/
theorem deliver_some {stack' : List Frame} (hstack : Opened pre stack) (hfield : Prefixes fs field)
    (hitem : Derives ts item) (h : deliver (item.held field) stack = some stack') :
    Opened (pre ++ fs ++ ts) stack' := by
  cases hstack with
  | nil => cases h
  | @cons pre gs us frame outer k₁ k₂ houter hframe hitems =>
    cases h
    have hlonger :=
      @Opened.cons _ _ _ { frame with items := item.held field :: frame.items } _ k₁ k₂ houter
        hframe (by simpa using hitems.concat (hfield.derives hitem))
    simpa using hlonger

/-- Outside all lists a complete item is all that was read. -/
theorem deliver_none (hstack : Opened pre stack) (hfield : Prefixes fs field)
    (hitem : Derives ts item) (h : deliver (item.held field) stack = none) :
    Derives (pre ++ fs ++ ts) (item.held field) := by
  cases hstack with
  | nil => exact hfield.derives hitem
  | cons => cases h

/-- Closing the innermost list completes it. -/
theorem close {frame : Frame} {outer : List Frame} (hstack : Opened pre (frame :: outer))
    (k : Nat) :
    ∃ pre' fs ts, pre ++ [⟨.closeParen, k⟩] = pre' ++ fs ++ ts ∧ Opened pre' outer ∧
      Prefixes fs frame.field ∧ Derives ts (.list none frame.kind frame.items.reverse) := by
  cases hstack with
  | @cons pre gs us _ _ k₁ k₂ houter hframe hitems =>
    exact ⟨pre, gs, _, by simp, houter, hframe, @Derives.list _ k₁ k₂ k _ _ hitems⟩

end Opened

/-- The item that is read is derived from the tokens of the open lists and the tokens read. -/
theorem derives_of_read {last : Nat} {pre fs tokens rest : List Token} {stack : List Frame}
    {field : Option Text} {item : Item} (hstack : Opened pre stack) (hfield : Prefixes fs field)
    (h : read last stack field tokens = .ok (item, rest)) :
    ∃ used, tokens = used ++ rest ∧ Derives (pre ++ fs ++ used) item := by
  -- The induction follows the reader. What it keeps is that the open lists are derived from the
  -- tokens before, so that an item in them is derived as soon as it is delivered.
  induction stack, field, tokens using read.induct generalizing pre fs with
  | case1 => cases h
  | case2 => cases h
  | case3 stack field k₁ kind k₂ tokens ih =>
    have hopened := @Opened.cons _ _ _ ⟨field, kind, []⟩ _ k₁ k₂ hstack hfield .nil
    obtain ⟨used, rfl, hused⟩ := ih hopened .nil (by rwa [read] at h)
    exact ⟨_ :: _ :: used, rfl, by simpa using hused⟩
  | case4 stack field k t tokens hkind =>
    rw [read] at h
    · cases h
    · exact hkind
  | case5 k tokens frame outer stack' hdeliver ih =>
    -- A list is finished inside another one, and reading goes on there.
    cases hfield
    obtain ⟨pre', fs, ts, hpre, houter, hframe, hlist⟩ := hstack.close k
    rw [read, hdeliver] at h
    rw [Frame.close, ← Item.held_list] at hdeliver
    obtain ⟨used, rfl, hused⟩ := ih (houter.deliver_some hframe hlist hdeliver) .nil h
    refine ⟨⟨.closeParen, k⟩ :: used, rfl, ?_⟩
    rw [← hpre] at hused
    simpa using hused
  | case6 k tokens frame outer hdeliver =>
    -- The outermost list is finished, and reading ends.
    cases hfield
    obtain ⟨pre', fs, ts, hpre, houter, hframe, hlist⟩ := hstack.close k
    rw [read, hdeliver] at h
    cases h
    rw [Frame.close, ← Item.held_list] at hdeliver ⊢
    refine ⟨[⟨.closeParen, k⟩], rfl, ?_⟩
    rw [List.append_nil, hpre]
    exact houter.deliver_none hframe hlist hdeliver
  | case7 stack field k tokens hopen =>
    rw [read] at h
    · cases h
    · exact hopen
  | case8 stack field a k tokens name ha ih =>
    rw [read, ha] at h
    obtain ⟨used, rfl, hused⟩ := ih hstack (hfield.concat ha k) h
    exact ⟨_ :: used, rfl, by simpa using hused⟩
  | case9 stack field a k tokens ha stack' hdeliver ih =>
    rw [read, ha] at h
    simp only [hdeliver] at h
    rw [← Item.held_token] at hdeliver
    obtain ⟨used, rfl, hused⟩ := ih (hstack.deliver_some hfield (.atom (k := k) ha) hdeliver) .nil h
    exact ⟨_ :: used, rfl, by simpa using hused⟩
  | case10 stack field a k tokens ha hdeliver =>
    rw [read, ha] at h
    simp only [hdeliver] at h
    cases h
    rw [← Item.held_token] at hdeliver ⊢
    exact ⟨[_], rfl, hstack.deliver_none hfield (.atom (k := k) ha) hdeliver⟩
  | case11 stack field s k tokens stack' hdeliver ih =>
    rw [read, hdeliver] at h
    rw [← Item.held_token] at hdeliver
    obtain ⟨used, rfl, hused⟩ := ih (hstack.deliver_some hfield (.string (k := k)) hdeliver) .nil h
    exact ⟨_ :: used, rfl, by simpa using hused⟩
  | case12 stack field s k tokens hdeliver =>
    rw [read, hdeliver] at h
    cases h
    rw [← Item.held_token] at hdeliver ⊢
    exact ⟨[_], rfl, hstack.deliver_none hfield (.string (k := k)) hdeliver⟩

/-- The first item is read, with some tokens left, exactly if the tokens before those derive it. -/
theorem readFirst_eq_ok_iff {tokens rest : List Token} {item : Item} :
    readFirst tokens = .ok (item, rest) ↔ ∃ used, tokens = used ++ rest ∧ Derives used item := by
  constructor
  · intro h
    simpa using derives_of_read .nil .nil h
  · rintro ⟨used, rfl, hused⟩
    exact hused.read_append _ [] none rest

/-- A token sequence is read as an item exactly if it derives that and it is a list. -/
theorem readItem_eq_ok_iff {tokens : List Token} {item : Item} :
    readItem tokens = .ok item ↔ Derives tokens item ∧ item.isList = true := by
  have hwhole : readFirst tokens = .ok (item, []) ↔ Derives tokens item := by
    simp [readFirst_eq_ok_iff]
  rw [← hwhole, readItem]
  constructor
  · intro h
    cases hfirst : readFirst tokens with
    | error e =>
      rw [hfirst] at h
      cases h
    | ok first =>
      rw [hfirst] at h
      obtain ⟨_ | _, _ | _⟩ := first <;> cases h
      exact ⟨rfl, rfl⟩
  · rintro ⟨hfirst, hlist⟩
    rw [hfirst]
    cases item with
    | token => cases hlist
    | list => rfl

/-! ## Errors -/

/-- An error is reported at the offset for an early end or at a token. -/
theorem offset_of_read_error {last : Nat} {stack : List Frame} {field : Option Text}
    {tokens : List Token} {e : Error} (h : read last stack field tokens = .error e) :
    e.offset = last ∨ ∃ t ∈ tokens, t.offset = e.offset := by
  have hlater {t : Token} {ts : List Token} (ih : e.offset = last ∨ ∃ t ∈ ts, t.offset = e.offset) :
      e.offset = last ∨ ∃ u ∈ t :: ts, u.offset = e.offset :=
    ih.imp_right fun ⟨u, hu, he⟩ => ⟨u, List.mem_cons_of_mem t hu, he⟩
  fun_induction read last stack field tokens with
  | case1 | case2 =>
    cases h
    exact .inl rfl
  | case3 stack field k₁ kind k₂ tokens ih => exact hlater (hlater (ih h))
  | case4 stack field k t tokens hkind =>
    cases h
    exact .inr ⟨t, by simp, rfl⟩
  | case5 k tokens frame outer stack' hdeliver ih => exact hlater (ih h)
  | case7 stack field k tokens hopen =>
    cases h
    exact .inr ⟨_, List.mem_cons_self, rfl⟩
  | case8 stack field a k tokens name ha ih => exact hlater (ih h)
  | case9 stack field a k tokens ha stack' hdeliver ih => exact hlater (ih h)
  | case11 stack field s k tokens stack' hdeliver ih => exact hlater (ih h)
  | case6 | case10 | case12 => cases h

/-- Errors of the whole sequence are reported at 0 or at a token. -/
theorem offset_of_readItem_error {tokens : List Token} {e : Error}
    (h : readItem tokens = .error e) : e.offset = 0 ∨ ∃ t ∈ tokens, t.offset = e.offset := by
  rw [readItem] at h
  cases hfirst : readFirst tokens with
  | error e' =>
    rw [hfirst] at h
    cases h
    rcases offset_of_read_error hfirst with hlast | hmem
    -- A sequence that ends too early is reported at its last token, and at 0 if it has none.
    · cases hend : tokens.getLast? with
      | none =>
        left
        simpa [hend] using hlast
      | some t =>
        right
        refine ⟨t, List.mem_of_getLast? hend, ?_⟩
        simpa [hend] using hlast.symm
    · exact .inr hmem
  | ok first =>
    rw [hfirst] at h
    obtain ⟨item, rest⟩ := first
    obtain ⟨used, rfl, -⟩ := readFirst_eq_ok_iff.1 hfirst
    cases rest with
    | cons t rest =>
      cases h
      exact .inr ⟨t, by simp, rfl⟩
    | nil =>
      cases item with
      | token =>
        cases h
        exact .inl rfl
      | list => cases h

/-- A token, or a string that nothing closes, starts at a byte offset of a text. -/
def StartsAt (text : Text) (k : Nat) : Prop :=
  ∃ before ahead, Lexes 0 text before k ahead ∧
    ((∃ p kind rest, ahead = p ++ rest ∧ Lexeme p (some kind) rest) ∨
      ∃ body, ahead = '"' :: body ∧ closes body = false)

theorem startsAt_of_error {text : Text} {e : Error}
    (h : (tokenize text >>= readItem) = .error e) : e.offset = 0 ∨ StartsAt text e.offset := by
  cases htokens : tokenize text with
  | error e' =>
    rw [htokens] at h
    cases h
    obtain ⟨before, body, hlexes, hopen⟩ := tokenize_eq_error htokens
    exact .inr ⟨before, _, hlexes, .inr ⟨body, rfl, hopen⟩⟩
  | ok tokens =>
    rw [htokens] at h
    obtain ⟨k, hlexes⟩ := tokenize_eq_ok_iff.1 htokens
    refine (offset_of_readItem_error h).imp_right fun ⟨t, ht, he⟩ => ?_
    obtain ⟨before, p, rest, hbefore, hp⟩ := hlexes.exists_of_mem ht
    exact ⟨before, p ++ rest, he ▸ hbefore, .inl ⟨p, t.kind, rest, rfl, hp⟩⟩

/-- **The reader accepts exactly the grammar.** A text is read as a tree if and only if it has
tokens that derive a list. Otherwise the error is one of the s-expression form, at offset 0 or where
a token or an unclosed string of the text starts. -/
theorem readTree_sexp_iff_derives (text : Text) :
    ((∃ tree, TreeFormat.sexp.readTree text = .ok tree) ↔
      ∃ tokens item, tokenize text = .ok tokens ∧ Derives tokens item ∧ item.isList = true) ∧
    ∀ err, TreeFormat.sexp.readTree text = .error err →
      ∃ e, err = .sexp e ∧ (e.offset = 0 ∨ StartsAt text e.offset) := by
  have hitems (item : Item) : (tokenize text >>= readItem) = .ok item ↔
      ∃ tokens, tokenize text = .ok tokens ∧ Derives tokens item ∧ item.isList = true := by
    cases tokenize text with
    | error e => simp [bind, Except.bind]
    | ok tokens => simpa [bind, Except.bind] using readItem_eq_ok_iff
  cases hread : tokenize text >>= readItem with
  | error e =>
    have herror : TreeFormat.sexp.readTree text = .error (.sexp e) := by
      rw [readTree_sexp_eq, hread]
      rfl
    rw [herror]
    refine ⟨⟨?_, ?_⟩, ?_⟩
    · rintro ⟨tree, htree⟩
      cases htree
    · rintro ⟨tokens, item, hderives⟩
      rw [(hitems item).2 ⟨tokens, hderives⟩] at hread
      cases hread
    · rintro err herr
      cases herr
      exact ⟨e, rfl, startsAt_of_error hread⟩
  | ok item =>
    obtain ⟨tree, -, htree⟩ := readTree_sexp_of_item hread
    obtain ⟨tokens, hderives⟩ := (hitems item).1 hread
    rw [htree]
    refine ⟨⟨fun _ => ⟨tokens, item, hderives⟩, fun _ => ⟨tree, rfl⟩⟩, ?_⟩
    rintro err herr
    cases herr

end DesignFacts.Sexp
