import DesignFacts.Proofs.Placement.Name
import DesignFacts.Proofs.Sexp.Growth

/-!
# The same item on two pages

An item that is written on two pages grows into nodes that differ in their places only.

**Pages.** What is written next on a page begins with a space, unless its last line is empty
(`Page.isFresh`). Nothing else of the page matters.

**Rows** (`Shifted`). Two rows of nodes are shifted if they fill pieces of text that differ by
blanks at their start, each on its own page, and differ in their places only. Such blanks come from
empty tokens: after one, a page is as fresh as before. Shifted rows can be put one after another,
and lists over them are shifted again.

Main results: `Item.shifted_grow` and `Item.shifted_growAll`.
-/

namespace DesignFacts

open Text

theorem Text.trimStart_append (a b : Text) :
    trimStart (a ++ b) = if (trimStart a).isEmpty then trimStart b else trimStart a ++ b :=
  List.dropWhile_append

/-- Nodes with texts that differ by blanks at their start, and with parts that differ in their
places only. -/
theorem Node.unplaced_eq {n m : Node} (htag : n.tag = m.tag) (hnamed : n.named = m.named)
    (hfield : n.field = m.field)
    (htext : (if n.named then trimStart n.text else n.text) =
      if m.named then trimStart m.text else m.text)
    (hchildren : n.children.map unplaced = m.children.map unplaced) : n.unplaced = m.unplaced := by
  cases n
  cases m
  rw [← unplacedAll_eq_map, ← unplacedAll_eq_map] at hchildren
  simp only [text] at htag hnamed hfield htext hchildren
  rw [unplaced, unplaced, htag, hfield, hchildren, htext, hnamed]

namespace Sexp

/-! ## Pages -/

namespace Page

/-- Whether the last line of the page is empty. -/
def isFresh (p : Page) : Bool := p.text.getLast?.all (· == '\n')

/-- What separates the next token from the text of the page. -/
def gap (p : Page) : Text := if p.isFresh then [] else [' ']

theorem text_space_eq_gap (p : Page) : p.space.text = p.text ++ p.gap := by
  have hlast : p.text.getLast? = p.written.head? := List.getLast?_reverse
  rw [gap, isFresh, hlast, space]
  cases p.written with
  | nil => simp
  | cons c rest =>
    by_cases hc : (c == '\n') = true
    · simp [hc]
    · simp [hc]

theorem trimStart_gap (p : Page) : trimStart p.gap = [] := by
  rw [gap]
  split <;> rfl

/-- Pages on which the same text is written are fresh alike, if they were so before or if there is
any text. -/
theorem isFresh_eq_of_append {p q p' q' : Page} {t : Text} (hp : p'.text = p.text ++ t)
    (hq : q'.text = q.text ++ t) (h : p.isFresh = q.isFresh ∨ t ≠ []) :
    p'.isFresh = q'.isFresh := by
  rw [isFresh, isFresh, hp, hq, List.getLast?_append, List.getLast?_append]
  cases hlast : t.getLast? with
  | none =>
    rcases h with h | h
    · exact h
    · exact absurd (List.getLast?_eq_none_iff.1 hlast) h
  | some c => rfl

theorem isFresh_space (p : Page) : p.space.isFresh = p.isFresh := by
  rw [isFresh, text_space_eq_gap, gap]
  by_cases hp : p.isFresh = true
  · rw [if_pos hp, List.append_nil]
    rfl
  · rw [if_neg hp, List.getLast?_append, Bool.eq_false_iff.2 hp]
    rfl

/-- What a token leaves behind it. -/
def lineEnd (t : Text) : Text := if t == [';'] then ['\n'] else []

theorem text_token_eq (p : Page) (t : Text) :
    (p.token t).text = p.space.text ++ t ++ lineEnd t := by
  rw [token, lineEnd]
  split
  · rw [text_write, text_write]
  · rw [text_write, List.append_nil]

end Page

/-! ## Rows -/

/-- A row of nodes fills a piece of text, from the space after a page on. -/
structure Fills (p p' : Page) (ns : List Node) (piece tail : Text) : Prop where
  text_eq : p'.text = p.space.text ++ piece ++ tail
  start_eq : ns.head?.map Node.start = some p.space.length
  stop_eq : ns.getLast?.map Node.stop = some (p.space.length + bytes piece)

/-- Two pieces of text, each on its own page, differ by blanks at their start. On pages that are
both fresh or both not, they are the same. They are blank if the pages behind them are not fresh
alike. -/
structure SamePiece (p q p' q' : Page) (piece piece' tail : Text) : Prop where
  trimStart_eq : trimStart piece = trimStart piece'
  eq_of_isFresh_eq : p.isFresh = q.isFresh → piece = piece'
  blank_or : p'.isFresh = q'.isFresh ∨ trimStart piece = [] ∧ tail = []

/-- Two rows of nodes fill the same piece of text, up to blanks at its start, and differ in their
places only. -/
structure Shifted (p q p' q' : Page) (ns ms : List Node) : Prop where
  exists_pieces : ∃ piece piece' tail, Fills p p' ns piece tail ∧ Fills q q' ms piece' tail ∧
    SamePiece p q p' q' piece piece' tail
  unplaced_eq : ns.map Node.unplaced = ms.map Node.unplaced

variable {p q p' q' p'' q'' : Page} {source source' : Text} {ns ms ns' ms' : List Node}

theorem Fills.append {piece tail piece' tail' : Text} (h : Fills p p' ns piece tail)
    (h' : Fills p' p'' ns' piece' tail') :
    Fills p p'' (ns ++ ns') (piece ++ tail ++ p'.gap ++ piece') tail' where
  text_eq := by
    rw [h'.text_eq, p'.text_space_eq_gap, h.text_eq]
    simp only [List.append_assoc]
  start_eq := by
    rw [List.head?_append, Option.map_or, h.start_eq, Option.some_or]
  stop_eq := by
    rw [List.getLast?_append, Option.map_or, h'.stop_eq, Option.some_or, ← Page.bytes_text,
      ← Page.bytes_text, p'.text_space_eq_gap, h.text_eq]
    simp only [bytes_append, Nat.add_assoc]

/-- Pages that were fresh alike are so behind the same row. -/
theorem Shifted.isFresh_eq (h : Shifted p q p' q' ns ms) (hfresh : p.isFresh = q.isFresh) :
    p'.isFresh = q'.isFresh := by
  obtain ⟨piece, piece', tail, hns, hms, hsame⟩ := h.exists_pieces
  obtain rfl := hsame.eq_of_isFresh_eq hfresh
  have hp := hns.text_eq
  have hq := hms.text_eq
  rw [List.append_assoc] at hp hq
  apply Page.isFresh_eq_of_append hp hq
  rw [p.isFresh_space, q.isFresh_space]
  exact .inl hfresh

theorem SamePiece.append {piece piece' tail next next' tail' : Text}
    (h : SamePiece p q p' q' piece piece' tail) (h' : SamePiece p' q' p'' q'' next next' tail')
    (hfresh : p.isFresh = q.isFresh → p'.isFresh = q'.isFresh)
    (hfresh' : p'.isFresh = q'.isFresh → p''.isFresh = q''.isFresh) :
    SamePiece p q p'' q'' (piece ++ tail ++ p'.gap ++ next) (piece' ++ tail ++ q'.gap ++ next')
      tail' := by
  -- Behind pages that are fresh alike the same text follows; else there were only blanks so far.
  have hnext (halike : p'.isFresh = q'.isFresh) :
      tail ++ p'.gap ++ next = tail ++ q'.gap ++ next' := by
    rw [h'.eq_of_isFresh_eq halike, Page.gap, Page.gap, halike]
  have hblank (hpiece : trimStart piece = []) (htail : tail = []) :
      trimStart (piece ++ tail ++ p'.gap ++ next) = trimStart next ∧
        trimStart (piece' ++ tail ++ q'.gap ++ next') = trimStart next' := by
    have hpiece' := h.trimStart_eq.symm.trans hpiece
    simp [htail, trimStart_append, hpiece, hpiece', Page.trimStart_gap]
  refine ⟨?_, fun halike => ?_, ?_⟩
  · rcases h.blank_or with halike | ⟨hpiece, htail⟩
    · simp only [List.append_assoc] at hnext ⊢
      rw [hnext halike, trimStart_append piece, trimStart_append piece', h.trimStart_eq]
    · rw [(hblank hpiece htail).1, (hblank hpiece htail).2, h'.trimStart_eq]
  · have hboth := hnext (hfresh halike)
    simp only [List.append_assoc] at hboth ⊢
    rw [h.eq_of_isFresh_eq halike, hboth]
  · by_cases halike : p''.isFresh = q''.isFresh
    · exact .inl halike
    · obtain ⟨hpiece, htail⟩ := h.blank_or.resolve_left (mt hfresh' halike)
      rw [(hblank hpiece htail).1]
      exact h'.blank_or

theorem Shifted.append (h : Shifted p q p' q' ns ms) (h' : Shifted p' q' p'' q'' ns' ms') :
    Shifted p q p'' q'' (ns ++ ns') (ms ++ ms') where
  exists_pieces := by
    obtain ⟨piece, piece', tail, hns, hms, hsame⟩ := h.exists_pieces
    obtain ⟨next, next', tail', hns', hms', hsame'⟩ := h'.exists_pieces
    exact ⟨_, _, _, hns.append hns', hms.append hms',
      hsame.append hsame' h.isFresh_eq h'.isFresh_eq⟩
  unplaced_eq := by rw [List.map_append, List.map_append, h.unplaced_eq, h'.unplaced_eq]

/-- The text of a list over a row is the piece that the row fills. -/
theorem Fills.text_trunk_eq {piece tail : Text} (h : Fills p p' ns piece tail)
    (htext : p'.text <+: source) (kind : Text) (field : Option Text) :
    (trunk source kind field ns).text = piece := by
  obtain ⟨c, hc, hstart⟩ := Option.map_eq_some_iff.1 h.start_eq
  obtain ⟨d, hd, hstop⟩ := Option.map_eq_some_iff.1 h.stop_eq
  obtain ⟨more, hsource⟩ := htext
  rw [h.text_eq, List.append_assoc] at hsource
  rw [← Page.bytes_text] at hstart hstop
  rw [text_trunk hsource hc hd hstart (Nat.le_of_eq hstop.symm), hstop, Nat.sub_self]
  have hnone : takeBytes 0 (tail ++ more) = [] := takeBytes_append [] _
  rw [hnone, List.append_nil]

theorem Fills.trunk {piece tail : Text} (h : Fills p p' ns piece tail) (source kind : Text)
    (field : Option Text) : Fills p p' [trunk source kind field ns] piece tail where
  text_eq := h.text_eq
  start_eq := by simp [Sexp.trunk, h.start_eq]
  stop_eq := by simp [Sexp.trunk, h.stop_eq]

/-- Lists over shifted rows are shifted. -/
theorem Shifted.trunk (h : Shifted p q p' q' ns ms) (htext : p'.text <+: source)
    (htext' : q'.text <+: source') (kind : Text) (field : Option Text) :
    Shifted p q p' q' [trunk source kind field ns] [trunk source' kind field ms] := by
  obtain ⟨piece, piece', tail, hns, hms, hsame⟩ := h.exists_pieces
  refine ⟨⟨piece, piece', tail, hns.trunk .., hms.trunk .., hsame⟩, ?_⟩
  refine congrArg (fun n => [n]) (Node.unplaced_eq rfl rfl rfl ?_ h.unplaced_eq)
  rw [hns.text_trunk_eq htext, hms.text_trunk_eq htext']
  exact hsame.trimStart_eq

/-- Leaves with the same text are shifted. -/
theorem shifted_leaf (t tag : Text) (named : Bool) (field : Option Text)
    (htext : (p.token t).text <+: source) (htext' : (q.token t).text <+: source') :
    Shifted p q (p.token t) (q.token t) [(leaf p tag named field t).link source []]
      [(leaf q tag named field t).link source' []] := by
  have hp := p.text_token_eq t
  have hq := q.text_token_eq t
  refine ⟨⟨t, t, Page.lineEnd t, ⟨hp, rfl, rfl⟩, ⟨hq, rfl, rfl⟩, rfl, fun _ => rfl, ?_⟩, ?_⟩
  · by_cases ht : t = []
    · subst ht
      exact .inr ⟨rfl, rfl⟩
    · rw [List.append_assoc] at hp hq
      exact .inl (Page.isFresh_eq_of_append hp hq (.inr (by simp [ht])))
  · refine congrArg (fun n => [n]) (Node.unplaced_eq rfl rfl rfl ?_ rfl)
    rw [Cell.text_link (covers_leaf p tag named field t htext),
      Cell.text_link (covers_leaf q tag named field t htext')]
    rfl

/-! ## Items -/

namespace Item

mutual

/-- On any two pages, an item grows into shifted nodes. -/
theorem shifted_grow : ∀ (item : Item) (p q : Page),
    (item.write p).text <+: source → (item.write q).text <+: source' →
      Shifted p q (item.write p) (item.write q) [item.grow source p] [item.grow source' q]
  | .token field t, p, q, htext, htext' => by
    rw [write] at htext htext' ⊢
    exact shifted_leaf t t false field htext htext'
  | .list field kind items, p, q, htext, htext' => by
    rw [write] at htext htext' ⊢
    rw [write, grow, grow]
    by_cases hplain : items.all isPlainToken = true
    · rw [if_pos hplain] at htext htext'
      simp only [if_pos hplain]
      exact shifted_leaf _ kind true field htext htext'
    · rw [if_neg hplain] at htext htext'
      simp only [if_neg hplain]
      have hrow := shifted_growAll items p q (ne_nil_of_not_plain hplain) htext htext'
      exact hrow.trunk htext htext' kind field

/-- On any two pages, a row of items grows into shifted rows. -/
theorem shifted_growAll : ∀ (items : List Item) (p q : Page), items ≠ [] →
    (writeAll p items).text <+: source → (writeAll q items).text <+: source' →
      Shifted p q (writeAll p items) (writeAll q items) (growAll source p items)
        (growAll source' q items)
  | [], _, _, hne, _, _ => absurd rfl hne
  | [item], p, q, _, htext, htext' => shifted_grow item p q htext htext'
  | item :: next :: items, p, q, _, htext, htext' => by
    rw [writeAll] at htext htext'
    have hitem := shifted_grow item p q ((text_writeAll _ _).trans htext)
      ((text_writeAll _ _).trans htext')
    exact hitem.append (shifted_growAll (next :: items) (item.write p) (item.write q)
      (List.cons_ne_nil _ _) htext htext')

end

end Item

end Sexp

end DesignFacts
