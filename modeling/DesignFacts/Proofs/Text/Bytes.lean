import DesignFacts.Tree.Arena
import Mathlib.Data.List.Infix

/-!
# Byte offsets and characters

Offsets into a text count bytes, but a text is a list of characters. An offset is a *boundary* if
it is the length of a first piece of the text, so that cutting there cuts no character. The two
functions that cut by bytes are characterized by such pieces, and with them the check that a cell
covers a piece of its source.
-/

namespace DesignFacts

namespace Text

/-- An offset at which no character is cut. -/
def IsBoundary (t : Text) (k : Nat) : Prop := ∃ pre post, t = pre ++ post ∧ bytes pre = k

/-- The piece of a text between two offsets. -/
def Covers (t : Text) (start stop : Nat) (piece : Text) : Prop :=
  ∃ pre post, t = pre ++ piece ++ post ∧ bytes pre = start ∧ bytes pre + bytes piece = stop

theorem IsBoundary.le {t : Text} {k : Nat} (h : IsBoundary t k) : k ≤ bytes t := by
  obtain ⟨pre, post, rfl, rfl⟩ := h
  simp

theorem dropBytes?_zero (t : Text) : dropBytes? 0 t = some t := by
  cases t <;> rfl

theorem dropBytes?_cons (c : Char) (t : Text) {k : Nat} (hk : 0 < k) :
    dropBytes? k (c :: t) = if c.utf8Size ≤ k then dropBytes? (k - c.utf8Size) t else none := by
  cases k with
  | zero => exact absurd hk (Nat.lt_irrefl 0)
  | succ k => rfl

/-- Dropping bytes drops a first piece of that length. -/
theorem dropBytes?_eq_some_iff {t post : Text} {k : Nat} :
    dropBytes? k t = some post ↔ ∃ pre, t = pre ++ post ∧ bytes pre = k := by
  constructor
  · intro h
    induction t generalizing k with
    | nil =>
      cases k with
      | zero => exact ⟨[], by simpa [dropBytes?] using h, rfl⟩
      | succ k => simp [dropBytes?] at h
    | cons c t ih =>
      rcases Nat.eq_zero_or_pos k with rfl | hk
      · rw [dropBytes?_zero] at h
        exact ⟨[], Option.some.inj h, rfl⟩
      · rw [dropBytes?_cons c t hk] at h
        split at h
        · rename_i hc
          obtain ⟨pre, rfl, hpre⟩ := ih h
          exact ⟨c :: pre, rfl, by rw [bytes_cons, hpre]; omega⟩
        · cases h
  · rintro ⟨pre, rfl, rfl⟩
    induction pre with
    | nil => exact dropBytes?_zero _
    | cons c pre ih =>
      have hpos := c.utf8Size_pos
      rw [List.cons_append, dropBytes?_cons c _ (by rw [bytes_cons]; omega), bytes_cons,
        if_pos (Nat.le_add_right _ _), Nat.add_sub_cancel_left, ih]

theorem takeBytes_append (pre post : Text) : takeBytes (bytes pre) (pre ++ post) = pre := by
  induction pre with
  | nil =>
    cases post with
    | nil => rfl
    | cons c post =>
      have hpos := c.utf8Size_pos
      rw [List.nil_append, takeBytes, if_neg (by rw [bytes_nil]; omega)]
  | cons c pre ih =>
    rw [List.cons_append, takeBytes, bytes_cons, if_pos (Nat.le_add_right _ _),
      Nat.add_sub_cancel_left, ih]

theorem takeBytes_bytes_add (pre post : Text) (k : Nat) :
    takeBytes (bytes pre + k) (pre ++ post) = pre ++ takeBytes k post := by
  induction pre with
  | nil => rw [bytes_nil, Nat.zero_add, List.nil_append, List.nil_append]
  | cons c pre ih =>
    rw [List.cons_append, takeBytes, bytes_cons, if_pos (by omega), Nat.add_assoc,
      Nat.add_sub_cancel_left, ih, List.cons_append]

theorem bytes_eq_zero_iff {t : Text} : bytes t = 0 ↔ t = [] := by
  cases t with
  | nil => exact iff_of_true rfl rfl
  | cons c t =>
    have hpos := c.utf8Size_pos
    refine iff_of_false ?_ (List.cons_ne_nil c t)
    rw [bytes_cons]
    omega

/-- Of two first pieces of a text the one with fewer bytes begins the other. -/
theorem exists_append_of_bytes_le {a b a' b' : Text} (h : a ++ b = a' ++ b')
    (hle : bytes a ≤ bytes a') : ∃ mid, a' = a ++ mid ∧ b = mid ++ b' := by
  rcases List.append_eq_append_iff.1 h with ⟨mid, ha', hb⟩ | ⟨mid, ha, hb'⟩
  · exact ⟨mid, ha', hb⟩
  · -- The longer piece has no more bytes, so it has no more characters either.
    have hmid : bytes mid = 0 := by
      rw [ha, bytes_append] at hle
      omega
    rw [bytes_eq_zero_iff.1 hmid] at ha hb'
    exact ⟨[], by simpa using ha.symm, by simpa using hb'.symm⟩

/-- At one offset a text is cut in one way. -/
theorem append_inj_of_bytes_eq {a b a' b' : Text} (h : a ++ b = a' ++ b')
    (heq : bytes a = bytes a') : a = a' ∧ b = b' := by
  obtain ⟨mid, rfl, rfl⟩ := exists_append_of_bytes_le h heq.le
  have hmid : bytes mid = 0 := by
    rw [bytes_append] at heq
    omega
  simp [bytes_eq_zero_iff.1 hmid]

/-- A character that stands before the end of a piece belongs to it. -/
theorem mem_of_bytes_lt {a b a' b' : Text} {c : Char} (h : a ++ b = a' ++ c :: b')
    (hlt : bytes a' < bytes a) : c ∈ a := by
  obtain ⟨mid, rfl, hmid⟩ := exists_append_of_bytes_le h.symm hlt.le
  cases mid with
  | nil =>
    rw [List.append_nil] at hlt
    exact absurd hlt (Nat.lt_irrefl _)
  | cons d mid =>
    obtain ⟨rfl, -⟩ := List.cons.inj hmid
    simp

/-- Between two boundaries in order lies a piece of the text. -/
theorem exists_covers {t : Text} {start stop : Nat} (hstart : IsBoundary t start)
    (hstop : IsBoundary t stop) (hle : start ≤ stop) : ∃ piece, Covers t start stop piece := by
  obtain ⟨pre, post, rfl, rfl⟩ := hstart
  obtain ⟨pre', post', ht, rfl⟩ := hstop
  obtain ⟨mid, rfl, rfl⟩ := exists_append_of_bytes_le ht hle
  exact ⟨mid, pre, post', by simp, rfl, by simp⟩

theorem Covers.le {t piece : Text} {start stop : Nat} (h : Covers t start stop piece) :
    start ≤ stop := by
  obtain ⟨pre, post, -, rfl, rfl⟩ := h
  exact Nat.le_add_right _ _

theorem Covers.start_boundary {t piece : Text} {start stop : Nat} (h : Covers t start stop piece) :
    IsBoundary t start := by
  obtain ⟨pre, post, rfl, hpre, -⟩ := h
  exact ⟨pre, piece ++ post, by simp, hpre⟩

theorem Covers.stop_boundary {t piece : Text} {start stop : Nat} (h : Covers t start stop piece) :
    IsBoundary t stop := by
  obtain ⟨pre, post, rfl, -, hstop⟩ := h
  exact ⟨pre ++ piece, post, rfl, by simpa using hstop⟩

/-- A slice is the piece between its ends, and there is none just if an end cuts a character. -/
theorem slice?_eq_some_iff {t piece : Text} {start stop : Nat} :
    slice? start stop t = some piece ↔ Covers t start stop piece := by
  constructor
  · intro h
    obtain ⟨ahead, hahead, hpiece⟩ := Option.bind_eq_some_iff.1 h
    split at hpiece
    · rename_i hstop
      rw [Bool.and_eq_true, decide_eq_true_iff] at hstop
      obtain ⟨hle, hsome⟩ := hstop
      obtain ⟨post, hpost⟩ := Option.isSome_iff_exists.1 hsome
      obtain ⟨pre, rfl, hpre⟩ := dropBytes?_eq_some_iff.1 hahead
      obtain ⟨mid, rfl, hmid⟩ := dropBytes?_eq_some_iff.1 hpost
      rw [← hmid, takeBytes_append] at hpiece
      cases hpiece
      exact ⟨pre, post, by simp, hpre, by omega⟩
    · cases hpiece
  · rintro ⟨pre, post, rfl, hpre, hstop⟩
    have hahead : dropBytes? start (pre ++ piece ++ post) = some (piece ++ post) :=
      dropBytes?_eq_some_iff.2 ⟨pre, by simp, hpre⟩
    have hlength : stop - start = bytes piece := by omega
    have hpost : dropBytes? (stop - start) (piece ++ post) = some post :=
      dropBytes?_eq_some_iff.2 ⟨piece, rfl, hlength.symm⟩
    have hle : start ≤ stop := by omega
    rw [slice?, hahead]
    show (if (decide (start ≤ stop) && (dropBytes? (stop - start) (piece ++ post)).isSome) = true
      then some (takeBytes (stop - start) (piece ++ post)) else none) = some piece
    rw [hpost, if_pos (by simp [hle]), hlength, takeBytes_append]

theorem slice?_eq_none_iff {t : Text} {start stop : Nat} :
    slice? start stop t = none ↔
      ¬ (start ≤ stop ∧ IsBoundary t start ∧ IsBoundary t stop) := by
  rw [Option.eq_none_iff_forall_ne_some]
  constructor
  · rintro h ⟨hle, hstart, hstop⟩
    obtain ⟨piece, hpiece⟩ := exists_covers hstart hstop hle
    exact h piece (slice?_eq_some_iff.2 hpiece)
  · intro h piece hpiece
    have hcovers := slice?_eq_some_iff.1 hpiece
    exact h ⟨hcovers.le, hcovers.start_boundary, hcovers.stop_boundary⟩

end Text

open Text

/-- A cell fits if its span is in order and cuts no character. -/
theorem Cell.fits_iff {source : Text} {c : Cell} :
    c.fits source = true ↔
      c.start ≤ c.stop ∧ IsBoundary source c.start ∧ IsBoundary source c.stop := by
  constructor
  · intro h
    rw [Cell.fits, Bool.and_eq_true, decide_eq_true_iff] at h
    obtain ⟨hle, h⟩ := h
    split at h
    · rename_i ahead hahead
      obtain ⟨pre, rfl, hpre⟩ := dropBytes?_eq_some_iff.1 hahead
      obtain ⟨post, hpost⟩ := Option.isSome_iff_exists.1 h
      obtain ⟨mid, rfl, hmid⟩ := dropBytes?_eq_some_iff.1 hpost
      refine ⟨hle, ⟨pre, mid ++ post, rfl, hpre⟩, pre ++ mid, post, by simp, ?_⟩
      rw [bytes_append]
      omega
    · cases h
  · rintro ⟨hle, hstart, hstop⟩
    obtain ⟨piece, pre, post, rfl, hpre, hpiece⟩ := exists_covers hstart hstop hle
    have hahead : dropBytes? c.start (pre ++ piece ++ post) = some (piece ++ post) :=
      dropBytes?_eq_some_iff.2 ⟨pre, by simp, hpre⟩
    have hpost : dropBytes? (c.stop - c.start) (piece ++ post) = some post :=
      dropBytes?_eq_some_iff.2 ⟨piece, rfl, by omega⟩
    rw [Cell.fits, Bool.and_eq_true, decide_eq_true_iff, hahead]
    exact ⟨hle, Option.isSome_iff_exists.2 ⟨post, hpost⟩⟩

/-- The text of a linked cell is the piece of the source that it covers. -/
theorem Cell.text_link {source piece : Text} {c : Cell} (h : Covers source c.start c.stop piece)
    (parts : List Node) : (c.link source parts).text = piece := by
  obtain ⟨pre, post, rfl, hpre, hpiece⟩ := h
  have hahead : dropBytes? c.start (pre ++ piece ++ post) = some (piece ++ post) :=
    dropBytes?_eq_some_iff.2 ⟨pre, by simp, hpre⟩
  have hlength : c.stop - c.start = bytes piece := by omega
  show takeBytes (c.stop - c.start) ((dropBytes? c.start (pre ++ piece ++ post)).getD []) = piece
  rw [hahead, hlength]
  exact takeBytes_append piece post

end DesignFacts
