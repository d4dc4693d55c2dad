import Mathlib.Algebra.BigOperators.Group.List.Basic
import Mathlib.Algebra.GroupWithZero.Nat
import ScriptLint.Proofs.LineOffsets

/-!
# Line tables

A line table has the lines of its text (`lines_ofText_agree`): as many, with the same characters, each starting
behind the lines above it and their line feeds.  A line that the text does not have is empty for the table and has
no text.

Its two conversions undo each other (`conversions_inverse_monotone`).  The positions of a text are those on one of
its lines and not behind the end of that line; between them and the offsets up to the end of the text the
conversions are inverse bijections, and both keep the order.  This rests on two facts: every offset lies on one
line, where the line feed counts as the last column (`Text.exists_line_of_offset`), and the table finds that line
by counting the lines that start no later (`positionAt_of_line`).
-/

namespace ScriptLint

namespace Text

private theorem lineOffset_mono (lines : List Text) {i j : Nat} (h : i ≤ j) :
    lineOffset lines i ≤ lineOffset lines j := by
  induction lines generalizing i j with
  | nil =>
    cases i with
    | zero => rw [lineOffset_zero]; omega
    | succ i => exact Nat.zero_le _
  | cons t rest ih =>
    cases i with
    | zero => rw [lineOffset_zero]; omega
    | succ i =>
      cases j with
      | zero => omega
      | succ j =>
        have hrest := ih (i := i) (j := j) (by omega)
        rw [lineOffset_cons_succ, lineOffset_cons_succ]
        omega

/-- A line ends before any line below it starts. -/
theorem lineOffset_lt {lines : List Text} {i j : Nat} {line : Text} (hline : lines[i]? = some line) (hij : i < j) :
    lineOffset lines i + line.length < lineOffset lines j := by
  have hsucc := lineOffset_succ hline
  have hmono := lineOffset_mono lines (i := i + 1) (j := j) hij
  omega

private theorem lineOffset_eq_sum (lines : List Text) (i : Nat) :
    lineOffset lines i = ((lines.take i).map fun line => line.length + 1).sum := by
  induction lines generalizing i with
  | nil => cases i <;> rfl
  | cons t rest ih =>
    cases i with
    | zero => rfl
    | succ i => rw [lineOffset_cons_succ, ih, List.take_succ_cons, List.map_cons, List.sum_cons]

theorem exists_line_of_offset (t : Text) {o : Nat} (h : o ≤ t.length) :
    ∃ (i : Nat) (line : Text) (column : Nat), t.lines[i]? = some line ∧ column ≤ line.length ∧
      lineOffset t.lines i + column = o := by
  induction t using lineInduction generalizing o with
  | last t ht => exact ⟨0, t, o, by rw [lines_of_no_newline ht]; rfl, h, by simp⟩
  | more first rest hfirst ih =>
    rw [lines_cons hfirst]
    by_cases hin : o ≤ first.length
    · exact ⟨0, first, o, rfl, hin, by simp⟩
    · simp only [List.length_append, List.length_cons] at h
      obtain ⟨i, line, column, hline, hcolumn, hsum⟩ := ih (o := o - (first.length + 1)) (by omega)
      refine ⟨i + 1, line, column, hline, hcolumn, ?_⟩
      rw [lineOffset_cons_succ]
      omega

end Text

namespace LineTable

open Text (lineOffset lineOffset_lt lineOffset_mono)

variable {t : Text}

/-! ### Lines -/

/-- The table and the text agree on the lines: their number, their texts and lengths, where they start, and how
many characters they have in all. -/
theorem lines_ofText_agree (t : Text) :
    (ofText t).lineCount = t.lines.length ∧
    (∀ i line, t.lines[i]? = some line →
      (ofText t).lineText? i = some line ∧ (ofText t).lineLength i = line.length ∧
      (ofText t).offsetOf ⟨i, 0⟩ = ((t.lines.take i).map fun above => above.length + 1).sum) ∧
    (∀ i, t.lines.length ≤ i → (ofText t).lineText? i = none ∧ (ofText t).lineLength i = 0) ∧
    (ofText t).charCount = (t.lines.map List.length).sum + t.lines.length - 1 := by
  refine ⟨lineCount_ofText t, ?_, ?_, ?_⟩
  · intro i line hline
    refine ⟨lineText?_of_line hline, lineLength_of_line hline, ?_⟩
    rw [offsetOf_of_line hline, Nat.zero_min, Nat.add_zero, Text.lineOffset_eq_sum]
  · intro i hi
    have hnone := List.getElem?_eq_none_iff.2 hi
    exact ⟨lineText?_of_no_line hnone, lineLength_of_no_line hnone⟩
  · have htotal := t.lineOffset_length
    rw [Text.lineOffset_eq_sum, List.take_length, List.sum_map_add, List.map_const', List.sum_replicate_nat,
      Nat.mul_one] at htotal
    show t.length = _
    omega

/-- The last line is empty, and a carriage return ends no line. -/
theorem lines_ofText_agree_trailing :
    (Text.lines "do\r\n\nend\n".toList)[3]? = some [] ∧ (ofText "do\r\n\nend\n".toList).lineText? 3 = some [] ∧
      (ofText "do\r\n\nend\n".toList).lineLength 3 = ([] : Text).length ∧
      (ofText "do\r\n\nend\n".toList).offsetOf ⟨3, 0⟩ =
        (((Text.lines "do\r\n\nend\n".toList).take 3).map fun above => above.length + 1).sum ∧
      (ofText "do\r\n\nend\n".toList).lineText? 4 = none :=
  have h := lines_ofText_agree "do\r\n\nend\n".toList
  ⟨by decide, (h.2.1 3 [] (by decide)).1, (h.2.1 3 [] (by decide)).2.1, (h.2.1 3 [] (by decide)).2.2,
    (h.2.2.1 4 (by decide)).1⟩

/-! ### Positions -/

/-- Is `p` on a line of the table, and not behind the end of that line? -/
def HasPosition (x : LineTable) (p : Position) : Prop := p.line < x.lineCount ∧ p.column ≤ x.lineLength p.line

instance (x : LineTable) (p : Position) : Decidable (x.HasPosition p) :=
  inferInstanceAs (Decidable (p.line < x.lineCount ∧ p.column ≤ x.lineLength p.line))

private theorem hasPosition_iff {p : Position} :
    (ofText t).HasPosition p ↔ ∃ line, t.lines[p.line]? = some line ∧ p.column ≤ line.length := by
  constructor
  · rintro ⟨hline, hcolumn⟩
    rw [lineCount_ofText] at hline
    have hget := List.getElem?_eq_getElem hline
    rw [lineLength_of_line hget] at hcolumn
    exact ⟨_, hget, hcolumn⟩
  · rintro ⟨line, hget, hcolumn⟩
    refine ⟨?_, ?_⟩
    · rw [lineCount_ofText]
      exact (List.getElem?_eq_some_iff.1 hget).1
    · rwa [lineLength_of_line hget]

/-! ### Finding the line -/

private theorem countP_eq_of_places {l : List Nat} {f : Nat → Bool} {n : Nat} (hn : n ≤ l.length)
    (h : ∀ i a, l[i]? = some a → (f a = true ↔ i < n)) : l.countP f = n := by
  have hbefore : (l.take n).countP f = (l.take n).length := by
    rw [List.countP_eq_length]
    intro a ha
    obtain ⟨i, hi⟩ := List.getElem?_of_mem ha
    rw [List.getElem?_take] at hi
    split at hi
    · rename_i hlt
      exact (h i a hi).2 hlt
    · cases hi
  have hbehind : (l.drop n).countP f = 0 := by
    rw [List.countP_eq_zero]
    intro a ha htrue
    obtain ⟨i, hi⟩ := List.getElem?_of_mem ha
    rw [List.getElem?_drop] at hi
    have hlt := (h (n + i) a hi).1 htrue
    omega
  rw [← List.take_append_drop n l, List.countP_append, hbefore, hbehind, List.length_take]
  omega

/-- The lines that start no later than a place on a line are that line and those above it. -/
private theorem countP_starts {i : Nat} {line : Text} {column : Nat} (hline : t.lines[i]? = some line)
    (hcolumn : column ≤ line.length) :
    (ofText t).starts.countP (· ≤ lineOffset t.lines i + column) = i + 1 := by
  have hi := (List.getElem?_eq_some_iff.1 hline).1
  have hcount : (ofText t).starts.length = t.lines.length := lineCount_ofText t
  refine countP_eq_of_places (by omega) ?_
  intro j start hstart
  have hj := (List.getElem?_eq_some_iff.1 hstart).1
  rw [hcount] at hj
  have hj' := starts_of_line (List.getElem?_eq_getElem hj)
  obtain rfl : lineOffset t.lines j = start := Option.some.inj (hj'.symm.trans hstart)
  rw [decide_eq_true_eq]
  constructor
  · intro hle
    rcases Nat.lt_or_ge i j with hij | hji
    · have hbelow := lineOffset_lt hline hij
      omega
    · omega
  · intro hlt
    have habove := lineOffset_mono t.lines (i := j) (j := i) (by omega)
    omega

theorem positionAt_of_line {i : Nat} {line : Text} {column : Nat} (hline : t.lines[i]? = some line)
    (hcolumn : column ≤ line.length) : (ofText t).positionAt (lineOffset t.lines i + column) = ⟨i, column⟩ := by
  have hin : lineOffset t.lines i + column ≤ (ofText t).charCount := by
    have hle := offsetOf_le_charCount t ⟨i, column⟩
    rwa [offsetOf_of_line hline, Nat.min_eq_left hcolumn] at hle
  unfold positionAt
  simp only [Nat.min_eq_left hin, countP_starts hline hcolumn, Nat.add_sub_cancel, List.getD_eq_getElem?_getD,
    starts_of_line hline, Option.getD_some, Nat.add_sub_cancel_left]

private theorem positionAt_min (x : LineTable) (offset : Nat) :
    x.positionAt (min offset x.charCount) = x.positionAt offset := by
  unfold positionAt
  rw [Nat.min_assoc, Nat.min_self]

/-! ### There and back -/

theorem positionAt_offsetOf {p : Position} (h : (ofText t).HasPosition p) :
    (ofText t).positionAt ((ofText t).offsetOf p) = p := by
  obtain ⟨line, hline, hcolumn⟩ := hasPosition_iff.1 h
  rw [offsetOf_of_line hline, Nat.min_eq_left hcolumn, positionAt_of_line hline hcolumn]

private theorem exists_position (t : Text) (offset : Nat) :
    ∃ p, (ofText t).HasPosition p ∧ (ofText t).offsetOf p = min offset (ofText t).charCount := by
  obtain ⟨i, line, column, hline, hcolumn, hsum⟩ := t.exists_line_of_offset (Nat.min_le_right offset t.length)
  refine ⟨⟨i, column⟩, hasPosition_iff.2 ⟨line, hline, hcolumn⟩, ?_⟩
  rw [offsetOf_of_line hline, Nat.min_eq_left hcolumn, hsum]
  rfl

private theorem hasPosition_positionAt (t : Text) (offset : Nat) :
    (ofText t).HasPosition ((ofText t).positionAt offset) ∧
      (ofText t).offsetOf ((ofText t).positionAt offset) = min offset (ofText t).charCount := by
  obtain ⟨p, hp, hoffset⟩ := exists_position t offset
  have hback : (ofText t).positionAt offset = p := by
    rw [← positionAt_min, ← hoffset, positionAt_offsetOf hp]
  rw [hback]
  exact ⟨hp, hoffset⟩

/-! ### Order -/

theorem offsetOf_mono (t : Text) {p q : Position} (h : p ≤ q) : (ofText t).offsetOf p ≤ (ofText t).offsetOf q := by
  cases hq : t.lines[q.line]? with
  | none =>
    rw [offsetOf_of_no_line hq]
    exact offsetOf_le_charCount t p
  | some line =>
    rcases h with hlt | ⟨hsame, hcolumn⟩
    · have hp := List.getElem?_eq_getElem (Nat.lt_trans hlt (List.getElem?_eq_some_iff.1 hq).1)
      have hbelow := lineOffset_lt hp hlt
      rw [offsetOf_of_line hp, offsetOf_of_line hq]
      omega
    · rw [offsetOf_of_line (hsame ▸ hq), offsetOf_of_line hq, hsame]
      omega

private theorem positionAt_mono (t : Text) {m n : Nat} (h : m ≤ n) :
    (ofText t).positionAt m ≤ (ofText t).positionAt n := by
  obtain ⟨hm, hoffsetm⟩ := hasPosition_positionAt t m
  obtain ⟨hn, hoffsetn⟩ := hasPosition_positionAt t n
  rcases Position.le_total ((ofText t).positionAt m) ((ofText t).positionAt n) with hle | hge
  · exact hle
  · -- the offsets are ordered both ways, hence equal, and the conversion to offsets is injective here
    have hback := offsetOf_mono t hge
    have hsame : (ofText t).offsetOf ((ofText t).positionAt m) = (ofText t).offsetOf ((ofText t).positionAt n) := by
      omega
    rw [← positionAt_offsetOf hm, hsame, positionAt_offsetOf hn]
    exact Position.le_refl _

/-- An offset is found again behind its position, up to the end of the text, and a position of the text behind its
offset.  No position has an offset beyond the text, and both conversions keep the order. -/
theorem conversions_inverse_monotone (t : Text) :
    (∀ offset, (ofText t).offsetOf ((ofText t).positionAt offset) = min offset (ofText t).charCount ∧
      (ofText t).HasPosition ((ofText t).positionAt offset)) ∧
    (∀ p, (ofText t).HasPosition p → (ofText t).positionAt ((ofText t).offsetOf p) = p) ∧
    (∀ p, (ofText t).offsetOf p ≤ (ofText t).charCount) ∧
    (∀ p q : Position, p ≤ q → (ofText t).offsetOf p ≤ (ofText t).offsetOf q) ∧
    ∀ m n : Nat, m ≤ n → (ofText t).positionAt m ≤ (ofText t).positionAt n := by
  refine ⟨?_, fun p hp => positionAt_offsetOf hp, offsetOf_le_charCount t, fun p q h => offsetOf_mono t h,
    fun m n h => positionAt_mono t h⟩
  intro offset
  obtain ⟨hposition, hoffset⟩ := hasPosition_positionAt t offset
  exact ⟨hoffset, hposition⟩

/-- A position on the empty last line, one behind the end of its line and an offset behind the end of the text. -/
theorem conversions_inverse_monotone_trailing :
    (ofText "do\n\nend\n".toList).HasPosition ⟨3, 0⟩ ∧
      (ofText "do\n\nend\n".toList).positionAt ((ofText "do\n\nend\n".toList).offsetOf ⟨3, 0⟩) = ⟨3, 0⟩ ∧
      (⟨0, 9⟩ : Position) ≤ ⟨1, 0⟩ ∧
      (ofText "do\n\nend\n".toList).offsetOf ⟨0, 9⟩ ≤ (ofText "do\n\nend\n".toList).offsetOf ⟨1, 0⟩ ∧
      (ofText "do\n\nend\n".toList).positionAt 7 ≤ (ofText "do\n\nend\n".toList).positionAt 20 :=
  have h := conversions_inverse_monotone "do\n\nend\n".toList
  ⟨by decide, h.2.1 ⟨3, 0⟩ (by decide), by decide, h.2.2.2.1 ⟨0, 9⟩ ⟨1, 0⟩ (by decide),
    h.2.2.2.2 7 20 (by decide)⟩

end LineTable

end ScriptLint
