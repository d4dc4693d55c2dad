import ScriptLint.Editor.LineTable

/-!
# Offsets of lines

A line table and the cutting of a text into lines agree on where a line stands.  Before the line with the number
`i` stand the lines above it, each with its line feed, which are `Text.lineOffset t.lines i` characters
(`Text.split_at_line`); the table has that number as the line's start (`LineTable.starts_of_line`) and knows the
line's length and text (`LineTable.lineLength_of_line`, `LineTable.lineText?_of_line`).  So the offset of a
position is found by the line's offset and its column (`LineTable.offsetOf_of_line`).

Both sides are read off a text line by line, by `Text.lineInduction`.
-/

namespace ScriptLint

namespace Text

theorem lines_of_no_newline {t : Text} (h : '\n' ∉ t) : lines t = [t] := List.splitOn_eq_singleton h

theorem lines_cons {first : Text} (h : '\n' ∉ first) (rest : Text) :
    lines (first ++ '\n' :: rest) = first :: lines rest := by
  rw [lines_append_newline, lines_of_no_newline h]
  rfl

/-- A text is a line, or a line with a line feed and a text below it. -/
theorem lineInduction {P : Text → Prop} (last : ∀ t, '\n' ∉ t → P t)
    (more : ∀ first rest, '\n' ∉ first → P rest → P (first ++ '\n' :: rest)) (t : Text) : P t := by
  induction hn : t.length using Nat.strongRecOn generalizing t with
  | _ n ih =>
    by_cases hmem : '\n' ∈ t
    · obtain ⟨first, rest, rfl, hfirst⟩ := List.eq_append_cons_of_mem hmem
      have hlt : rest.length < n := by
        simp only [List.length_append, List.length_cons] at hn
        omega
      exact more first rest hfirst (ih _ hlt rest rfl)
    · exact last t hmem

/-- How many characters stand before the `i`th of some lines, line feeds included. -/
def lineOffset : List Text → (i : Nat) → Nat
  | _, 0 => 0
  | [], _ + 1 => 0
  | t :: rest, i + 1 => t.length + 1 + lineOffset rest i

@[simp] theorem lineOffset_zero (lines : List Text) : lineOffset lines 0 = 0 := by
  cases lines <;> rfl

@[simp] theorem lineOffset_cons_succ (t : Text) (rest : List Text) (i : Nat) :
    lineOffset (t :: rest) (i + 1) = t.length + 1 + lineOffset rest i := rfl

theorem lineOffset_succ {lines : List Text} {i : Nat} {line : Text} (h : lines[i]? = some line) :
    lineOffset lines (i + 1) = lineOffset lines i + line.length + 1 := by
  induction lines generalizing i with
  | nil => simp at h
  | cons t rest ih =>
    rw [lineOffset_cons_succ]
    cases i with
    | zero =>
      obtain rfl : t = line := by simpa using h
      rw [lineOffset_zero, lineOffset_zero]
      omega
    | succ i =>
      have hrest := ih (by simpa using h)
      rw [lineOffset_cons_succ, hrest]
      omega

/-- The lines, each with a line feed, are the text with one line feed more. -/
theorem lineOffset_length (t : Text) : lineOffset t.lines t.lines.length = t.length + 1 := by
  induction t using lineInduction with
  | last t ht => simp [lines_of_no_newline ht]
  | more first rest hfirst ih =>
    rw [lines_cons hfirst, List.length_cons, lineOffset_cons_succ, ih]
    simp only [List.length_append, List.length_cons]
    omega

theorem split_at_line {t : Text} {i : Nat} {line : Text} (h : t.lines[i]? = some line) :
    ∃ before after, t = before ++ (line ++ after) ∧ before.length = lineOffset t.lines i := by
  induction t using lineInduction generalizing i with
  | last t ht =>
    rw [lines_of_no_newline ht] at h ⊢
    cases i with
    | zero =>
      obtain rfl : t = line := by simpa using h
      exact ⟨[], [], by simp, rfl⟩
    | succ i => simp at h
  | more first rest hfirst ih =>
    rw [lines_cons hfirst] at h ⊢
    cases i with
    | zero =>
      obtain rfl : first = line := by simpa using h
      exact ⟨[], '\n' :: rest, rfl, rfl⟩
    | succ i =>
      obtain ⟨before, after, hrest, hlen⟩ := ih (by simpa using h)
      refine ⟨first ++ '\n' :: before, after, ?_, ?_⟩
      · rw [hrest]
        simp
      · rw [lineOffset_cons_succ, ← hlen]
        simp only [List.length_append, List.length_cons]
        omega

/-- A part of a line is found in the text behind the line's offset. -/
theorem extract_line {t : Text} {i : Nat} {line : Text} (h : t.lines[i]? = some line) {a b : Nat}
    (ha : a ≤ line.length) (hb : b ≤ line.length) :
    t.extract (lineOffset t.lines i + a) (lineOffset t.lines i + b) = line.extract a b := by
  obtain ⟨before, after, ht, hlen⟩ := split_at_line h
  have hdrop : t.drop (lineOffset t.lines i + a) = line.drop a ++ after := by
    rw [← hlen, ht, List.drop_length_add_append, List.drop_append_of_le_length ha]
  have hwidth : lineOffset t.lines i + b - (lineOffset t.lines i + a) = b - a := by omega
  rw [List.extract_eq_take_drop, List.extract_eq_take_drop, hdrop, hwidth]
  exact List.take_append_of_le_length (by rw [List.length_drop]; omega)

end Text

namespace LineTable

open Text (lineOffset)

private theorem startsAfter_of_no_newline {t : Text} (h : '\n' ∉ t) (offset : Nat) :
    startsAfter offset t = [] := by
  induction t generalizing offset with
  | nil => rfl
  | cons c t ih =>
    simp only [List.mem_cons, not_or] at h
    rw [startsAfter, if_neg (Ne.symm h.1)]
    exact ih h.2 _

private theorem startsAfter_append_newline {s : Text} (h : '\n' ∉ s) (offset : Nat) (t : Text) :
    startsAfter offset (s ++ '\n' :: t) = (offset + s.length + 1) :: startsAfter (offset + s.length + 1) t := by
  induction s generalizing offset with
  | nil => rfl
  | cons c s ih =>
    simp only [List.mem_cons, not_or] at h
    rw [List.cons_append, startsAfter, if_neg (Ne.symm h.1), ih h.2, List.length_cons,
      show offset + 1 + s.length + 1 = offset + (s.length + 1) + 1 by omega]

/-- Every line has an entry, and no more entries are made. -/
private theorem getElem?_startsAfter (t : Text) (offset i : Nat) :
    (offset :: startsAfter offset t)[i]? = t.lines[i]?.map fun _ => offset + lineOffset t.lines i := by
  induction t using Text.lineInduction generalizing offset i with
  | last t ht =>
    rw [startsAfter_of_no_newline ht, Text.lines_of_no_newline ht]
    cases i <;> simp
  | more first rest hfirst ih =>
    rw [startsAfter_append_newline hfirst, Text.lines_cons hfirst]
    cases i with
    | zero => simp
    | succ i =>
      rw [List.getElem?_cons_succ, List.getElem?_cons_succ, ih]
      congr 1
      funext line
      rw [Text.lineOffset_cons_succ]
      omega

variable {t : Text} {i : Nat} {line : Text}

theorem starts_of_line (h : t.lines[i]? = some line) : (ofText t).starts[i]? = some (lineOffset t.lines i) := by
  have hstarts := getElem?_startsAfter t 0 i
  rwa [h, Option.map_some, Nat.zero_add] at hstarts

private theorem starts_of_no_line (h : t.lines[i]? = none) : (ofText t).starts[i]? = none := by
  have hstarts := getElem?_startsAfter t 0 i
  rwa [h, Option.map_none] at hstarts

theorem lineCount_ofText (t : Text) : (ofText t).lineCount = t.lines.length := by
  have hle : (ofText t).starts.length ≤ t.lines.length :=
    List.getElem?_eq_none_iff.1 (starts_of_no_line (List.getElem?_eq_none_iff.2 (Nat.le_refl _)))
  have hge : t.lines.length ≤ (ofText t).starts.length := by
    refine Nat.le_of_not_lt ?_
    intro hlt
    have hstart := (List.getElem?_eq_some_iff.1 (starts_of_line (List.getElem?_eq_getElem hlt))).1
    omega
  exact Nat.le_antisymm hle hge

private theorem lineEnd_of_line (h : t.lines[i]? = some line) :
    (ofText t).lineEnd i = lineOffset t.lines i + line.length := by
  have hsucc := Text.lineOffset_succ h
  unfold lineEnd
  cases hnext : t.lines[i + 1]? with
  | some next =>
    rw [starts_of_line hnext]
    simp only
    omega
  | none =>
    -- the last line ends where the text ends
    rw [starts_of_no_line hnext]
    have hlast : i + 1 = t.lines.length := by
      have hlt := (List.getElem?_eq_some_iff.1 h).1
      have hge := List.getElem?_eq_none_iff.1 hnext
      omega
    have htotal := Text.lineOffset_length t
    rw [← hlast] at htotal
    show t.length = _
    omega

theorem lineLength_of_line (h : t.lines[i]? = some line) : (ofText t).lineLength i = line.length := by
  rw [lineLength, starts_of_line h, lineEnd_of_line h]
  exact Nat.add_sub_cancel_left ..

theorem lineText?_of_line (h : t.lines[i]? = some line) : (ofText t).lineText? i = some line := by
  obtain ⟨before, after, ht, hlen⟩ := Text.split_at_line h
  have hdrop : (ofText t).chars.drop (lineOffset t.lines i) = line ++ after := by
    show t.drop _ = _
    rw [← hlen, ht, List.drop_left]
  rw [lineText?, starts_of_line h, Option.map_some, hdrop, lineLength_of_line h, List.take_left]

theorem lineText?_of_no_line (h : t.lines[i]? = none) : (ofText t).lineText? i = none := by
  rw [lineText?, starts_of_no_line h, Option.map_none]

theorem lineLength_of_no_line (h : t.lines[i]? = none) : (ofText t).lineLength i = 0 := by
  rw [lineLength, starts_of_no_line h]

theorem offsetOf_of_line {p : Position} (h : t.lines[p.line]? = some line) :
    (ofText t).offsetOf p = lineOffset t.lines p.line + min p.column line.length := by
  rw [offsetOf, starts_of_line h, lineLength_of_line h]

theorem offsetOf_of_no_line {p : Position} (h : t.lines[p.line]? = none) : (ofText t).offsetOf p = t.length := by
  rw [offsetOf, starts_of_no_line h]
  rfl

theorem offsetOf_le_charCount (t : Text) (p : Position) : (ofText t).offsetOf p ≤ (ofText t).charCount := by
  show _ ≤ t.length
  cases h : t.lines[p.line]? with
  | some line =>
    obtain ⟨before, after, ht, hlen⟩ := Text.split_at_line h
    have htotal := congrArg List.length ht
    simp only [List.length_append] at htotal
    rw [offsetOf_of_line h]
    omega
  | none => exact Nat.le_of_eq (offsetOf_of_no_line h)

end LineTable

end ScriptLint
