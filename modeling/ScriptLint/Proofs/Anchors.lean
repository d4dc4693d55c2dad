import Mathlib.Data.List.TakeWhile
import ScriptLint.Proofs.Strands

/-!
# Anchors

Every diagnostic marks a part of one line of the text, and the part is the one that its code is about
(`lint_anchored`).  Brackets mark the column of a code character, which is the character that the message names; a
closing word and a missing word mark their whole line; an open parameter list marks the line from a column on; and
an open block marks the given width.

Diagnostics about open brackets and blocks are made at the end of the text.  They are anchored because everything
on a stack was put there by a character or a line that has been read (`mem_items_readAll`, `mem_items_readLines`).
-/

namespace ScriptLint

/-! ### Columns -/

/-- What a scan yields from a column on is the character at that column. -/
theorem Scan.getElem?_of_mem_run {l : Language} {m : Mode} {start : Nat} {before : Option Char} {t : Text}
    {column : Nat} {c : Char} (h : (column, c) ∈ (run l m start before t).code) :
    start ≤ column ∧ t[column - start]? = some c := by
  induction t generalizing m start before with
  | nil => cases h
  | cons a t ih =>
    have htail : ∀ m', (column, c) ∈ (run l m' (start + 1) (some a) t).code →
        start ≤ column ∧ (a :: t)[column - start]? = some c := by
      intro m' h'
      obtain ⟨hle, hget⟩ := ih h'
      refine ⟨by omega, ?_⟩
      rw [show column - start = column - (start + 1) + 1 by omega, List.getElem?_cons_succ, hget]
    unfold run at h
    simp only at h
    split at h
    · cases h
    · exact htail _ h
    · rcases List.mem_cons.1 h with heq | h
      · cases heq
        simp
      · exact htail _ h

theorem Scan.getElem?_of_mem_ofLine {l : Language} {t : Text} {column : Nat} {c : Char}
    (h : (column, c) ∈ (ofLine l t).code) : t[column]? = some c :=
  (getElem?_of_mem_run h).2

/-- A text is its indentation, its trimmed part and blanks. -/
theorem Text.trim_split (t : Text) :
    ∃ v : Text, t = t.takeWhile isBlank ++ (t.trim ++ v) ∧ ∀ c ∈ v, isBlank c = true := by
  refine ⟨(t.trimStart.reverse.takeWhile isBlank).reverse, ?_, ?_⟩
  · have hend : t.trim ++ (t.trimStart.reverse.takeWhile isBlank).reverse = t.trimStart := by
      rw [trim, trimEnd, ← List.reverse_append, List.takeWhile_append_dropWhile, List.reverse_reverse]
    rw [hend, trimStart, List.takeWhile_append_dropWhile]
  · intro c hc
    exact List.mem_takeWhile_imp (List.mem_reverse.1 hc)

private theorem LineView.parenColumn_lt {v : LineView} (htrim : v.trimmed = v.text.trim)
    (hparen : '(' ∈ v.trimmed) : v.parenColumn < v.text.length := by
  obtain ⟨blanks, hsplit, -⟩ := Text.trim_split v.text
  have hlen := congrArg List.length hsplit
  have hfirst : (v.trimmed.takeWhile (· != '(')).length < v.trimmed.length := by
    rcases Nat.lt_or_eq_of_le (List.takeWhile_prefix (p := (· != '(')) (l := v.trimmed)).length_le with hlt | heq
    · exact hlt
    · have hall := (List.takeWhile_prefix (p := (· != '(')) (l := v.trimmed)).eq_of_length heq
      rw [← hall] at hparen
      have := List.mem_takeWhile_imp hparen
      simp at this
  rw [List.length_append, List.length_append, ← htrim] at hlen
  unfold parenColumn Text.indentation
  omega

/-! ### What is marked -/

/-- The diagnostic marks one column of the line `t`, within the line, which holds the code character `c`. -/
structure Diagnostic.MarksCode (d : Diagnostic) (l : Language) (t : Text) (c : Char) : Prop where
  width : d.span.stop.column = d.span.start.column + 1
  char : t[d.span.start.column]? = some c
  code : (d.span.start.column, c) ∈ (Scan.ofLine l t).code

def Diagnostic.MarksLine (d : Diagnostic) (line : Text) : Prop :=
  d.span.start.column = 0 ∧ d.span.stop.column = line.length

/-- The columns and the message of a diagnostic are right for its code, when it is about the given line. -/
def Diagnostic.Fits (d : Diagnostic) (lt : Linter) (line : Text) : Prop :=
  match d.code with
  | .unexpectedClosingBracket =>
    ∃ c, d.MarksCode lt.language line c ∧ lt.language.closes c = true ∧
      d.message = "Unexpected closing '" ++ c.toString ++ "'"
  | .mismatchedBrackets =>
    ∃ c e, d.MarksCode lt.language line c ∧ lt.language.closes c = true ∧ e ≠ c ∧
      d.message = "Mismatched brackets: expected '" ++ e.toString ++ "' but found '" ++ c.toString ++ "'"
  | .unclosedBracket =>
    ∃ c, d.MarksCode lt.language line c ∧ lt.language.opens c = true ∧ d.message = "Unclosed '" ++ c.toString ++ "'"
  | .unexpectedEnd | .unmatchedUntil | .missingThen | .missingDo => d.MarksLine line
  | .unclosedParameterList => d.span.start.column < line.length ∧ d.span.stop.column = line.length
  | .unclosedBlock => d.span.start.column = 0 ∧ d.span.stop.column = lt.rules.blockWidth

/-- The diagnostic is about a line of the text and fits it, and it is a warning exactly when it misses a word. -/
structure Diagnostic.Anchored (d : Diagnostic) (lt : Linter) (lines : List Text) (line : Text) : Prop where
  line_eq : lines[d.span.start.line]? = some line
  same_line : d.span.stop.line = d.span.start.line
  ordered : d.span.start.column ≤ d.span.stop.column
  warning_iff : d.severity = .warning ↔ d.code = .missingThen ∨ d.code = .missingDo
  fits : d.Fits lt line

private theorem Finding.warning_iff (f : Finding) (span : Span) :
    (f.report span).severity = .warning ↔
      (f.report span).code = .missingThen ∨ (f.report span).code = .missingDo := by
  cases f <;> simp [report, severity, code]

namespace Linter

variable {lt : Linter} {lines : List Text}

/-- A code character of a text is found in one of its lines, at its position. -/
theorem exists_line_of_mem_codeFrom {l : Language} {x : Char × Position} (hx : x ∈ codeFrom l 0 lines) :
    ∃ line, lines[x.2.line]? = some line ∧ (x.2.column, x.1) ∈ (Scan.ofLine l line).code := by
  obtain ⟨⟨line, number⟩, hline, hx⟩ := List.mem_flatMap.1 hx
  obtain ⟨⟨column, c⟩, hcode, rfl⟩ := List.mem_map.1 hx
  exact ⟨line, List.mem_zipIdx_iff_getElem?.1 hline, hcode⟩

private theorem marksCode_cell {f : Finding} {x : Char × Position} {line : Text}
    (hcode : (x.2.column, x.1) ∈ (Scan.ofLine lt.language line).code) :
    (f.report x.2.cell).MarksCode lt.language line x.1 where
  width := rfl
  char := Scan.getElem?_of_mem_ofLine hcode
  code := hcode

theorem anchored_of_mem_bracketReport {d : Diagnostic}
    (hd : d ∈ BracketStack.report lt.language (codeFrom lt.language 0 lines)) :
    ∃ line, d.Anchored lt lines line := by
  rcases List.mem_append.1 hd with hd | hd
  · obtain ⟨x, hx, s, hd⟩ := BracketStack.mem_readAll hd
    obtain ⟨line, hline, hcode⟩ := exists_line_of_mem_codeFrom hx
    obtain ⟨-, hcloses, hd⟩ := BracketStack.mem_read hd
    refine ⟨line, ?_⟩
    rcases hd with ⟨-, rfl⟩ | ⟨b, rest, -, hne, rfl⟩
    · exact ⟨hline, rfl, Nat.le_succ _, Finding.warning_iff _ _, x.1, marksCode_cell hcode, hcloses, rfl⟩
    · exact ⟨hline, rfl, Nat.le_succ _, Finding.warning_iff _ _,
        x.1, b.closer, marksCode_cell hcode, hcloses, hne, rfl⟩
  · -- an open bracket was pushed by a code character, and its frame keeps the position of that character
    obtain ⟨b, hb, rfl⟩ := List.mem_map.1 hd
    rcases BracketStack.mem_items_readAll (List.mem_reverse.1 hb) with hb | ⟨x, hx, e, he, rfl⟩
    · cases hb
    · obtain ⟨line, hline, hcode⟩ := exists_line_of_mem_codeFrom hx
      have hopens : lt.language.opens x.1 = true := Language.opens_iff_closing?.2 ⟨e, he⟩
      exact ⟨line, hline, rfl, Nat.le_succ _, Finding.warning_iff (.unclosedBracket x.1) _,
        x.1, marksCode_cell hcode, hopens, rfl⟩

theorem anchored_of_mem_blockReport {d : Diagnostic}
    (hd : d ∈ BlockStack.report lt.language lt.rules.blockWidth lines) :
    ∃ line, d.Anchored lt lines line := by
  rcases List.mem_append.1 hd with hd | hd
  · obtain ⟨⟨line, number⟩, hx, s, hd⟩ := BlockStack.mem_readLines hd
    have hline := List.mem_zipIdx_iff_getElem?.1 hx
    refine ⟨line, ?_⟩
    rcases BlockStack.mem_readLine hd with ⟨-, rfl⟩ | ⟨-, rfl⟩
    · exact ⟨hline, rfl, Nat.zero_le _, Finding.warning_iff _ _, rfl, rfl⟩
    · exact ⟨hline, rfl, Nat.zero_le _, Finding.warning_iff _ _, rfl, rfl⟩
  · obtain ⟨b, hb, rfl⟩ := List.mem_map.1 hd
    rcases BlockStack.mem_items_readLines (List.mem_reverse.1 hb) with hb | ⟨⟨line, number⟩, hx, -, -, hb⟩
    · cases hb
    · have hline := List.mem_zipIdx_iff_getElem?.1 hx
      rw [← hb] at hline
      exact ⟨line, hline, rfl, Nat.zero_le _, Finding.warning_iff (.unclosedBlock b.keyword) _, rfl, rfl⟩

theorem anchored_of_mem_omissions {d : Diagnostic} (hd : d ∈ lt.omissionsFrom 0 lines) :
    ∃ line, d.Anchored lt lines line := by
  obtain ⟨⟨line, number⟩, hx, hd⟩ := List.mem_flatMap.1 hd
  have hline := List.mem_zipIdx_iff_getElem?.1 hx
  refine ⟨line, ?_⟩
  simp only [LineView.omissions, List.mem_append, List.mem_ite_nil_right, List.mem_singleton] at hd
  rcases hd with (⟨hlacks, rfl⟩ | ⟨-, rfl⟩) | ⟨-, rfl⟩
  · have hlt : (view lt.language number line).parenColumn < line.length := by
      simp only [LineView.lacksParameterEnd, Bool.and_eq_true, List.contains_iff_mem] at hlacks
      exact LineView.parenColumn_lt rfl hlacks.2.2
    exact ⟨hline, rfl, Nat.le_of_lt hlt, Finding.warning_iff _ _, hlt, rfl⟩
  · exact ⟨hline, rfl, Nat.zero_le _, Finding.warning_iff _ _, rfl, rfl⟩
  · exact ⟨hline, rfl, Nat.zero_le _, Finding.warning_iff _ _, rfl, rfl⟩

/-- Every diagnostic of a text is anchored in one of its lines. -/
theorem lint_anchored (lt : Linter) (text : Text) (d : Diagnostic) (hd : d ∈ lt.lint text) :
    ∃ line, d.Anchored lt text.lines line := by
  rcases (mem_lint_iff lt).1 hd with hd | hd | hd
  · exact anchored_of_mem_bracketReport hd
  · exact anchored_of_mem_blockReport hd
  · exact anchored_of_mem_omissions hd

/-- A closer on the second line that takes an opener of the first. -/
theorem lint_anchored_mismatch :
    (Finding.mismatchedCloser ')' ']').report (Span.inLine 1 3 4) ∈ default.lint "f(\n'é']".toList ∧
      ∃ line, ((Finding.mismatchedCloser ')' ']').report (Span.inLine 1 3 4)).Anchored default
        (Text.lines "f(\n'é']".toList) line :=
  ⟨by decide, lint_anchored default _ _ (by decide)⟩

end Linter

end ScriptLint
