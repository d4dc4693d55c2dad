import ScriptLint.Editor.Marker
import ScriptLint.Proofs.Anchors
import ScriptLint.Proofs.LineOffsets

/-!
# Marked text

A marker covers the part of the text that its diagnostic is about (`ofDiagnostics_cover`).  A diagnostic about the
columns `a` to `b` of a line is shown by a marker that starts and stops at the offsets of these columns of that
line, or at the end of the line where a column lies beyond it; so it covers these columns, and a bracket is covered
alone.

Markers of diagnostics from elsewhere, which may lie outside the text or end before they start, still stay within
the text, and within one line if they start and end on the same line.  The key fact for both is `covered_of_line`:
offsets in a line are the line's offset and a column that is cut off at the end of the line, and what stands
between two such offsets is a part of the line.
-/

namespace ScriptLint

namespace Marker

/-- The characters of a text that a marker covers. -/
def covered (m : Marker) (t : Text) : Text := t.extract m.start m.stop

variable {t : Text} {d : Diagnostic}

private theorem getElem?_ofDiagnostics (x : LineTable) {ds : List Diagnostic} {i : Nat} (h : ds[i]? = some d) :
    (ofDiagnostics x ds)[i]? = some (ofDiagnostic x i d) := by
  rw [ofDiagnostics, List.getElem?_mapIdx, h, Option.map_some]

private theorem stop_le_charCount (t : Text) (place : Nat) (d : Diagnostic) :
    (ofDiagnostic (.ofText t) place d).stop ≤ (LineTable.ofText t).charCount :=
  Nat.max_le.2 ⟨LineTable.offsetOf_le_charCount t _, LineTable.offsetOf_le_charCount t _⟩

private theorem start_of_line {line : Text} (hline : t.lines[d.span.start.line]? = some line) (place : Nat) :
    (ofDiagnostic (.ofText t) place d).start =
      Text.lineOffset t.lines d.span.start.line + min d.span.start.column line.length :=
  LineTable.offsetOf_of_line hline

private theorem stop_of_line {line : Text} (hline : t.lines[d.span.start.line]? = some line)
    (hsame : d.span.stop.line = d.span.start.line) (place : Nat) :
    (ofDiagnostic (.ofText t) place d).stop =
      Text.lineOffset t.lines d.span.start.line +
        max (min d.span.start.column line.length) (min d.span.stop.column line.length) := by
  have hstop := LineTable.offsetOf_of_line (p := d.span.stop) (hsame ▸ hline)
  rw [hsame] at hstop
  simp only [ofDiagnostic, LineTable.offsetOf_of_line hline, hstop, Nat.add_max_add_left]

theorem covered_of_line {line : Text} (hline : t.lines[d.span.start.line]? = some line)
    (hsame : d.span.stop.line = d.span.start.line) (place : Nat) :
    (ofDiagnostic (.ofText t) place d).covered t =
      line.extract d.span.start.column (min d.span.stop.column line.length) := by
  have hcovered : (ofDiagnostic (.ofText t) place d).covered t =
      line.extract (min d.span.start.column line.length)
        (max (min d.span.start.column line.length) (min d.span.stop.column line.length)) := by
    rw [covered, start_of_line hline, stop_of_line hline hsame]
    exact Text.extract_line hline (by omega) (by omega)
  rw [hcovered, List.extract_eq_take_drop, List.extract_eq_take_drop]
  rcases Nat.le_total d.span.start.column line.length with ha | ha
  · rw [Nat.min_eq_left ha]
    congr 1
    omega
  · -- behind the end of the line nothing is left to cover
    rw [Nat.min_eq_right ha, List.drop_length, List.drop_eq_nil_of_le ha, List.take_nil, List.take_nil]

private theorem covered_of_no_line (hline : t.lines[d.span.start.line]? = none) (place : Nat) :
    (ofDiagnostic (.ofText t) place d).covered t = [] := by
  have hstart := LineTable.offsetOf_of_no_line hline
  rw [covered, ofDiagnostic, hstart, List.extract_eq_take_drop, List.drop_length, List.take_nil]

private theorem newline_not_mem_covered (hsame : d.span.stop.line = d.span.start.line) (place : Nat) :
    '\n' ∉ (ofDiagnostic (.ofText t) place d).covered t := by
  cases hline : t.lines[d.span.start.line]? with
  | some line =>
    rw [covered_of_line hline hsame, List.extract_eq_take_drop]
    intro hmem
    have hmem' : '\n' ∈ line := List.mem_of_mem_drop (List.mem_of_mem_take hmem)
    exact Text.newline_not_mem_of_mem_lines (List.mem_of_getElem? hline) hmem'
  | none =>
    rw [covered_of_no_line hline]
    exact List.not_mem_nil

private theorem covered_of_marksCode {l : Language} {line : Text} {c : Char}
    (hline : t.lines[d.span.start.line]? = some line) (hsame : d.span.stop.line = d.span.start.line)
    (hmarks : d.MarksCode l line c) (place : Nat) : (ofDiagnostic (.ofText t) place d).covered t = [c] := by
  obtain ⟨hlt, hchar⟩ := List.getElem?_eq_some_iff.1 hmarks.char
  have hone : min (d.span.start.column + 1) line.length - d.span.start.column = 1 := by omega
  rw [covered_of_line hline hsame, hmarks.width, List.extract_eq_take_drop, hone, List.drop_eq_getElem_cons hlt,
    hchar]
  rfl

/-- The marker shows the diagnostic `d`, the `i`th in its list, on the given line of the text. -/
structure Shows (m : Marker) (lt : Linter) (t : Text) (i : Nat) (d : Diagnostic) (line : Text) : Prop where
  diagnostic_eq : m.diagnostic = i
  style_eq : m.style = d.severity.style
  line_eq : t.lines[d.span.start.line]? = some line
  same_line : d.span.stop.line = d.span.start.line
  start_eq : m.start = Text.lineOffset t.lines d.span.start.line + min d.span.start.column line.length
  stop_eq : m.stop = Text.lineOffset t.lines d.span.start.line + min d.span.stop.column line.length
  covered_eq : m.covered t = line.extract d.span.start.column (min d.span.stop.column line.length)
  no_newline : '\n' ∉ m.covered t
  bracket : d.code.strand = .bracket →
    ∃ c, m.covered t = [c] ∧ d.MarksCode lt.language line c ∧ lt.language.isBracket c = true

end Marker

private theorem Diagnostic.Fits.marksCode {d : Diagnostic} {lt : Linter} {line : Text} (h : d.Fits lt line)
    (hcode : d.code.strand = .bracket) :
    ∃ c, d.MarksCode lt.language line c ∧ lt.language.isBracket c = true := by
  unfold Fits at h
  rcases (Code.strand_eq_bracket_iff d.code).1 hcode with hcode | hcode | hcode <;> rw [hcode] at h
  · obtain ⟨c, hmarks, hcloses, -⟩ := h
    exact ⟨c, hmarks, by simp [Language.isBracket, hcloses]⟩
  · obtain ⟨c, e, hmarks, hcloses, -⟩ := h
    exact ⟨c, hmarks, by simp [Language.isBracket, hcloses]⟩
  · obtain ⟨c, hmarks, hopens, -⟩ := h
    exact ⟨c, hmarks, by simp [Language.isBracket, hopens]⟩

namespace Marker

private theorem shows_of_anchored {lt : Linter} {t line : Text} {d : Diagnostic} (h : d.Anchored lt t.lines line)
    (i : Nat) : (ofDiagnostic (.ofText t) i d).Shows lt t i d line where
  diagnostic_eq := rfl
  style_eq := rfl
  line_eq := h.line_eq
  same_line := h.same_line
  start_eq := start_of_line h.line_eq i
  stop_eq := by
    have hordered := h.ordered
    rw [stop_of_line h.line_eq h.same_line, Nat.max_eq_right (by omega)]
  covered_eq := covered_of_line h.line_eq h.same_line i
  no_newline := newline_not_mem_covered h.same_line i
  bracket hcode := by
    obtain ⟨c, hmarks, hbracket⟩ := h.fits.marksCode hcode
    exact ⟨c, covered_of_marksCode h.line_eq h.same_line hmarks i, hmarks, hbracket⟩

/-- The markers of a text's own diagnostics show each of them on its line, in order.  The markers of any
diagnostics lie within the text, and within one line if their diagnostic does. -/
theorem ofDiagnostics_cover (lt : Linter) (t : Text) :
    (∀ (i : Nat) (d : Diagnostic), (lt.lint t)[i]? = some d →
      ∃ (m : Marker) (line : Text), (ofDiagnostics (.ofText t) (lt.lint t))[i]? = some m ∧ m.Shows lt t i d line) ∧
    ∀ ds : List Diagnostic, (ofDiagnostics (.ofText t) ds).length = ds.length ∧
      ∀ (i : Nat) (d : Diagnostic), ds[i]? = some d →
        ∃ m : Marker, (ofDiagnostics (.ofText t) ds)[i]? = some m ∧ m.start ≤ m.stop ∧
          m.stop ≤ (LineTable.ofText t).charCount ∧
          (d.span.start.line = d.span.stop.line → '\n' ∉ m.covered t) := by
  constructor
  · intro i d hd
    obtain ⟨line, hline⟩ : ∃ line, d.Anchored lt t.lines line := by
      rcases (Linter.mem_lint_iff lt).1 (List.mem_of_getElem? hd) with hmem | hmem | hmem
      · exact Linter.anchored_of_mem_bracketReport hmem
      · exact Linter.anchored_of_mem_blockReport hmem
      · exact Linter.anchored_of_mem_omissions hmem
    exact ⟨_, line, getElem?_ofDiagnostics _ hd, shows_of_anchored hline i⟩
  · intro ds
    refine ⟨List.length_mapIdx, ?_⟩
    intro i d hd
    refine ⟨_, getElem?_ofDiagnostics _ hd, Nat.le_max_left .., stop_le_charCount t i d, ?_⟩
    intro hsame
    exact newline_not_mem_covered hsame.symm i

/-- An unclosed block is marked on its line only, though its diagnostic is wider than the line. -/
theorem ofDiagnostics_cover_while :
    (Linter.default.lint "x = 1\nwhile ok\ny = 2".toList)[1]? =
        some ((Finding.unclosedBlock .whileDo).report (Span.inLine 1 0 10)) ∧
      ∃ (m : Marker) (line : Text), (ofDiagnostics (.ofText "x = 1\nwhile ok\ny = 2".toList)
          (Linter.default.lint "x = 1\nwhile ok\ny = 2".toList))[1]? = some m ∧
        m.Shows .default "x = 1\nwhile ok\ny = 2".toList 1
          ((Finding.unclosedBlock .whileDo).report (Span.inLine 1 0 10)) line :=
  ⟨by decide, (ofDiagnostics_cover .default _).1 1 _ (by decide)⟩

end Marker

end ScriptLint
