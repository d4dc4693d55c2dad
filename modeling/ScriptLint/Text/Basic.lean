import ScriptLint.Text.Blank

/-!
# Texts

A text is the list of its characters, so every column, length and offset counts characters.  This module has the
few ways in which texts are taken apart: into lines, into words, by trimming, and by looking for a piece.

* `Text.lines` cuts at line feeds only and never gives an empty list.
* `Text.words` gives the maximal runs of ASCII letters, digits and underscores (and empty runs between them).
-/

namespace ScriptLint

/-- A text, as the list of its characters. -/
abbrev Text := List Char

namespace Text

/-! ### Trimming -/

/-- The text without the blanks at its start. -/
def trimStart (t : Text) : Text := t.dropWhile isBlank

/-- The text without the blanks at its end. -/
def trimEnd (t : Text) : Text := (t.reverse.dropWhile isBlank).reverse

/-- The text without the blanks at both ends. -/
def trim (t : Text) : Text := trimEnd (trimStart t)

/-- The number of blanks at the start of the text. -/
def indentation (t : Text) : Nat := (t.takeWhile isBlank).length

/-! ### Lines -/

/-- The lines of a text: the pieces between line feeds. -/
def lines (t : Text) : List Text := t.splitOn '\n'

theorem lines_append_newline (s t : Text) : lines (s ++ '\n' :: t) = lines s ++ lines t :=
  List.splitOn_append_cons_self s t

theorem lines_ne_nil (t : Text) : lines t ≠ [] := by
  simp [lines]

theorem newline_not_mem_of_mem_lines {t line : Text} (h : line ∈ lines t) : '\n' ∉ line := by
  induction t generalizing line with
  | nil =>
    rw [lines, List.splitOn_nil, List.mem_singleton] at h
    simp [h]
  | cons c t ih =>
    rw [lines, List.splitOn_cons_eq_if_modifyHead] at h
    split at h
    · rcases List.mem_cons.1 h with rfl | h
      · exact List.not_mem_nil
      · exact ih h
    · rename_i hc
      -- `c` joins the first of the lines that follow
      obtain ⟨first, rest, hlines⟩ := List.exists_cons_of_ne_nil (lines_ne_nil t)
      rw [lines] at hlines
      rw [hlines, List.modifyHead_cons] at h
      rcases List.mem_cons.1 h with rfl | h
      · have hfirst : '\n' ∉ first := ih (by rw [lines, hlines]; exact List.mem_cons_self ..)
        simp only [beq_iff_eq] at hc
        simp [hfirst, Ne.symm hc]
      · exact ih (by rw [lines, hlines]; exact List.mem_cons_of_mem _ h)

/-- The text with the given lines. -/
def unlines (lines : List Text) : Text := ['\n'].intercalate lines

theorem lines_unlines {ts : List Text} (hne : ts ≠ []) (h : ∀ t ∈ ts, '\n' ∉ t) : (unlines ts).lines = ts :=
  List.splitOn_intercalate '\n' h hne

/-! ### Words -/

/-- The characters that words are made of: ASCII letters and digits, and the underscore. -/
def isWordChar (c : Char) : Bool := c.isAlphanum || c == '_'

/-- The runs of word characters of a text, empty ones included where two other characters meet. -/
def words (t : Text) : List Text := t.splitOnP fun c => !isWordChar c

/-! ### Pieces -/

/-- Does `piece` occur in the text? -/
def includes (t piece : Text) : Bool :=
  match t with
  | [] => piece.isEmpty
  | c :: rest => piece.isPrefixOf (c :: rest) || includes rest piece

end Text

end ScriptLint
