import ScriptLint.Proofs.Anchors
import ScriptLint.Proofs.Concatenation
import ScriptLint.Proofs.LineGrammar

/-!
# Blank margins

Blanks may be put before and behind the lines of a text, on each line others: the diagnostics stay the same, and
only their columns move with the lines (`lint_margins_lua`).  Indentation and carriage returns before line feeds
are of this kind.

The trimmed line does not change (`Text.trim_margins`), and everything that looks at it finds the same.  The scan
reads the whole line; blanks before a line move its brackets to the right (`Scan.brackets_run_blanks`,
`Scan.run_shift`) and blanks behind it add none (`Scan.brackets_run_append`).  This asks of the language that a
blank is neither a quote nor a bracket, and that a comment token neither starts nor ends with one.
-/

namespace ScriptLint

/-- Blanks for both sides of each line of a text, by the number of the line. -/
structure Margins where
  left : Nat → Text
  right : Nat → Text
  blank_left : ∀ i, ∀ c ∈ left i, isBlank c = true ∧ c ≠ '\n'
  blank_right : ∀ i, ∀ c ∈ right i, isBlank c = true ∧ c ≠ '\n'

namespace Margins

def line (m : Margins) (number : Nat) (t : Text) : Text := m.left number ++ t ++ m.right number

/-- The lines within their margins, where the first has the given number. -/
def lines (m : Margins) (number : Nat) (ts : List Text) : List Text :=
  (ts.zipIdx number).map fun x => m.line x.2 x.1

def text (m : Margins) (t : Text) : Text := Text.unlines (m.lines 0 t.lines)

theorem lines_cons (m : Margins) (number : Nat) (t : Text) (rest : List Text) :
    m.lines number (t :: rest) = m.line number t :: m.lines (number + 1) rest := by
  simp [lines]

private theorem lines_text (m : Margins) (t : Text) : (m.text t).lines = m.lines 0 t.lines := by
  apply Text.lines_unlines
  · simpa [lines] using t.lines_ne_nil
  · intro u hu
    obtain ⟨⟨s, i⟩, hs, rfl⟩ := List.mem_map.1 hu
    have hline : '\n' ∉ s := Text.newline_not_mem_of_mem_lines (List.fst_mem_of_mem_zipIdx hs)
    simp only [line, List.mem_append, not_or]
    exact ⟨⟨fun h => (m.blank_left i _ h).2 rfl, hline⟩, fun h => (m.blank_right i _ h).2 rfl⟩

end Margins

/-! ### Where diagnostics move -/

/-- The span with its ends moved to the right. -/
def Span.stretch (a b : Nat) (s : Span) : Span :=
  ⟨⟨s.start.line, s.start.column + a⟩, ⟨s.stop.line, s.stop.column + b⟩⟩

/-- How far the ends of a diagnostic with this code move when its line gets margins of the given widths. -/
def Code.stretch (left right : Nat) : Code → Nat × Nat
  | unexpectedClosingBracket | mismatchedBrackets | unclosedBracket => (left, left)
  | unexpectedEnd | unmatchedUntil | missingThen | missingDo => (0, left + right)
  | unclosedParameterList => (left, left + right)
  | unclosedBlock => (0, 0)

namespace Margins

variable (m : Margins)

/-- The diagnostic where it is found when the lines have got margins. -/
def diagnostic (d : Diagnostic) : Diagnostic :=
  let i := d.span.start.line
  let far := d.code.stretch (m.left i).length (m.right i).length
  d.move (Span.stretch far.1 far.2)

def position (p : Position) : Position := ⟨p.line, p.column + (m.left p.line).length⟩

end Margins

/-! ### Texts -/

namespace Text

variable {u t v : Text}

theorem trim_margins (hu : ∀ c ∈ u, isBlank c = true) (hv : ∀ c ∈ v, isBlank c = true) :
    trim (u ++ t ++ v) = trim t := by
  have hstart : trimStart (u ++ t ++ v) = trimStart (t ++ v) := by
    rw [List.append_assoc]
    exact List.dropWhile_append_of_pos hu
  rw [trim, trim, hstart, trimStart, trimStart, List.dropWhile_append]
  split
  · -- the line is blank, and so is all of it with its margins
    rename_i hblank
    rw [List.isEmpty_iff.1 hblank, List.dropWhile_eq_nil_iff.2 hv]
  · have hv' : ∀ c ∈ v.reverse, isBlank c = true := fun c hc => hv c (List.mem_reverse.1 hc)
    rw [trimEnd, trimEnd, List.reverse_append, List.dropWhile_append_of_pos hv']

private theorem indentation_margins (hu : ∀ c ∈ u, isBlank c = true) (ht : trim t ≠ []) :
    indentation (u ++ t ++ v) = u.length + indentation t := by
  have hshort : ¬(t.takeWhile isBlank).length = t.length := by
    intro hall
    have hblank : ∀ c ∈ t, isBlank c = true := by
      intro c hc
      rw [← List.IsPrefix.eq_of_length (List.takeWhile_prefix isBlank) hall] at hc
      exact List.mem_takeWhile_imp hc
    apply ht
    rw [trim, trimStart, List.dropWhile_eq_nil_iff.2 hblank]
    rfl
  rw [indentation, List.append_assoc, List.takeWhile_append_of_pos hu, List.takeWhile_append, if_neg hshort,
    List.length_append]
  rfl

end Text

/-! ### Languages that pass over blanks -/

/-- Blanks stand at neither end of the comment token, and are no quotes. -/
structure Language.BlanksArePlain (l : Language) : Prop where
  first : ∀ c, l.commentToken.head? = some c → isBlank c = false
  last : ∀ c, l.commentToken.getLast? = some c → isBlank c = false
  quote : ∀ c ∈ l.quotes, isBlank c = false

/-- Blanks are no brackets either. -/
structure Language.SkipsBlanks (l : Language) : Prop extends l.BlanksArePlain where
  bracket : ∀ c, l.isBracket c = true → isBlank c = false

namespace Language

theorem blanksArePlain_lua : lua.BlanksArePlain where
  first := by rintro c ⟨⟩; decide
  last := by rintro c ⟨⟩; decide
  quote := by
    intro c hc
    simp only [lua, List.mem_cons, List.not_mem_nil, or_false] at hc
    rcases hc with rfl | rfl <;> decide

theorem skipsBlanks_lua : lua.SkipsBlanks where
  toBlanksArePlain := blanksArePlain_lua
  bracket := by
    intro c hc
    simp only [isBracket, opens, closes, lua, List.any_cons, List.any_nil, Bool.or_false, Bool.or_eq_true,
      beq_iff_eq] at hc
    rcases hc with (rfl | rfl | rfl) | (rfl | rfl | rfl) <;> decide

variable {l : Language} {c : Char} {t v : Text}

/-- A comment token that does not start with a blank does not start at one. -/
theorem BlanksArePlain.startsComment_cons (hl : l.BlanksArePlain) (hc : isBlank c = true) :
    l.startsComment (c :: t) = false := by
  unfold startsComment
  cases htoken : l.commentToken with
  | nil => rfl
  | cons a rest =>
    have ha : a ≠ c := by
      rintro rfl
      have := hl.first a (by rw [htoken]; rfl)
      simp [hc] at this
    simp [List.isPrefixOf, ha]

/-- A comment token that does not end with a blank does not reach into blanks at the end of a line. -/
theorem BlanksArePlain.startsComment_append (hl : l.BlanksArePlain) (hv : ∀ c ∈ v, isBlank c = true) :
    l.startsComment (t ++ v) = l.startsComment t := by
  unfold startsComment
  by_cases hne : l.commentToken = []
  · simp [hne]
  congr 1
  rw [Bool.eq_iff_iff, List.isPrefixOf_iff_prefix, List.isPrefixOf_iff_prefix]
  refine ⟨fun h => ?_, List.prefix_append_of_prefix⟩
  by_cases hlen : l.commentToken.length ≤ t.length
  · exact List.prefix_of_prefix_length_le h (List.prefix_append t v) hlen
  · -- otherwise the token ends within the blanks
    obtain ⟨w, hw⟩ := List.prefix_of_prefix_length_le (List.prefix_append t v) h (by omega)
    have hwv : w <+: v := by
      rw [← hw] at h
      exact (List.prefix_append_right_inj t).1 h
    have hwne : w ≠ [] := by
      rintro rfl
      rw [List.append_nil] at hw
      exact hlen (by rw [hw])
    have hend : l.commentToken.getLast? = some (w.getLast hwne) := by
      rw [← hw, List.getLast?_append, List.getLast?_eq_some_getLast hwne]
      rfl
    have hblank := hv _ (hwv.subset (List.getLast_mem hwne))
    rw [hl.last _ hend] at hblank
    cases hblank

end Language

/-! ### Scans -/

namespace Scan

variable {l : Language} {u t v : Text}

theorem run_shift (m : Mode) (column n : Nat) (before : Option Char) (t : Text) :
    (run l m (column + n) before t).code = (run l m column before t).code.map fun x => (x.1 + n, x.2) := by
  induction t generalizing m column before with
  | nil => rfl
  | cons c t ih =>
    have hnext : column + n + 1 = column + 1 + n := by omega
    unfold run
    simp only [hnext]
    split
    · rfl
    · exact ih ..
    · simp [ih]

/-- Blanks at the start of a line are code, and no brackets. -/
theorem brackets_run_blanks (hl : l.SkipsBlanks) (hu : ∀ c ∈ u, isBlank c = true) (column : Nat)
    (before : Option Char) (t : Text) :
    ((run l .code column before (u ++ t)).code.filter fun x => l.isBracket x.2) =
      (run l .code (column + u.length) none t).code.filter fun x => l.isBracket x.2 := by
  induction u generalizing column before with
  | nil => rw [List.nil_append, run_code_before l column before none]; rfl
  | cons c u ih =>
    have hc : isBlank c = true := hu c (List.mem_cons_self ..)
    have htoken := hl.startsComment_cons (t := u ++ t) hc
    have hquote : l.isQuote c = false := by
      rw [Bool.eq_false_iff]
      intro h
      simp [hl.quote c (List.contains_iff_mem.1 h)] at hc
    have hbracket : l.isBracket c = false := by
      rw [Bool.eq_false_iff]
      intro h
      simp [hl.bracket c h] at hc
    have hrest := ih (fun a ha => hu a (List.mem_cons_of_mem _ ha)) (column + 1) (some c)
    have hlen : column + (c :: u).length = column + 1 + u.length := by rw [List.length_cons]; omega
    rw [hlen, ← hrest, List.cons_append]
    simp [run, Mode.read, Mode.readPlain, Mode.quote?, htoken, hquote, hbracket]

/-- Blanks at the end of a line bring no brackets, in whatever mode they are read. -/
theorem brackets_run_append (hl : l.SkipsBlanks) (hv : ∀ c ∈ v, isBlank c = true) (m : Mode) (column : Nat)
    (before : Option Char) (t : Text) :
    ((run l m column before (t ++ v)).code.filter fun x => l.isBracket x.2) =
      (run l m column before t).code.filter fun x => l.isBracket x.2 := by
  induction t generalizing m column before with
  | nil =>
    have hnone : ∀ x ∈ (run l m column before v).code, ¬l.isBracket x.2 = true := by
      rintro ⟨k, c⟩ hx hbracket
      have hchar := (getElem?_of_mem_run hx).2
      have hblank := hv _ (List.mem_of_getElem? hchar)
      rw [hl.bracket _ hbracket] at hblank
      cases hblank
    rw [List.nil_append, List.filter_eq_nil_iff.2 hnone]
    rfl
  | cons c t ih =>
    have hread : m.read l before c (t ++ v) = m.read l before c t := by
      have htoken := hl.startsComment_append (t := c :: t) hv
      rw [List.cons_append] at htoken
      unfold Mode.read
      rw [htoken]
    rw [List.cons_append]
    unfold run
    simp only [hread]
    split
    · rfl
    · exact ih ..
    · simp only [List.filter_cons, ih]

private theorem brackets_ofLine_margins (hl : l.SkipsBlanks) (hu : ∀ c ∈ u, isBlank c = true)
    (hv : ∀ c ∈ v, isBlank c = true) (t : Text) :
    ((ofLine l (u ++ t ++ v)).code.filter fun x => l.isBracket x.2) =
      ((ofLine l t).code.filter fun x => l.isBracket x.2).map fun x => (x.1 + u.length, x.2) := by
  rw [ofLine, ofLine, brackets_run_append hl hv, brackets_run_blanks hl hu, run_shift, List.filter_map]
  rfl

end Scan

/-! ### The readers -/

namespace Margins

variable (m : Margins)

private theorem blank_of_mem_left {i : Nat} :
    ∀ c ∈ m.left i, isBlank c = true := fun c hc => (m.blank_left i c hc).1

private theorem blank_of_mem_right {i : Nat} :
    ∀ c ∈ m.right i, isBlank c = true := fun c hc => (m.blank_right i c hc).1

private theorem length_line (number : Nat) (t : Text) :
    (m.line number t).length = t.length + ((m.left number).length + (m.right number).length) := by
  simp only [line, List.length_append]
  omega

private theorem brackets_codeOf {l : Language} (hl : l.SkipsBlanks) (number : Nat) (t : Text) :
    ((Linter.codeOf l number (m.line number t)).filter fun x => l.isBracket x.1) =
      ((Linter.codeOf l number t).filter fun x => l.isBracket x.1).map fun x => (x.1, m.position x.2) := by
  have h := Scan.brackets_ofLine_margins hl (m.blank_of_mem_left (i := number))
    (m.blank_of_mem_right (i := number)) t
  simp only [Linter.codeOf, List.filter_map, List.map_map, Function.comp_def] at h ⊢
  rw [line, h, List.map_map]
  rfl

private theorem cell_position (p : Position) :
    p.cell.stretch (m.left p.line).length (m.left p.line).length = (m.position p).cell := by
  simp only [Position.cell, Span.stretch, Span.inLine, position, Span.mk.injEq, Position.mk.injEq, true_and]
  omega

private theorem readAll_margins {l : Language} (hl : l.SkipsBlanks) (s : BracketStack) (number : Nat) (t : Text) :
    (s.move m.position).readAll l (Linter.codeOf l number (m.line number t)) =
      ((s.readAll l (Linter.codeOf l number t)).1.move m.position,
       (s.readAll l (Linter.codeOf l number t)).2.map m.diagnostic) := by
  have hmove := BracketStack.readAll_move (l := l) (f := m.position)
    (g := fun s => s.stretch (m.left s.start.line).length (m.left s.start.line).length) m.cell_position s
    ((Linter.codeOf l number t).filter fun x => l.isBracket x.1)
  have hcodes : ∀ d ∈ (s.readAll l (Linter.codeOf l number t)).2,
      d.move (fun s => s.stretch (m.left s.start.line).length (m.left s.start.line).length) = m.diagnostic d := by
    intro d hd
    obtain ⟨x, -, s', hd'⟩ := BracketStack.mem_readAll hd
    obtain ⟨-, -, ⟨-, rfl⟩ | ⟨b, rest, -, -, rfl⟩⟩ := BracketStack.mem_read hd' <;> rfl
  rw [← BracketStack.readAll_filter, m.brackets_codeOf hl, hmove, BracketStack.readAll_filter,
    List.map_congr_left hcodes]

private theorem readLine_margins (s : BlockStack) (number length : Nat) (trimmed : Text) (isComment : Bool) :
    s.readLine number (length + ((m.left number).length + (m.right number).length)) trimmed isComment =
      ((s.readLine number length trimmed isComment).1,
       (s.readLine number length trimmed isComment).2.map m.diagnostic) := by
  unfold BlockStack.readLine
  generalize s.openAll number (if isComment then [] else Keyword.allIn trimmed) = s'
  unfold BlockStack.close
  split
  · split <;> rfl
  · split
    · split <;> rfl
    · rfl

private theorem trim_line (number : Nat) (t : Text) : (m.line number t).trim = t.trim :=
  Text.trim_margins m.blank_of_mem_left m.blank_of_mem_right

private theorem view_margins (l : Language) (number : Nat) (t : Text) :
    Linter.view l number (m.line number t) = { Linter.view l number t with text := m.line number t } := by
  simp only [Linter.view, m.trim_line]

private theorem parenColumn_margins {l : Language} {number : Nat} {t : Text}
    (hlacks : (Linter.view l number t).lacksParameterEnd = true) :
    (Linter.view l number (m.line number t)).parenColumn =
      (Linter.view l number t).parenColumn + (m.left number).length := by
  have hne : t.trim ≠ [] := by
    intro hnil
    simp [LineView.lacksParameterEnd, Linter.view, hnil] at hlacks
  have hindent : (m.line number t).indentation = (m.left number).length + t.indentation :=
    Text.indentation_margins m.blank_of_mem_left hne
  simp only [LineView.parenColumn, Linter.view, m.trim_line, hindent]
  omega

private theorem omissions_margins (l : Language) (rules : Rules) (number : Nat) (t : Text) :
    (Linter.view l number (m.line number t)).omissions rules =
      ((Linter.view l number t).omissions rules).map m.diagnostic := by
  -- the three tests look at the trimmed line only
  have hend : (Linter.view l number (m.line number t)).lacksParameterEnd =
      (Linter.view l number t).lacksParameterEnd := by rw [view_margins]; rfl
  have hthen : (Linter.view l number (m.line number t)).lacksThen = (Linter.view l number t).lacksThen := by
    rw [view_margins]; rfl
  have hdo : (Linter.view l number (m.line number t)).lacksDo = (Linter.view l number t).lacksDo := by
    rw [view_margins]; rfl
  have hlen : (Linter.view l number (m.line number t)).text.length =
      (Linter.view l number t).text.length + ((m.left number).length + (m.right number).length) :=
    m.length_line number t
  simp only [LineView.omissions, List.map_append, hend, hthen, hdo, LineView.whole, hlen]
  congr 1
  · congr 1
    · split
      · rename_i hlacks
        rw [m.parenColumn_margins (Bool.and_eq_true_iff.1 hlacks).2]
        rfl
      · rfl
    · split <;> rfl
  · split <;> rfl

/-! ### Lines -/

/-- What is open, where it is found when the lines have got margins. -/
def nesting (s : Nesting) : Nesting := ⟨s.brackets.move m.position, s.blocks⟩

variable (lt : Linter) (hl : lt.language.SkipsBlanks)
include hl

/-- One line: the same diagnostics, moved with the line. -/
theorem lintLine_margins (s : Nesting) (number : Nat) (t : Text) :
    lt.lintLine (m.nesting s) number (m.line number t) =
      (m.nesting (lt.lintLine s number t).1, (lt.lintLine s number t).2.map m.diagnostic) := by
  have hbrackets := m.readAll_margins hl s.brackets number t
  have hblocks := m.readLine_margins s.blocks number t.length t.trim (lt.language.startsComment t.trim)
  simp only [Linter.lintLine, m.omissions_margins, List.map_append]
  simp only [nesting, Linter.view, m.trim_line, m.length_line, hbrackets, hblocks]
  cases (s.blocks.readLine number t.length t.trim (lt.language.startsComment t.trim)).2 <;> rfl

/-- Many lines: induction on the lines, with the stacks and the number of the first line left open. -/
theorem lintLines_margins (s : Nesting) (number : Nat) (ts : List Text) :
    lt.lintLines (m.nesting s) number (m.lines number ts) =
      (m.nesting (lt.lintLines s number ts).1, (lt.lintLines s number ts).2.map m.diagnostic) := by
  induction ts generalizing s number with
  | nil => rfl
  | cons t rest ih =>
    simp only [m.lines_cons, Linter.lintLines, m.lintLine_margins lt hl, ih, List.map_append]

omit hl in
private theorem finish_margins (s : Nesting) : lt.finish (m.nesting s) = (lt.finish s).map m.diagnostic := by
  have hbrackets : (s.brackets.move m.position).unclosed lt.rules.blockWidth =
      (s.brackets.unclosed lt.rules.blockWidth).map m.diagnostic := by
    apply OpenStack.unclosed_map
    intro b
    have hcell := m.cell_position b.position
    exact congrArg (Finding.unclosedBracket b.opener).report hcell.symm
  have hblocks :
      (s.blocks.unclosed lt.rules.blockWidth).map m.diagnostic = s.blocks.unclosed lt.rules.blockWidth := by
    rw [OpenStack.unclosed, List.map_map]
    rfl
  rw [Linter.finish, Linter.finish, List.map_append, ← hbrackets, hblocks]
  rfl

private theorem lint_margins (t : Text) : lt.lint (m.text t) = (lt.lint t).map m.diagnostic := by
  have hlines := m.lintLines_margins lt hl .none 0 t.lines
  have hnone : m.nesting .none = .none := rfl
  rw [hnone] at hlines
  rw [Linter.lint, Linter.lint, m.lines_text, hlines, m.finish_margins, List.map_append]

end Margins

namespace Linter

private theorem start_column_of_mem_lint {lt : Linter} {text : Text} {d : Diagnostic} (hd : d ∈ lt.lint text)
    (hcode : d.code ∈ [Code.unexpectedEnd, .unmatchedUntil, .missingThen, .missingDo]) :
    d.span.start.column = 0 := by
  obtain ⟨line, hline⟩ : ∃ line, d.Anchored lt text.lines line := by
    rcases (mem_lint_iff lt).1 hd with hd | hd | hd
    · exact anchored_of_mem_bracketReport hd
    · exact anchored_of_mem_blockReport hd
    · exact anchored_of_mem_omissions hd
  have hfits := hline.fits
  simp only [List.mem_cons, List.not_mem_nil, or_false] at hcode
  unfold Diagnostic.Fits at hfits
  rcases hcode with hcode | hcode | hcode | hcode <;> rw [hcode] at hfits <;> exact hfits.1

/-- For Lua, margins move the diagnostics of a text as their codes ask, and change nothing else about them.  Those
that mark a whole line start in its first column, with margins and without. -/
theorem lint_margins_lua (rules : Rules) (m : Margins) (text : Text) :
    lint ⟨.lua, rules, Language.fault?_lua⟩ (m.text text) =
        (lint ⟨.lua, rules, Language.fault?_lua⟩ text).map m.diagnostic ∧
      ∀ d ∈ lint ⟨.lua, rules, Language.fault?_lua⟩ text,
        d.code ∈ [Code.unexpectedEnd, .unmatchedUntil, .missingThen, .missingDo] → d.span.start.column = 0 :=
  ⟨m.lint_margins ⟨.lua, rules, Language.fault?_lua⟩ Language.skipsBlanks_lua text,
    fun _ hd hcode => start_column_of_mem_lint hd hcode⟩

/-- Each line is indented by as many wide spaces as its number says, and ends in a carriage return. -/
def stairs : Margins where
  left i := List.replicate i '\u3000'
  right _ := ['\r']
  blank_left i c hc := by rw [List.eq_of_mem_replicate hc]; decide
  blank_right i c hc := by rw [List.mem_singleton.1 hc]; decide

theorem lint_margins_lua_stairs :
    lint ⟨.lua, {}, Language.fault?_lua⟩ (stairs.text "(\nend\nfunction f(".toList) =
      [Finding.unexpectedEnd.report (Span.inLine 1 0 5),
       Finding.unclosedParameterList.report (Span.inLine 2 12 14),
       (Finding.unclosedBracket '(').report (Span.inLine 0 0 1),
       (Finding.unclosedBracket '(').report (Span.inLine 2 12 13),
       (Finding.unclosedBlock .function).report (Span.inLine 2 0 10)] :=
  (lint_margins_lua {} stairs _).1.trans (by decide)

end Linter

end ScriptLint
