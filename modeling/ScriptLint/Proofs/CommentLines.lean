import ScriptLint.Proofs.BlankMargins
import ScriptLint.Proofs.DiscoveryOrder

/-!
# Comment lines

A line that is only a comment may be emptied: all diagnostics stay as they are, but for the open parameter lists
that were found on such lines (`lint_comments_emptied`).

A comment line leaves both stacks as they are and says nothing but this (`lintLine_comment`).  It passes three
readers, and each for a reason of its own.  The scan finds the comment token behind the blanks of the untrimmed
line, so no bracket is code; the keywords of a comment line are not looked for, and a closing word does not start
with a comment token; and of the omissions only the parameter list is looked for on comment lines.
-/

namespace ScriptLint

namespace Text

/-- The lines with the chosen ones emptied, where the first has the given number. -/
def emptied (chosen : Nat → Bool) (number : Nat) : List Text → List Text
  | [] => []
  | t :: rest => (if chosen number then [] else t) :: emptied chosen (number + 1) rest

/-- The text with the chosen lines emptied. -/
def emptyLines (chosen : Nat → Bool) (text : Text) : Text := unlines (emptied chosen 0 text.lines)

private theorem newline_not_mem_of_mem_emptied {chosen : Nat → Bool} {number : Nat} {lines : List Text}
    (hlines : ∀ t ∈ lines, '\n' ∉ t) {u : Text} (hu : u ∈ emptied chosen number lines) : '\n' ∉ u := by
  induction lines generalizing number with
  | nil => cases hu
  | cons t rest ih =>
    rcases List.mem_cons.1 hu with rfl | hu
    · split
      · exact List.not_mem_nil
      · exact hlines t (List.mem_cons_self ..)
    · exact ih (fun t ht => hlines t (List.mem_cons_of_mem _ ht)) hu

private theorem lines_emptyLines (chosen : Nat → Bool) (text : Text) :
    (text.emptyLines chosen).lines = emptied chosen 0 text.lines := by
  apply lines_unlines
  · cases hlines : text.lines with
    | nil => exact absurd hlines text.lines_ne_nil
    | cons t rest => exact List.cons_ne_nil _ _
  · intro u hu
    exact newline_not_mem_of_mem_emptied (fun t ht => newline_not_mem_of_mem_lines ht) hu

end Text

/-- No closing word starts with the comment token. -/
def Language.SparesClosingWords (l : Language) : Prop :=
  l.startsComment "end".toList = false ∧ l.startsComment "until".toList = false

private theorem Language.sparesClosingWords_lua : lua.SparesClosingWords := ⟨rfl, rfl⟩

/-- Does the diagnostic stay when the chosen lines are emptied?  An open parameter list on one of them does not. -/
def Diagnostic.outlives (chosen : Nat → Bool) (d : Diagnostic) : Bool :=
  !(d.code = .unclosedParameterList && chosen d.start.line)

/-! ### The readers on a comment line -/

theorem Scan.brackets_of_comment {l : Language} (hl : l.SkipsBlanks) {t : Text}
    (ht : l.startsComment t.trim = true) : ((ofLine l t).code.filter fun x => l.isBracket x.2) = [] := by
  obtain ⟨blanks, hsplit, hblanks⟩ := t.trim_split
  have hstart : l.startsComment (t.trim ++ blanks) = true := by rw [hl.startsComment_append hblanks, ht]
  have hrun : ∀ column, (run l .code column none (t.trim ++ blanks)).code = [] := by
    intro column
    cases hrest : t.trim ++ blanks with
    | nil => rfl
    | cons c rest =>
      rw [hrest] at hstart
      simp [run, Mode.read, Mode.quote?, hstart]
  rw [ofLine, hsplit, brackets_run_blanks hl fun c hc => List.mem_takeWhile_imp hc, hrun]
  rfl

private theorem BracketStack.readAll_comment {l : Language} (hl : l.SkipsBlanks) (s : BracketStack) (number : Nat)
    {t : Text} (ht : l.startsComment t.trim = true) : s.readAll l (Linter.codeOf l number t) = (s, []) := by
  have hnone : ((Linter.codeOf l number t).filter fun x => l.isBracket x.1) = [] := by
    have hbrackets := Scan.brackets_of_comment hl ht
    rw [List.filter_eq_nil_iff] at hbrackets ⊢
    intro x hx
    obtain ⟨y, hy, rfl⟩ := List.mem_map.1 hx
    exact hbrackets y hy
  rw [← readAll_filter, hnone]
  rfl

private theorem BlockStack.readLine_comment {l : Language} (hl : l.SparesClosingWords) (s : BlockStack)
    (number length : Nat) {trimmed : Text} (ht : l.startsComment trimmed = true) :
    s.readLine number length trimmed true = (s, none) := by
  have he : trimmed ≠ "end".toList := by
    rintro rfl
    rw [hl.1] at ht
    cases ht
  have hu : trimmed ≠ "until".toList := by
    rintro rfl
    rw [hl.2] at ht
    cases ht
  exact close_other he hu

private theorem LineView.code_omissions_comment {v : LineView} (hv : v.isComment = true) (rules : Rules) :
    ∀ d ∈ v.omissions rules, d.code = .unclosedParameterList := by
  intro d hd
  have hthen : v.lacksThen = false := by simp [lacksThen, hv]
  have hdo : v.lacksDo = false := by simp [lacksDo, hv]
  simp only [omissions, hthen, hdo, Bool.and_false, Bool.false_eq_true, ↓reduceIte, List.append_nil,
    List.mem_ite_nil_right, List.mem_singleton] at hd
  rw [hd.2]
  rfl

namespace Linter

variable (lt : Linter)

theorem lintLine_comment (hblanks : lt.language.SkipsBlanks) (hwords : lt.language.SparesClosingWords)
    (s : Nesting) (number : Nat) {t : Text} (ht : lt.language.startsComment t.trim = true) :
    (lt.lintLine s number t).1 = s ∧ ∀ d ∈ (lt.lintLine s number t).2, d.code = .unclosedParameterList := by
  have hbrackets := s.brackets.readAll_comment hblanks number ht
  have hblocks := s.blocks.readLine_comment hwords number t.length ht
  simp only [lintLine, view, hbrackets, ht, hblocks, Option.toList_none, List.append_nil, List.nil_append, true_and]
  exact LineView.code_omissions_comment rfl lt.rules

variable (hblanks : lt.language.SkipsBlanks) (hwords : lt.language.SparesClosingWords) {chosen : Nat → Bool}
include hblanks hwords

/-- One line: if it is emptied it is a comment line, and what it says goes. -/
theorem lintLine_emptied (s : Nesting) (number : Nat) {t : Text}
    (ht : chosen number = true → lt.language.startsComment t.trim = true) :
    lt.lintLine s number (if chosen number then [] else t) =
      ((lt.lintLine s number t).1, (lt.lintLine s number t).2.filter (Diagnostic.outlives chosen)) := by
  have hline : ∀ d ∈ (lt.lintLine s number t).2, d.start.line = number := fun d hd => lt.line_of_mem_lintLine hd
  by_cases hchosen : chosen number = true
  · obtain ⟨hstacks, hcodes⟩ := lt.lintLine_comment hblanks hwords s number (ht hchosen)
    have hgone : (lt.lintLine s number t).2.filter (Diagnostic.outlives chosen) = [] := by
      rw [List.filter_eq_nil_iff]
      intro d hd
      simp [Diagnostic.outlives, hcodes d hd, hline d hd, hchosen]
    rw [if_pos hchosen, lintLine_nil, hstacks, hgone]
  · have hstay : (lt.lintLine s number t).2.filter (Diagnostic.outlives chosen) = (lt.lintLine s number t).2 := by
      rw [List.filter_eq_self]
      intro d hd
      simp [Diagnostic.outlives, hline d hd, hchosen]
    rw [if_neg hchosen, hstay]

/-- Many lines: both runs have the same stacks before every line. -/
theorem lintLines_emptied (s : Nesting) (number : Nat) {lines : List Text}
    (hlines : ∀ x ∈ lines.zipIdx number, chosen x.2 = true → lt.language.startsComment x.1.trim = true) :
    lt.lintLines s number (Text.emptied chosen number lines) =
      ((lt.lintLines s number lines).1, (lt.lintLines s number lines).2.filter (Diagnostic.outlives chosen)) := by
  induction lines generalizing s number with
  | nil => rfl
  | cons t rest ih =>
    rw [List.zipIdx_cons] at hlines
    have hfirst : chosen number = true → lt.language.startsComment t.trim = true :=
      hlines (t, number) (List.mem_cons_self ..)
    have hrest := ih (lt.lintLine s number t).1 (number + 1) fun x hx => hlines x (List.mem_cons_of_mem _ hx)
    simp only [Text.emptied, lintLines, lt.lintLine_emptied hblanks hwords s number hfirst, hrest,
      List.filter_append]

private theorem lint_emptyLines {text : Text}
    (hlines : ∀ i t, text.lines[i]? = some t → chosen i = true → lt.language.startsComment t.trim = true) :
    lt.lint (text.emptyLines chosen) = (lt.lint text).filter (Diagnostic.outlives chosen) := by
  have hrun := lt.lintLines_emptied hblanks hwords .none 0 fun x hx =>
    hlines x.2 x.1 (List.mem_zipIdx_iff_getElem?.1 hx)
  have hfinish : (lt.finish (lt.lintLines .none 0 text.lines).1).filter (Diagnostic.outlives chosen) =
      lt.finish (lt.lintLines .none 0 text.lines).1 := by
    rw [List.filter_eq_self]
    intro d hd
    have hcode : d.code ≠ .unclosedParameterList := by
      rcases List.mem_append.1 hd with hd | hd
      · rw [BracketStack.code_unclosed _ _ d hd]; decide
      · rw [BlockStack.code_unclosed _ _ d hd]; decide
    simp [Diagnostic.outlives, hcode]
  rw [lint, Text.lines_emptyLines, hrun, lint, List.filter_append, hfinish]

omit hblanks hwords

/-- For Lua, emptying comment lines takes away the open parameter lists found on them, and changes nothing else. -/
theorem lint_comments_emptied (rules : Rules) (text : Text) (chosen : Nat → Bool)
    (h : ∀ i t, text.lines[i]? = some t → chosen i = true → "--".toList <+: t.trim) :
    lint ⟨.lua, rules, Language.fault?_lua⟩ (text.emptyLines chosen) =
      (lint ⟨.lua, rules, Language.fault?_lua⟩ text).filter
        fun d => !(d.code = .unclosedParameterList && chosen d.start.line) := by
  refine lint_emptyLines ⟨.lua, rules, Language.fault?_lua⟩ Language.skipsBlanks_lua
    Language.sparesClosingWords_lua fun i t ht hi => ?_
  have hstarts : Language.lua.commentToken.isPrefixOf t.trim = true := List.isPrefixOf_iff_prefix.2 (h i t ht hi)
  rw [Language.startsComment, hstarts]
  rfl

/-- The second line and the fourth start open parameter lists, and only the second is emptied. -/
theorem lint_comments_emptied_second :
    (∀ i t, (Text.lines "if (\n --function f(\n)\n--function g(".toList)[i]? = some t → (i == 1) = true →
        "--".toList <+: t.trim) ∧
      lint ⟨.lua, {}, Language.fault?_lua⟩
          (Text.emptyLines (· == 1) "if (\n --function f(\n)\n--function g(".toList) =
        [Finding.missingThen.report (Span.inLine 0 0 4),
         Finding.unclosedParameterList.report (Span.inLine 3 12 13),
         (Finding.unclosedBlock .ifThen).report (Span.inLine 0 0 10)] := by
  have hcomment : ∀ i t, (Text.lines "if (\n --function f(\n)\n--function g(".toList)[i]? = some t →
      (i == 1) = true → "--".toList <+: t.trim := by
    intro i t ht hi
    obtain rfl : i = 1 := by simpa using hi
    obtain rfl : " --function f(".toList = t := Option.some.inj ht
    decide
  exact ⟨hcomment, (lint_comments_emptied {} _ _ hcomment).trans (by decide)⟩

end Linter

end ScriptLint
