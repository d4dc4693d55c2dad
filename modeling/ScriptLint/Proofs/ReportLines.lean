import ScriptLint.Command.Run
import ScriptLint.Proofs.Anchors
import ScriptLint.Proofs.LineOffsets

/-!
# The lines of a text report

A text report is meant to have one line for each diagnostic, and one line more (`Report.OneLineEach`).  It has them
exactly when no path and no message holds a line feed (`Report.oneLineEach_iff`).

Messages quote brackets (`BracketStack.quoted_of_mem_report`).  Those that were read are no line feeds, since lines
hold none; but the closer that an open bracket asks for comes from the description of the language, and there a
line feed is allowed.  So the lines are right for all texts unless a bracket can wait for a line feed and meet
another closer (`Linter.oneLineEach_iff_not_missesLineFeed`), and `textForm_breaks_line` is a report that is wrong.
-/

namespace ScriptLint

/-! ### Texts made of ended lines -/

namespace Text

/-- The text in which each of the given texts is followed by a line feed. -/
def ended (ts : List Text) : Text := ts.flatMap (· ++ ['\n'])

private theorem ended_cons (t : Text) (ts : List Text) : ended (t :: ts) = t ++ '\n' :: ended ts := by
  simp [ended]

private theorem length_le_count_ended (ts : List Text) : ts.length ≤ (ended ts).count '\n' := by
  induction ts with
  | nil => exact Nat.zero_le _
  | cons t ts ih =>
    rw [ended_cons, List.count_append, List.count_cons_self, List.length_cons]
    omega

private theorem count_ended_iff (ts : List Text) : (ended ts).count '\n' = ts.length ↔ ∀ t ∈ ts, '\n' ∉ t := by
  induction ts with
  | nil => simp [ended]
  | cons t ts ih =>
    have hle := length_le_count_ended ts
    have hzero : t.count '\n' = 0 ↔ '\n' ∉ t := List.count_eq_zero
    rw [ended_cons, List.count_append, List.count_cons_self, List.length_cons, List.forall_mem_cons, ← ih, ← hzero]
    omega

private theorem lines_ended {ts : List Text} (h : ∀ t ∈ ts, '\n' ∉ t) : lines (ended ts) = ts ++ [[]] := by
  induction ts with
  | nil => rfl
  | cons t ts ih =>
    rw [ended_cons, lines_cons (h t (List.mem_cons_self ..)), ih fun u hu => h u (List.mem_cons_of_mem _ hu)]
    rfl

end Text

/-! ### Reports -/

namespace Report

/-- The diagnostics of reports in order, each with the path of its report. -/
def rows (reports : List Report) : List (String × Diagnostic) :=
  reports.flatMap fun r => r.diagnostics.map fun d => (r.path, d)

/-- The text form has one line for each diagnostic, in order, and one more. -/
structure OneLineEach (reports : List Report) : Prop where
  count : (textForm reports).toList.count '\n' = (rows reports).length + 1
  line : ∀ (k : Nat) (path : String) (d : Diagnostic), (rows reports)[k]? = some (path, d) →
    (Text.lines (textForm reports).toList)[k]? =
      some (path ++ ":" ++ Nat.repr (d.start.line + 1) ++ ":" ++ Nat.repr (d.start.column + 1) ++ ": " ++
        d.severity.name ++ "[" ++ d.code.name ++ "]: " ++ d.message).toList

private theorem textLines_eq (reports : List Report) :
    textLines reports = (rows reports).map (fun x => diagnosticLine x.1 x.2) ++ [totalsLine reports] := by
  simp only [textLines, rows, List.map_flatMap, List.map_map]
  rfl

private theorem toList_textForm (reports : List Report) :
    (textForm reports).toList = Text.ended ((textLines reports).map String.toList) := by
  simp [textForm, Text.ended, String.toList_join, List.flatMap_map]

private theorem oneLineEach_iff_textLines (reports : List Report) :
    OneLineEach reports ↔ ∀ t ∈ textLines reports, '\n' ∉ t.toList := by
  have hlength : ((textLines reports).map String.toList).length = (rows reports).length + 1 := by
    rw [textLines_eq]
    simp
  have hcount := Text.count_ended_iff ((textLines reports).map String.toList)
  rw [← toList_textForm, hlength, List.forall_mem_map] at hcount
  refine ⟨fun h => hcount.1 h.count, fun h => ⟨hcount.2 h, fun k path d hrow => ?_⟩⟩
  have hk : k < (rows reports).length := (List.getElem?_eq_some_iff.1 hrow).1
  have hline : (textLines reports)[k]? = some (diagnosticLine path d) := by
    rw [textLines_eq, List.getElem?_append_left (by simpa using hk), List.getElem?_map, hrow]
    rfl
  rw [toList_textForm, Text.lines_ended (List.forall_mem_map.2 h), List.getElem?_append_left (by rw [hlength]; omega),
    List.getElem?_map, hline]
  rfl

/-! ### Where line feeds can come from -/

theorem newline_not_mem_toDigits (n : Nat) : '\n' ∉ Nat.toDigits 10 n := by
  intro h
  have hdigit : Char.isDigit '\n' = true := Nat.isDigit_of_mem_toDigits (by omega) (by omega) h
  revert hdigit
  decide

private theorem newline_mem_diagnosticLine_iff (path : String) (d : Diagnostic) :
    '\n' ∈ (diagnosticLine path d).toList ↔ '\n' ∈ path.toList ∨ '\n' ∈ d.message.toList := by
  have hseverity : '\n' ∉ d.severity.name.toList := by cases d.severity <;> decide
  have hcode : '\n' ∉ d.code.name.toList := by cases d.code <;> decide
  simp [diagnosticLine, newline_not_mem_toDigits, hseverity, hcode]

private theorem newline_not_mem_totalsLine (reports : List Report) : '\n' ∉ (totalsLine reports).toList := by
  have hplural : ∀ n, '\n' ∉ (pluralEnding n).toList := by
    intro n
    unfold pluralEnding
    split <;> decide
  have htotals : '\n' ∉ (totals reports).describe.toList := by
    unfold Summary.describe
    split
    · decide
    · simp [newline_not_mem_toDigits, hplural]
  simp [totalsLine, newline_not_mem_toDigits, hplural, htotals]

theorem oneLineEach_iff (reports : List Report) :
    OneLineEach reports ↔
      ∀ r ∈ reports, ∀ d ∈ r.diagnostics, '\n' ∉ r.path.toList ∧ '\n' ∉ d.message.toList := by
  have hlast := newline_not_mem_totalsLine reports
  simp only [oneLineEach_iff_textLines, textLines, List.mem_append, List.mem_flatMap, List.mem_map,
    List.mem_singleton]
  constructor
  · intro h r hr d hd
    have hline := h _ (Or.inl ⟨r, hr, d, hd, rfl⟩)
    rwa [newline_mem_diagnosticLine_iff, not_or] at hline
  · rintro h t (⟨r, hr, d, hd, rfl⟩ | rfl)
    · rw [newline_mem_diagnosticLine_iff, not_or]
      exact h r hr d hd
    · exact hlast

end Report

/-- The brackets that the message of a finding quotes. -/
def Finding.quoted : Finding → List Char
  | unexpectedCloser c => [c]
  | mismatchedCloser e c => [e, c]
  | unclosedBracket c => [c]
  | _ => []

private theorem newline_mem_append_char {a b : String} (hb : '\n' ∉ b.toList) (c : Char) :
    '\n' ∈ (a ++ c.toString ++ b).toList ↔ '\n' ∈ a.toList ∨ '\n' = c := by
  have hc : c.toString.toList = [c] := by simp
  rw [String.toList_append, String.toList_append, hc]
  simp only [List.mem_append, List.mem_singleton, hb, or_false]

private theorem Finding.newline_mem_message_iff (f : Finding) : '\n' ∈ f.message.toList ↔ '\n' ∈ f.quoted := by
  have hquote : '\n' ∉ "'".toList := by decide
  cases f with
  | unexpectedCloser c =>
    have hwords : '\n' ∉ "Unexpected closing '".toList := by decide
    have hmessage : (unexpectedCloser c).message = "Unexpected closing '" ++ c.toString ++ "'" := rfl
    rw [hmessage, newline_mem_append_char hquote]
    simp only [quoted, hwords, false_or, List.mem_singleton]
  | mismatchedCloser e c =>
    have hwords : '\n' ∉ "Mismatched brackets: expected '".toList := by decide
    have hfound : '\n' ∉ "' but found '".toList := by decide
    have hmessage : (mismatchedCloser e c).message =
        "Mismatched brackets: expected '" ++ e.toString ++ "' but found '" ++ c.toString ++ "'" := rfl
    rw [hmessage, newline_mem_append_char hquote, newline_mem_append_char hfound]
    simp only [quoted, hwords, false_or, List.mem_cons, List.not_mem_nil, or_false]
  | unclosedBracket c =>
    have hwords : '\n' ∉ "Unclosed '".toList := by decide
    have hmessage : (unclosedBracket c).message = "Unclosed '" ++ c.toString ++ "'" := rfl
    rw [hmessage, newline_mem_append_char hquote]
    simp only [quoted, hwords, false_or, List.mem_singleton]
  | unclosedBlock k => cases k <;> decide
  | _ => decide

/-- A bracket that is quoted was read, or it is the closer that a bracket asks for which was read, and another
closer was read as well. -/
theorem BracketStack.quoted_of_mem_report {l : Language} {xs : List (Char × Position)} {d : Diagnostic}
    (hd : d ∈ report l xs) :
    ∃ f : Finding, d = f.report d.span ∧ ∀ c ∈ f.quoted, (∃ x ∈ xs, x.1 = c) ∨
      ∃ x ∈ xs, ∃ y ∈ xs, l.closing? x.1 = some c ∧ l.closes y.1 = true ∧ y.1 ≠ c := by
  rcases List.mem_append.1 hd with hd | hd
  · obtain ⟨before, y, after, rfl, hd'⟩ := exists_split_of_mem_readAll hd
    have hy : y ∈ before ++ y :: after := by simp
    obtain ⟨-, hcloses, ⟨-, rfl⟩ | ⟨b, rest, hitems, hne, rfl⟩⟩ := mem_read hd'
    · refine ⟨.unexpectedCloser y.1, rfl, fun c hc => Or.inl ⟨y, hy, ?_⟩⟩
      exact (List.mem_singleton.1 hc).symm
    · refine ⟨.mismatchedCloser b.closer y.1, rfl, fun c hc => ?_⟩
      rcases List.mem_cons.1 hc with rfl | hc
      · -- the bracket on top of the stack was pushed by a character before this one
        have hb : b ∈ (readAll .empty l before).1.items := by rw [hitems]; exact List.mem_cons_self ..
        rcases mem_items_readAll hb with hb | ⟨x, hx, e, hclosing, rfl⟩
        · cases hb
        · exact Or.inr ⟨x, List.mem_append_left _ hx, y, hy, hclosing, hcloses, hne.symm⟩
      · exact Or.inl ⟨y, hy, (List.mem_singleton.1 hc).symm⟩
  · obtain ⟨b, hb, rfl⟩ := List.mem_map.1 hd
    rcases mem_items_readAll (List.mem_reverse.1 hb) with hb | ⟨x, hx, e, -, rfl⟩
    · cases hb
    · refine ⟨.unclosedBracket x.1, rfl, fun c hc => Or.inl ⟨x, hx, ?_⟩⟩
      exact (List.mem_singleton.1 hc).symm

/-! ### Line feeds in the messages of a text -/

/-- A bracket can be open that asks for a line feed, and another closer can come.  A bracket that is the whole
comment token is never code. -/
def Language.MissesLineFeed (l : Language) : Prop :=
  ∃ p ∈ l.pairs, ∃ q ∈ l.pairs, p.closer = '\n' ∧ q.closer ≠ '\n' ∧
    l.commentToken ≠ [p.opener] ∧ l.commentToken ≠ [q.closer]

instance (l : Language) : Decidable l.MissesLineFeed :=
  inferInstanceAs (Decidable (∃ p ∈ l.pairs, ∃ q ∈ l.pairs, p.closer = '\n' ∧ q.closer ≠ '\n' ∧
    l.commentToken ≠ [p.opener] ∧ l.commentToken ≠ [q.closer]))

private theorem Mode.startsComment_of_role {m : Mode} {l : Language} {before : Option Char} {c : Char}
    {rest : Text} (h : (m.read l before c rest).role = .code) : l.startsComment (c :: rest) = false := by
  unfold read at h
  split at h
  · cases h
  · rename_i hnot
    cases m with
    | code => simpa [quote?] using hnot
    | string q => cases h
    | comment q => cases h

/-- A code character is no comment token by itself. -/
theorem Scan.token_ne_of_mem_run {l : Language} {m : Mode} {start : Nat} {before : Option Char} {t : Text}
    {x : Nat × Char} (h : x ∈ (run l m start before t).code) : l.commentToken ≠ [x.2] := by
  induction t generalizing m start before with
  | nil => cases h
  | cons a t ih =>
    unfold run at h
    simp only at h
    split at h
    · cases h
    · exact ih h
    · rename_i hrole
      rcases List.mem_cons.1 h with rfl | h
      · intro htoken
        have hstart := Mode.startsComment_of_role hrole
        simp [Language.startsComment, htoken] at hstart
      · exact ih h

namespace Linter

variable {lt : Linter} {text : Text}

private theorem token_ne_of_mem_codeFrom {l : Language} {x : Char × Position} (hx : x ∈ codeFrom l 0 text.lines) :
    l.commentToken ≠ [x.1] ∧ x.1 ≠ '\n' := by
  obtain ⟨line, hline, hcode⟩ := exists_line_of_mem_codeFrom hx
  refine ⟨Scan.token_ne_of_mem_run hcode, ?_⟩
  have hchar := List.mem_of_getElem? (Scan.getElem?_of_mem_ofLine hcode)
  intro hnewline
  rw [hnewline] at hchar
  exact Text.newline_not_mem_of_mem_lines (List.mem_of_getElem? hline) hchar

private theorem missesLineFeed_of_mem_report {d : Diagnostic}
    (hd : d ∈ BracketStack.report lt.language (codeFrom lt.language 0 text.lines))
    (hmessage : '\n' ∈ d.message.toList) : lt.language.MissesLineFeed := by
  obtain ⟨f, hf, hquoted⟩ := BracketStack.quoted_of_mem_report hd
  rw [hf] at hmessage
  obtain ⟨x, hx, heq⟩ | ⟨x, hx, y, hy, hclosing, hcloses, hne⟩ := hquoted '\n' (f.newline_mem_message_iff.1 hmessage)
  · exact absurd heq (token_ne_of_mem_codeFrom hx).2
  · have hpair := (Language.closing?_eq_some_iff lt.faultless).1 hclosing
    obtain ⟨q, hq, hqy⟩ := Language.closes_iff.1 hcloses
    have hxtoken := (token_ne_of_mem_codeFrom hx).1
    have hytoken := (token_ne_of_mem_codeFrom hy).1
    exact ⟨_, hpair, q, hq, rfl, by rwa [hqy], hxtoken, by rwa [hqy]⟩

private theorem missesLineFeed_of_mem_lint {d : Diagnostic} (hd : d ∈ lt.lint text)
    (hmessage : '\n' ∈ d.message.toList) : lt.language.MissesLineFeed := by
  -- the other two readers quote nothing
  have hplain : ∀ (f : Finding) (span : Span), f.quoted = [] → d ≠ f.report span := by
    rintro f span hquoted rfl
    have hnewline := (f.newline_mem_message_iff).1 hmessage
    rw [hquoted] at hnewline
    cases hnewline
  rcases (mem_lint_iff lt).1 hd with hd | hd | hd
  · exact missesLineFeed_of_mem_report hd hmessage
  · rcases List.mem_append.1 hd with hd | hd
    · obtain ⟨x, -, s, hd⟩ := BlockStack.mem_readLines hd
      obtain ⟨-, hd⟩ | ⟨-, hd⟩ := BlockStack.mem_readLine hd <;> exact absurd hd (hplain _ _ rfl)
    · obtain ⟨b, -, hd⟩ := List.mem_map.1 hd
      exact absurd hd.symm (hplain (.unclosedBlock b.keyword) _ rfl)
  · obtain ⟨x, -, hd⟩ := List.mem_flatMap.1 hd
    simp only [LineView.omissions, List.mem_append, List.mem_ite_nil_right, List.mem_singleton] at hd
    rcases hd with (⟨-, hd⟩ | ⟨-, hd⟩) | ⟨-, hd⟩ <;> exact absurd hd (hplain _ _ rfl)

/-- A bracket on a line of its own is code, unless it is the comment token. -/
theorem codeOf_singleton {l : Language} (hl : l.fault? = none) {c : Char} (hc : l.isBracket c = true)
    (htoken : l.commentToken ≠ [c]) (number : Nat) : codeOf l number [c] = [(c, ⟨number, 0⟩)] := by
  have hquote := Language.isQuote_of_isBracket hl hc
  have hstart : l.startsComment [c] = false := by
    rw [Bool.eq_false_iff]
    intro hstart
    simp only [Language.startsComment, Bool.and_eq_true, Bool.not_eq_true', List.isEmpty_eq_false_iff,
      List.isPrefixOf_iff_prefix, List.prefix_cons_iff, List.prefix_nil] at hstart
    obtain ⟨hne, hnil | ⟨rest, heq, rfl⟩⟩ := hstart
    · exact hne hnil
    · exact htoken heq
  simp [codeOf, Scan.ofLine, Scan.run, Mode.read, Mode.readPlain, Mode.quote?, hstart, hquote]

/-- With such a language the bracket and the closer on two lines give a message with a line feed. -/
theorem exists_newline_of_missesLineFeed (h : lt.language.MissesLineFeed) :
    ∃ text, ∃ d ∈ lt.lint text, '\n' ∈ d.message.toList := by
  obtain ⟨p, hp, q, hq, hpcloser, hqcloser, hptoken, hqtoken⟩ := h
  have hcloses : lt.language.closes q.closer = true := Language.closes_iff.2 ⟨q, hq, rfl⟩
  have hopens : lt.language.opens p.opener = true := Language.opens_iff.2 ⟨p, hp, rfl⟩
  have hnewline : lt.language.closes '\n' = true := Language.closes_iff.2 ⟨p, hp, hpcloser⟩
  have hopener : p.opener ≠ '\n' := by
    intro heq
    rw [heq, Language.opens_of_closes lt.faultless hnewline] at hopens
    cases hopens
  have hclosing : lt.language.closing? p.opener = some '\n' := by
    rw [Language.closing?_eq_some_iff lt.faultless, ← hpcloser]
    exact hp
  have hlines : Text.lines [p.opener, '\n', q.closer] = [[p.opener], [q.closer]] := by
    have hsplit : [p.opener, '\n', q.closer] = [p.opener] ++ '\n' :: [q.closer] := rfl
    rw [hsplit, Text.lines_cons (by simpa using hopener.symm),
      Text.lines_of_no_newline (by simpa using hqcloser.symm)]
  have hcode : codeFrom lt.language 0 [[p.opener], [q.closer]] = [(p.opener, ⟨0, 0⟩), (q.closer, ⟨1, 0⟩)] := by
    rw [codeFrom_cons, codeFrom_cons, codeOf_singleton lt.faultless (by simp [Language.isBracket, hopens]) hptoken,
      codeOf_singleton lt.faultless (by simp [Language.isBracket, hcloses]) hqtoken]
    rfl
  -- the second line closes the bracket of the first, which asks for the line feed between them
  refine ⟨[p.opener, '\n', q.closer], (Finding.mismatchedCloser '\n' q.closer).report (Span.inLine 1 0 1), ?_, ?_⟩
  · rw [mem_lint_iff, hlines, hcode]
    left
    apply List.mem_append_left
    have hopen : (OpenStack.push .empty ⟨p.opener, '\n', ⟨0, 0⟩⟩ : BracketStack).items =
        [⟨p.opener, '\n', ⟨0, 0⟩⟩] := rfl
    simp only [BracketStack.readAll, BracketStack.read_opener hclosing]
    rw [BracketStack.read_closer (Language.opens_of_closes lt.faultless hcloses) hcloses,
      BracketStack.close_cons hopen, if_neg hqcloser.symm]
    exact List.mem_singleton.2 rfl
  · exact (Finding.newline_mem_message_iff (.mismatchedCloser '\n' q.closer)).2 (List.mem_cons_self ..)

/-- The text reports of a linter have one line for each diagnostic, whatever the texts, exactly when its language
cannot miss a line feed. -/
theorem oneLineEach_iff_not_missesLineFeed (lt : Linter) :
    (∀ inputs : List Command.Input, (∀ i ∈ inputs, '\n' ∉ i.label.toList) →
        Report.OneLineEach (inputs.map fun i => ⟨i.label, lt.lint i.text⟩)) ↔
      ¬lt.language.MissesLineFeed := by
  constructor
  · intro h hmisses
    obtain ⟨text, d, hd, hmessage⟩ := exists_newline_of_missesLineFeed hmisses
    have hone := h [⟨Command.stdinLabel, text⟩] (by simp [Command.stdinLabel])
    rw [Report.oneLineEach_iff] at hone
    exact (hone ⟨Command.stdinLabel, lt.lint text⟩ (List.mem_singleton.2 rfl) d hd).2 hmessage
  · intro h inputs hlabels
    rw [Report.oneLineEach_iff]
    intro r hr d hd
    obtain ⟨i, hi, rfl⟩ := List.mem_map.1 hr
    exact ⟨hlabels i hi, fun hmessage => h (missesLineFeed_of_mem_lint hd hmessage)⟩

end Linter

/-- Lua with parentheses that are closed at the end of the line. -/
def lineFeedLua : Language := { Language.lua with pairs := [⟨'(', '\n'⟩, ⟨'[', ']'⟩] }

/-- One diagnostic, and its line is broken in two. -/
theorem textForm_breaks_line :
    lineFeedLua.fault? = none ∧
      Linter.lint ⟨lineFeedLua, {}, rfl⟩ "(]".toList =
        [(Finding.mismatchedCloser '\n' ']').report (Span.inLine 0 1 2)] ∧
      (Report.textForm [⟨"a.lua", Linter.lint ⟨lineFeedLua, {}, rfl⟩ "(]".toList⟩]).toList.count '\n' = 3 ∧
      ¬Report.OneLineEach [⟨"a.lua", Linter.lint ⟨lineFeedLua, {}, rfl⟩ "(]".toList⟩] := by
  have hcount :
      (Report.textForm [⟨"a.lua", Linter.lint ⟨lineFeedLua, {}, rfl⟩ "(]".toList⟩]).toList.count '\n' = 3 := by
    decide +kernel
  refine ⟨rfl, by decide, hcount, fun h => ?_⟩
  have hrows : (Report.rows [⟨"a.lua", Linter.lint ⟨lineFeedLua, {}, rfl⟩ "(]".toList⟩]).length = 1 := by decide
  have htwo := h.count
  rw [hcount, hrows] at htwo
  cases htwo

end ScriptLint
