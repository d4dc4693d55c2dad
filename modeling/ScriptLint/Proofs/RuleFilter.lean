import ScriptLint.Proofs.Strands

/-!
# Rules as a filter

The rules of a linter decide which diagnostics are kept and how wide open blocks are marked, and nothing else.  A
linter with all omissions switched on says everything; any other rules for the same language keep some of that
(`Rules.allows`) and set the width of the marks (`lint_eq_filter_of_rules`).

No rule reaches the two stacks, so both linters have the same things open after every line (`lintLines_shape`).
What the bracket and block readers say while lines are read passes through unchanged (`Rules.shape_eq_self`); only
omissions are dropped (`LineView.omissions_shape`), and only open blocks change their width
(`BlockStack.unclosed_shape`).
-/

namespace ScriptLint

/-- Is a diagnostic with this code kept?  Only the three omissions can be switched off. -/
def Rules.allows (r : Rules) : Code → Bool
  | .unclosedParameterList => r.wantsParameterEnd
  | .missingThen => r.wantsThen
  | .missingDo => r.wantsDo
  | _ => true

/-- The diagnostic with the given end column if it is about an open block. -/
def Diagnostic.withBlockWidth (width : Nat) (d : Diagnostic) : Diagnostic :=
  if d.code = .unclosedBlock then { d with span := ⟨d.span.start, ⟨d.span.stop.line, width⟩⟩ } else d

namespace Rules

/-- What the rules leave of diagnostics. -/
def shape (r : Rules) (ds : List Diagnostic) : List Diagnostic :=
  (ds.filter fun d => r.allows d.code).map (Diagnostic.withBlockWidth r.blockWidth)

private theorem shape_append (r : Rules) (ds es : List Diagnostic) :
    r.shape (ds ++ es) = r.shape ds ++ r.shape es := by
  simp [shape]

private theorem allows_of_strand {c : Code} (r : Rules) (h : c.strand ≠ .omission) : r.allows c = true := by
  cases c <;> simp_all [allows, Code.strand]

theorem shape_eq_self (r : Rules) {ds : List Diagnostic}
    (h : ∀ d ∈ ds, d.code.strand ≠ .omission ∧ d.code ≠ .unclosedBlock) : r.shape ds = ds := by
  have hkeep : (ds.filter fun d => r.allows d.code) = ds := by
    rw [List.filter_eq_self]
    intro d hd
    exact r.allows_of_strand (h d hd).1
  have hsame : ds.map (Diagnostic.withBlockWidth r.blockWidth) = ds.map id := by
    apply List.map_congr_left
    intro d hd
    simp [Diagnostic.withBlockWidth, (h d hd).2]
  rw [shape, hkeep, hsame, List.map_id]

/-- All three omissions are looked for. -/
def WantsAll (r : Rules) : Prop := r.wantsParameterEnd = true ∧ r.wantsThen = true ∧ r.wantsDo = true

instance (r : Rules) : Decidable r.WantsAll :=
  inferInstanceAs (Decidable (r.wantsParameterEnd = true ∧ r.wantsThen = true ∧ r.wantsDo = true))

end Rules

/-! ### The readers under two sets of rules -/

/-- One omission: a test that fails gives nothing under any rules. -/
private theorem Rules.shape_ite (o : Rules) (f : Finding) (span : Span) (lacks : Bool)
    (hcode : f.code ≠ .unclosedBlock) :
    o.shape (if lacks then [f.report span] else []) = if o.allows f.code && lacks then [f.report span] else [] := by
  cases lacks
  · simp [shape]
  · by_cases hallows : o.allows f.code = true
    · simp [shape, Diagnostic.withBlockWidth, Finding.report, hallows, hcode]
    · simp [shape, Finding.report, hallows]

theorem LineView.omissions_shape {p : Rules} (hp : p.WantsAll) (o : Rules) (v : LineView) :
    v.omissions o = o.shape (v.omissions p) := by
  obtain ⟨hend, hthen, hdo⟩ := hp
  simp only [omissions, Rules.shape_append, hend, hthen, hdo, Bool.true_and]
  rw [o.shape_ite .unclosedParameterList _ _ (by decide), o.shape_ite .missingThen _ _ (by decide),
    o.shape_ite .missingDo _ _ (by decide)]
  rfl

private theorem BracketStack.readAll_shape (s : BracketStack) (l : Language) (xs : List (Char × Position))
    (o : Rules) : o.shape (s.readAll l xs).2 = (s.readAll l xs).2 := by
  apply o.shape_eq_self
  intro d hd
  obtain ⟨x, -, s', hd'⟩ := mem_readAll hd
  obtain ⟨-, -, ⟨-, rfl⟩ | ⟨b, rest, -, -, rfl⟩⟩ := mem_read hd' <;> exact ⟨nofun, nofun⟩

private theorem BlockStack.readLine_shape (s : BlockStack) (line length : Nat) (trimmed : Text) (isComment : Bool)
    (o : Rules) : o.shape (s.readLine line length trimmed isComment).2.toList =
      (s.readLine line length trimmed isComment).2.toList := by
  apply o.shape_eq_self
  intro d hd
  obtain ⟨-, rfl⟩ | ⟨-, rfl⟩ := mem_readLine (Option.mem_toList.1 hd) <;> exact ⟨nofun, nofun⟩

theorem BracketStack.unclosed_shape (s : BracketStack) (o p : Rules) :
    s.unclosed o.blockWidth = o.shape (s.unclosed p.blockWidth) := by
  rw [s.unclosed_width o.blockWidth p.blockWidth, o.shape_eq_self]
  intro d hd
  rw [s.code_unclosed _ d hd]
  exact ⟨nofun, nofun⟩

theorem BlockStack.unclosed_shape (s : BlockStack) (o p : Rules) :
    s.unclosed o.blockWidth = o.shape (s.unclosed p.blockWidth) := by
  have hkeep : ((s.unclosed p.blockWidth).filter fun d => o.allows d.code) = s.unclosed p.blockWidth := by
    rw [List.filter_eq_self]
    intro d hd
    rw [s.code_unclosed _ d hd]
    rfl
  rw [Rules.shape, hkeep]
  simp only [OpenStack.unclosed, List.map_map]
  rfl

namespace Linter

variable {l : Language} (hl : l.fault? = none) {p : Rules}

/-- One line: the same stacks, and what the rules leave of the line's diagnostics. -/
theorem lintLine_shape (hp : p.WantsAll) (o : Rules) (s : Nesting) (number : Nat) (line : Text) :
    lintLine ⟨l, o, hl⟩ s number line =
      ((lintLine ⟨l, p, hl⟩ s number line).1, o.shape (lintLine ⟨l, p, hl⟩ s number line).2) := by
  simp only [lintLine, Rules.shape_append, BracketStack.readAll_shape, BlockStack.readLine_shape,
    LineView.omissions_shape hp o]

/-- Many lines: induction on the lines; both runs go through the same stacks. -/
theorem lintLines_shape (hp : p.WantsAll) (o : Rules) (s : Nesting) (number : Nat) (lines : List Text) :
    lintLines ⟨l, o, hl⟩ s number lines =
      ((lintLines ⟨l, p, hl⟩ s number lines).1, o.shape (lintLines ⟨l, p, hl⟩ s number lines).2) := by
  induction lines generalizing s number with
  | nil => rfl
  | cons line rest ih => simp only [lintLines, lintLine_shape hl hp o, ih, Rules.shape_append]

private theorem finish_shape (o p : Rules) (s : Nesting) :
    finish ⟨l, o, hl⟩ s = o.shape (finish ⟨l, p, hl⟩ s) := by
  rw [finish, finish, Rules.shape_append, ← BracketStack.unclosed_shape, ← BlockStack.unclosed_shape]

/-- Rules keep, of all that can be said about a text, what they allow, and set the width of the marks of open
blocks. -/
theorem lint_eq_filter_of_rules (l : Language) (hl : l.fault? = none) (o p : Rules) (hp : p.WantsAll)
    (text : Text) :
    lint ⟨l, o, hl⟩ text =
      ((lint ⟨l, p, hl⟩ text).filter fun d => o.allows d.code).map (Diagnostic.withBlockWidth o.blockWidth) := by
  have hlines := lintLines_shape hl hp o .none 0 text.lines
  have hfinish := finish_shape hl o p (lintLines ⟨l, p, hl⟩ .none 0 text.lines).1
  rw [← Rules.shape, lint, lint, Rules.shape_append, hlines, hfinish]

/-- The missing `then` is dropped, the missing `do` and the open bracket stay, and the two open blocks get
narrower. -/
theorem lint_eq_filter_of_rules_narrow :
    Rules.WantsAll { blockWidth := 7 } ∧
      lint ⟨.lua, { wantsThen := false, blockWidth := 2 }, Language.fault?_lua⟩ "if (\nfor i".toList =
        [Finding.missingDo.report (Span.inLine 1 0 5), (Finding.unclosedBracket '(').report (Span.inLine 0 3 4),
         (Finding.unclosedBlock .ifThen).report (Span.inLine 0 0 2),
         (Finding.unclosedBlock .forDo).report (Span.inLine 1 0 2)] :=
  ⟨by decide,
    (lint_eq_filter_of_rules .lua Language.fault?_lua _ { blockWidth := 7 } (by decide) _).trans (by decide)⟩

end Linter

end ScriptLint
