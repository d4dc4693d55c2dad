import ScriptLint.Proofs.Steps

/-!
# The strands of a lint

The diagnostics of a text fall into three strands by their codes: those about brackets, about blocks and about
omissions.  The linter reads the strands side by side, line after line, and none depends on another:

* the bracket strand is what a bracket stack reports that is fed all code characters (`pick_bracket_lint`);
* the block strand is what a block stack reports that is fed all lines (`pick_block_lint`);
* the omission strand is made line by line (`pick_omission_lint`).

So a statement about one kind of diagnostics is a statement about one reader.

The diagnostics about things that are left open are made at the end of the text, and no others are: those made
before are what the lines give as they are read (`filter_settled_lint`).
-/

namespace ScriptLint

inductive Strand where
  | bracket | block | omission
  deriving DecidableEq

def Code.strand : Code → Strand
  | unexpectedClosingBracket | mismatchedBrackets | unclosedBracket => .bracket
  | unexpectedEnd | unmatchedUntil | unclosedBlock => .block
  | unclosedParameterList | missingThen | missingDo => .omission

theorem Code.strand_eq_bracket_iff (c : Code) :
    c.strand = .bracket ↔ c = .unexpectedClosingBracket ∨ c = .mismatchedBrackets ∨ c = .unclosedBracket := by
  cases c <;> decide

theorem Code.strand_eq_block_iff (c : Code) :
    c.strand = .block ↔ c = .unexpectedEnd ∨ c = .unmatchedUntil ∨ c = .unclosedBlock := by
  cases c <;> decide

namespace Strand

/-- The diagnostics of one strand, in their order. -/
def pick (s : Strand) (ds : List Diagnostic) : List Diagnostic := ds.filter fun d => d.code.strand = s

@[simp] theorem pick_nil (s : Strand) : s.pick [] = [] := rfl

@[simp] theorem pick_append (s : Strand) (ds es : List Diagnostic) : s.pick (ds ++ es) = s.pick ds ++ s.pick es :=
  List.filter_append ..

private theorem mem_pick {s : Strand} {ds : List Diagnostic} {d : Diagnostic} :
    d ∈ s.pick ds ↔ d ∈ ds ∧ d.code.strand = s := by
  simp [pick]

theorem pick_eq_nil_iff {s : Strand} {ds : List Diagnostic} : s.pick ds = [] ↔ ∀ d ∈ ds, d.code.strand ≠ s := by
  simp [pick]

/-- From diagnostics of one strand, either all are picked or none. -/
theorem pick_eq {s t : Strand} {ds : List Diagnostic} (h : ∀ d ∈ ds, d.code.strand = t) :
    s.pick ds = if t = s then ds else [] := by
  unfold pick
  split
  · rename_i hts
    rw [List.filter_eq_self]
    intro d hd
    simpa [hts] using h d hd
  · rename_i hts
    rw [List.filter_eq_nil_iff]
    intro d hd
    simpa [h d hd] using hts

end Strand

/-! ### The readers of the strands -/

namespace Linter

/-- The code characters of lines with their positions, where the first line has the given number. -/
def codeFrom (l : Language) (number : Nat) (lines : List Text) : List (Char × Position) :=
  (lines.zipIdx number).flatMap fun x => codeOf l x.2 x.1

theorem codeFrom_cons (l : Language) (number : Nat) (line : Text) (rest : List Text) :
    codeFrom l number (line :: rest) = codeOf l number line ++ codeFrom l (number + 1) rest := by
  simp [codeFrom]

/-- The omissions of lines, the first of which has the given number. -/
def omissionsFrom (lt : Linter) (number : Nat) (lines : List Text) : List Diagnostic :=
  (lines.zipIdx number).flatMap fun x => (view lt.language x.2 x.1).omissions lt.rules

private theorem omissionsFrom_cons (lt : Linter) (number : Nat) (line : Text) (rest : List Text) :
    lt.omissionsFrom number (line :: rest) =
      (view lt.language number line).omissions lt.rules ++ lt.omissionsFrom (number + 1) rest := by
  simp [omissionsFrom]

end Linter

/-! ### Each reader keeps to its strand -/

/-- What is left open is reported in the strand that the open things belong to. -/
private theorem strand_unclosed {α : Type} [Opened α] {t : Strand}
    (h : ∀ (a : α) (width : Nat), (Opened.unclosed a width).code.strand = t) (s : OpenStack α) (width : Nat) :
    ∀ d ∈ s.unclosed width, d.code.strand = t := by
  intro d hd
  obtain ⟨a, -, rfl⟩ := List.mem_map.1 hd
  exact h a width

private theorem BracketStack.strand_unclosed (s : BracketStack) (width : Nat) :
    ∀ d ∈ s.unclosed width, d.code.strand = .bracket :=
  ScriptLint.strand_unclosed (fun _ _ => rfl) s width

private theorem BlockStack.strand_unclosed (s : BlockStack) (width : Nat) :
    ∀ d ∈ s.unclosed width, d.code.strand = .block :=
  ScriptLint.strand_unclosed (fun _ _ => rfl) s width

theorem BracketStack.unclosed_width (s : BracketStack) (v w : Nat) : s.unclosed v = s.unclosed w := rfl

private theorem BracketStack.strand_read {s : BracketStack} {l : Language} {c : Char} {p : Position} :
    ∀ d ∈ (s.read l c p).2, d.code.strand = .bracket := by
  intro d hd
  obtain ⟨-, -, ⟨-, rfl⟩ | ⟨b, rest, -, -, rfl⟩⟩ := mem_read hd <;> rfl

private theorem BracketStack.strand_readAll (s : BracketStack) (l : Language) (xs : List (Char × Position)) :
    ∀ d ∈ (s.readAll l xs).2, d.code.strand = .bracket := by
  intro d hd
  obtain ⟨x, -, s', hd'⟩ := mem_readAll hd
  exact strand_read d hd'

private theorem BlockStack.strand_readLine {s : BlockStack} {line length : Nat} {trimmed : Text}
    {isComment : Bool} : ∀ d ∈ (s.readLine line length trimmed isComment).2, d.code.strand = .block := by
  intro d hd
  obtain ⟨-, rfl⟩ | ⟨-, rfl⟩ := mem_readLine hd <;> rfl

private theorem LineView.strand_omissions (v : LineView) (rules : Rules) :
    ∀ d ∈ v.omissions rules, d.code.strand = .omission := by
  intro d hd
  simp only [omissions, List.mem_append, List.mem_ite_nil_right, List.mem_singleton] at hd
  rcases hd with (⟨-, rfl⟩ | ⟨-, rfl⟩) | ⟨-, rfl⟩ <;> rfl

/-! ### The strands of a run -/

namespace Linter

variable (lt : Linter)

private theorem pick_lintLine (s : Nesting) (number : Nat) (line : Text) (t : Strand) :
    t.pick (lt.lintLine s number line).2 =
      match t with
      | .bracket => (s.brackets.readAll lt.language (codeOf lt.language number line)).2
      | .block =>
        (s.blocks.readLine number line.length line.trim (lt.language.startsComment line.trim)).2.toList
      | .omission => (view lt.language number line).omissions lt.rules := by
  have hbracket := s.brackets.strand_readAll lt.language (codeOf lt.language number line)
  have hblock : ∀ d ∈ (s.blocks.readLine number line.length line.trim
      (lt.language.startsComment line.trim)).2.toList, d.code.strand = .block :=
    fun d hd => BlockStack.strand_readLine d (by simpa using hd)
  have homission := (view lt.language number line).strand_omissions lt.rules
  simp only [lintLine, view, Strand.pick_append] at homission ⊢
  rw [Strand.pick_eq hbracket, Strand.pick_eq hblock, Strand.pick_eq homission]
  cases t <;> simp

/-- The stacks after some lines: each reader has its own. -/
theorem nesting_lintLines (s : Nesting) (number : Nat) (lines : List Text) :
    (lt.lintLines s number lines).1 =
      ⟨(s.brackets.readAll lt.language (codeFrom lt.language number lines)).1,
       (s.blocks.readLines lt.language number lines).1⟩ := by
  induction lines generalizing s number with
  | nil => rfl
  | cons line rest ih =>
    simp only [lintLines, codeFrom_cons, BlockStack.readLines, BracketStack.readAll_append, ih]
    rfl

private theorem pick_lintLines (s : Nesting) (number : Nat) (lines : List Text) (t : Strand) :
    t.pick (lt.lintLines s number lines).2 =
      match t with
      | .bracket => (s.brackets.readAll lt.language (codeFrom lt.language number lines)).2
      | .block => (s.blocks.readLines lt.language number lines).2
      | .omission => lt.omissionsFrom number lines := by
  induction lines generalizing s number with
  | nil => cases t <;> rfl
  | cons line rest ih =>
    have hline := lt.pick_lintLine s number line t
    simp only [lintLines, Strand.pick_append, ih, hline]
    cases t
    · simp only [codeFrom_cons, BracketStack.readAll_append]; rfl
    · rfl
    · simp only [omissionsFrom_cons]

private theorem pick_lint (text : Text) (t : Strand) :
    t.pick (lt.lint text) =
      t.pick (lt.lintLines .none 0 text.lines).2 ++
        (t.pick ((lt.lintLines .none 0 text.lines).1.brackets.unclosed lt.rules.blockWidth) ++
          t.pick ((lt.lintLines .none 0 text.lines).1.blocks.unclosed lt.rules.blockWidth)) := by
  simp only [lint, finish, Strand.pick_append]

theorem pick_bracket_lint (text : Text) :
    Strand.bracket.pick (lt.lint text) = BracketStack.report lt.language (codeFrom lt.language 0 text.lines) := by
  rw [pick_lint, pick_lintLines, Strand.pick_eq (BracketStack.strand_unclosed _ _),
    Strand.pick_eq (BlockStack.strand_unclosed _ _), nesting_lintLines]
  simp only [↓reduceIte, reduceCtorEq, List.append_nil]
  rw [BracketStack.unclosed_width _ _ 1]
  rfl

theorem pick_block_lint (text : Text) :
    Strand.block.pick (lt.lint text) = BlockStack.report lt.language lt.rules.blockWidth text.lines := by
  rw [pick_lint, pick_lintLines, Strand.pick_eq (BracketStack.strand_unclosed _ _),
    Strand.pick_eq (BlockStack.strand_unclosed _ _), nesting_lintLines]
  simp only [↓reduceIte, reduceCtorEq, List.nil_append]
  rfl

theorem pick_omission_lint (text : Text) :
    Strand.omission.pick (lt.lint text) = lt.omissionsFrom 0 text.lines := by
  rw [pick_lint, pick_lintLines, Strand.pick_eq (BracketStack.strand_unclosed _ _),
    Strand.pick_eq (BlockStack.strand_unclosed _ _)]
  simp only [reduceCtorEq, ↓reduceIte, List.append_nil]

/-- Every diagnostic of a text comes from one of the three readers. -/
theorem mem_lint_iff {text : Text} {d : Diagnostic} :
    d ∈ lt.lint text ↔
      d ∈ BracketStack.report lt.language (codeFrom lt.language 0 text.lines) ∨
        d ∈ BlockStack.report lt.language lt.rules.blockWidth text.lines ∨
          d ∈ lt.omissionsFrom 0 text.lines := by
  rw [← pick_bracket_lint, ← pick_block_lint, ← pick_omission_lint]
  simp only [Strand.mem_pick]
  cases d.code.strand <;> simp

end Linter

/-! ### What is said at the end of a text -/

/-- What is left open has the one code that the open things have. -/
private theorem code_unclosed {α : Type} [Opened α] {c : Code}
    (h : ∀ (a : α) (width : Nat), (Opened.unclosed a width).code = c) (s : OpenStack α) (width : Nat) :
    ∀ d ∈ s.unclosed width, d.code = c := by
  intro d hd
  obtain ⟨a, -, rfl⟩ := List.mem_map.1 hd
  exact h a width

theorem BracketStack.code_unclosed (s : BracketStack) (width : Nat) :
    ∀ d ∈ s.unclosed width, d.code = .unclosedBracket :=
  ScriptLint.code_unclosed (fun _ _ => rfl) s width

theorem BlockStack.code_unclosed (s : BlockStack) (width : Nat) :
    ∀ d ∈ s.unclosed width, d.code = .unclosedBlock :=
  ScriptLint.code_unclosed (fun _ _ => rfl) s width

namespace Linter

variable (lt : Linter)

/-- While lines are read, nothing is said to be left open. -/
theorem code_lintLines (s : Nesting) (number : Nat) (lines : List Text) :
    ∀ d ∈ (lt.lintLines s number lines).2, d.code ≠ .unclosedBracket ∧ d.code ≠ .unclosedBlock := by
  intro d hd
  have hpick := Strand.mem_pick.2 ⟨hd, rfl⟩
  rw [pick_lintLines] at hpick
  cases ht : d.code.strand <;> rw [ht] at hpick
  case bracket =>
    obtain ⟨x, -, s', hd'⟩ := BracketStack.mem_readAll hpick
    obtain ⟨-, -, ⟨-, rfl⟩ | ⟨b, rest, -, -, rfl⟩⟩ := BracketStack.mem_read hd' <;> exact ⟨nofun, nofun⟩
  case block =>
    obtain ⟨x, -, s', hd'⟩ := BlockStack.mem_readLines hpick
    obtain ⟨-, rfl⟩ | ⟨-, rfl⟩ := BlockStack.mem_readLine hd' <;> exact ⟨nofun, nofun⟩
  case omission => constructor <;> intro hc <;> rw [hc] at ht <;> cases ht

/-- The diagnostics that do not wait for the end of a text are those made while its lines are read. -/
theorem filter_settled_lint (text : Text) :
    ((lt.lint text).filter fun d => d.code ≠ .unclosedBracket ∧ d.code ≠ .unclosedBlock) =
      (lt.lintLines .none 0 text.lines).2 := by
  have hfinish : ∀ d ∈ lt.finish (lt.lintLines .none 0 text.lines).1,
      ¬(d.code ≠ .unclosedBracket ∧ d.code ≠ .unclosedBlock) := by
    rintro d hd ⟨hbracket, hblock⟩
    rcases List.mem_append.1 hd with hd | hd
    · exact hbracket (BracketStack.code_unclosed _ _ d hd)
    · exact hblock (BlockStack.code_unclosed _ _ d hd)
  rw [lint, List.filter_append,
    List.filter_eq_self.2 fun d hd => decide_eq_true (lt.code_lintLines _ _ _ d hd),
    List.filter_eq_nil_iff.2 fun d hd => by simpa only [decide_eq_true_eq] using hfinish d hd, List.append_nil]

theorem filter_unclosedBracket_lint (text : Text) :
    ((lt.lint text).filter fun d => d.code = .unclosedBracket) =
      (lt.lintLines .none 0 text.lines).1.brackets.unclosed lt.rules.blockWidth := by
  have hlines := lt.code_lintLines .none 0 text.lines
  rw [lint, finish, List.filter_append, List.filter_append,
    List.filter_eq_nil_iff.2 fun d hd => by simpa using (hlines d hd).1,
    List.filter_eq_self.2 fun d hd => decide_eq_true (BracketStack.code_unclosed _ _ d hd),
    List.filter_eq_nil_iff.2 fun d hd => by simp [BlockStack.code_unclosed _ _ d hd],
    List.nil_append, List.append_nil]

theorem filter_unclosedBlock_lint (text : Text) :
    ((lt.lint text).filter fun d => d.code = .unclosedBlock) =
      (lt.lintLines .none 0 text.lines).1.blocks.unclosed lt.rules.blockWidth := by
  have hlines := lt.code_lintLines .none 0 text.lines
  rw [lint, finish, List.filter_append, List.filter_append,
    List.filter_eq_nil_iff.2 fun d hd => by simpa using (hlines d hd).2,
    List.filter_eq_nil_iff.2 fun d hd => by simp [BracketStack.code_unclosed _ _ d hd],
    List.filter_eq_self.2 fun d hd => decide_eq_true (BlockStack.code_unclosed _ _ d hd),
    List.nil_append, List.nil_append]

end Linter

end ScriptLint
