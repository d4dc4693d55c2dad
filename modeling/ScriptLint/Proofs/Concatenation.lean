import ScriptLint.Proofs.Strands

/-!
# One text after another

When a text leaves nothing open, what is said about it and another text below it is what is said about each of
them, the second moved down by the lines of the first (`lint_append_of_closed`).

The linter looks at line numbers only to write them into diagnostics.  So a run over lines that stand further down,
with everything on the stacks moved down too, is the same run with its diagnostics moved down (`lintLines_down`).
For brackets this is an instance of a more general fact: positions may be changed in any way that is matched by a
change of the one-column spans (`BracketStack.readAll_move`).
-/

namespace ScriptLint

/-! ### Moving diagnostics and what is open -/

/-- The same place `n` lines further down. -/
def Position.down (n : Nat) (p : Position) : Position := ⟨p.line + n, p.column⟩

def Span.down (n : Nat) (s : Span) : Span := ⟨s.start.down n, s.stop.down n⟩

def Diagnostic.move (g : Span → Span) (d : Diagnostic) : Diagnostic := { d with span := g d.span }

/-- The same diagnostic with `n` added to the line numbers of its span. -/
def Diagnostic.down (n : Nat) : Diagnostic → Diagnostic := Diagnostic.move (Span.down n)

@[simp] theorem Finding.move_report (f : Finding) (g : Span → Span) (span : Span) :
    (f.report span).move g = f.report (g span) := rfl

def OpenBracket.move (f : Position → Position) (b : OpenBracket) : OpenBracket :=
  { b with position := f b.position }

def OpenBlock.down (n : Nat) (b : OpenBlock) : OpenBlock := { b with line := b.line + n }

def BracketStack.move (f : Position → Position) (s : BracketStack) : BracketStack :=
  ⟨s.items.map (OpenBracket.move f)⟩

def BlockStack.down (n : Nat) (s : BlockStack) : BlockStack := ⟨s.items.map (OpenBlock.down n)⟩

/-- What is left open is reported where it has been moved to. -/
theorem OpenStack.unclosed_map {α : Type} [Opened α] {f : α → α} {g : Diagnostic → Diagnostic} {width : Nat}
    (h : ∀ a, Opened.unclosed (f a) width = g (Opened.unclosed a width)) (s : OpenStack α) :
    OpenStack.unclosed ⟨s.items.map f⟩ width = (s.unclosed width).map g := by
  simp only [OpenStack.unclosed, ← List.map_reverse, List.map_map]
  exact List.map_congr_left fun a _ => h a

/-! ### Brackets -/

namespace BracketStack

variable {f : Position → Position} {g : Span → Span} {l : Language}

private theorem close_move (f : Position → Position) (g : Span → Span) (s : BracketStack) (c : Char)
    (cell : Span) :
    (s.move f).close c (g cell) = ((s.close c cell).1.move f, (s.close c cell).2.map (Diagnostic.move g)) := by
  cases hs : s.items with
  | nil =>
    have hs' : (s.move f).items = [] := by simp [move, hs]
    rw [close_nil hs, close_nil hs', Option.map_some, Finding.move_report]
  | cons b rest =>
    have hs' : (s.move f).items = b.move f :: rest.map (OpenBracket.move f) := by simp [move, hs]
    rw [close_cons hs, close_cons hs']
    by_cases hb : b.closer = c
    · simp [OpenBracket.move, move, hb]
    · simp [OpenBracket.move, move, hb]

/-- One character: the stack matches brackets without regard to where they stand. -/
theorem read_move (h : ∀ p : Position, g p.cell = (f p).cell) (s : BracketStack) (c : Char) (p : Position) :
    (s.move f).read l c (f p) = ((s.read l c p).1.move f, (s.read l c p).2.map (Diagnostic.move g)) := by
  cases ho : l.closing? c with
  | some e => rw [read_opener ho, read_opener ho]; rfl
  | none =>
    have ho' := Language.closing?_eq_none_iff.1 ho
    by_cases hc : l.closes c = true
    · rw [read_closer ho' hc, read_closer ho' hc, ← h, close_move]
    · have hb : l.isBracket c = false := by simp [Language.isBracket, ho', hc]
      rw [read_other hb, read_other hb]
      rfl

/-- Many characters: a run over characters that stand elsewhere is the same run, reported elsewhere. -/
theorem readAll_move (h : ∀ p : Position, g p.cell = (f p).cell) (s : BracketStack) (xs : List (Char × Position)) :
    (s.move f).readAll l (xs.map fun x => (x.1, f x.2)) =
      ((s.readAll l xs).1.move f, (s.readAll l xs).2.map (Diagnostic.move g)) := by
  induction xs generalizing s with
  | nil => rfl
  | cons x xs ih =>
    simp only [List.map_cons, readAll, read_move h, ih, List.map_append]
    cases (s.read l x.1 x.2).2 <;> rfl

private theorem readAll_down (s : BracketStack) (n : Nat) (xs : List (Char × Position)) :
    (s.move (Position.down n)).readAll l (xs.map fun x => (x.1, x.2.down n)) =
      ((s.readAll l xs).1.move (Position.down n), (s.readAll l xs).2.map (Diagnostic.down n)) :=
  readAll_move (fun _ => rfl) s xs

private theorem unclosed_down (s : BracketStack) (n width : Nat) :
    (s.move (Position.down n)).unclosed width = (s.unclosed width).map (Diagnostic.down n) :=
  OpenStack.unclosed_map (fun _ => rfl) s

end BracketStack

/-! ### Blocks -/

namespace BlockStack

private theorem items_down_nil {s : BlockStack} {n : Nat} (hs : s.items = []) : (s.down n).items = [] := by
  simp [down, hs]

private theorem items_down_cons {s : BlockStack} {n : Nat} {b : OpenBlock} {rest : List OpenBlock}
    (hs : s.items = b :: rest) : (s.down n).items = b.down n :: rest.map (OpenBlock.down n) := by
  simp [down, hs]

private theorem openAll_down (s : BlockStack) (n line : Nat) (keywords : List Keyword) :
    (s.down n).openAll (line + n) keywords = (s.openAll line keywords).down n := by
  have hitems : ((s.down n).openAll (line + n) keywords).items = ((s.openAll line keywords).down n).items := by
    simp only [down, items_openAll, List.map_append, List.map_reverse, List.map_map]
    rfl
  exact congrArg OpenStack.mk hitems

private theorem close_down (s : BlockStack) (n line length : Nat) (trimmed : Text) :
    (s.down n).close (line + n) length trimmed =
      ((s.close line length trimmed).1.down n, (s.close line length trimmed).2.map (Diagnostic.down n)) := by
  by_cases he : trimmed = "end".toList
  · subst he
    cases hs : s.items with
    | nil => rw [close_end_nil hs, close_end_nil (items_down_nil hs)]; rfl
    | cons b rest => rw [close_end_cons hs, close_end_cons (items_down_cons hs)]; rfl
  by_cases hu : trimmed = "until".toList
  · subst hu
    cases hs : s.items with
    | nil => rw [close_until_nil hs, close_until_nil (items_down_nil hs)]; rfl
    | cons b rest =>
      rw [close_until_cons hs, close_until_cons (items_down_cons hs)]
      by_cases hk : b.keyword = .repeatUntil
      · rw [if_pos hk, if_pos (show (b.down n).keyword = .repeatUntil from hk)]
        rfl
      · rw [if_neg hk, if_neg (show ¬(b.down n).keyword = .repeatUntil from hk)]
        rfl
  · rw [close_other he hu, close_other he hu]
    rfl

private theorem readLine_down (s : BlockStack) (n line length : Nat) (trimmed : Text) (isComment : Bool) :
    (s.down n).readLine (line + n) length trimmed isComment =
      ((s.readLine line length trimmed isComment).1.down n,
       (s.readLine line length trimmed isComment).2.map (Diagnostic.down n)) := by
  unfold readLine
  rw [openAll_down, close_down]

private theorem unclosed_down (s : BlockStack) (n width : Nat) :
    (s.down n).unclosed width = (s.unclosed width).map (Diagnostic.down n) :=
  OpenStack.unclosed_map (fun _ => rfl) s

end BlockStack

/-! ### Lines -/

def Nesting.down (n : Nat) (s : Nesting) : Nesting :=
  ⟨s.brackets.move (Position.down n), s.blocks.down n⟩

namespace Linter

variable (lt : Linter)

private theorem codeOf_down (l : Language) (n number : Nat) (line : Text) :
    codeOf l (number + n) line = (codeOf l number line).map fun x => (x.1, x.2.down n) := by
  simp [codeOf, Position.down]

private theorem omissions_down (n number : Nat) (line : Text) :
    (view lt.language (number + n) line).omissions lt.rules =
      ((view lt.language number line).omissions lt.rules).map (Diagnostic.down n) := by
  simp only [LineView.omissions, List.map_append, apply_ite (List.map (Diagnostic.down n)), List.map_cons,
    List.map_nil]
  rfl

/-- One line: the same line further down gives the same diagnostics further down. -/
theorem lintLine_down (s : Nesting) (n number : Nat) (line : Text) :
    lt.lintLine (s.down n) (number + n) line =
      ((lt.lintLine s number line).1.down n, (lt.lintLine s number line).2.map (Diagnostic.down n)) := by
  have hbrackets := s.brackets.readAll_down (l := lt.language) n (codeOf lt.language number line)
  have hblocks := s.blocks.readLine_down n number line.length line.trim (lt.language.startsComment line.trim)
  rw [← codeOf_down] at hbrackets
  simp only [lintLine, omissions_down, List.map_append]
  simp only [Nesting.down, view, hbrackets, hblocks]
  cases (s.blocks.readLine number line.length line.trim (lt.language.startsComment line.trim)).2 <;> rfl

/-- Many lines: induction on the lines, with the stacks and the number of the first line left open. -/
theorem lintLines_down (s : Nesting) (n number : Nat) (lines : List Text) :
    lt.lintLines (s.down n) (number + n) lines =
      ((lt.lintLines s number lines).1.down n, (lt.lintLines s number lines).2.map (Diagnostic.down n)) := by
  induction lines generalizing s number with
  | nil => rfl
  | cons line rest ih =>
    simp only [lintLines, lintLine_down, List.map_append]
    rw [show number + n + 1 = number + 1 + n by omega, ih]

private theorem finish_down (s : Nesting) (n : Nat) :
    lt.finish (s.down n) = (lt.finish s).map (Diagnostic.down n) := by
  rw [finish, finish, List.map_append, ← BracketStack.unclosed_down, ← BlockStack.unclosed_down]
  rfl

/-! ### Texts -/

/-- Nothing is reported at the end exactly when both stacks are empty. -/
theorem finish_eq_nil_iff (s : Nesting) : lt.finish s = [] ↔ s = .none := by
  obtain ⟨⟨brackets⟩, ⟨blocks⟩⟩ := s
  simp [finish, OpenStack.unclosed, Nesting.none, OpenStack.empty]

/-- A text without diagnostics about open things leaves the stacks empty. -/
theorem nesting_of_closed {text : Text}
    (h : ∀ d ∈ lt.lint text, d.code ≠ .unclosedBracket ∧ d.code ≠ .unclosedBlock) :
    (lt.lintLines .none 0 text.lines).1 = .none := by
  rw [← finish_eq_nil_iff lt, List.eq_nil_iff_forall_not_mem]
  intro d hd
  obtain ⟨hbracket, hblock⟩ := h d (List.mem_append_right _ hd)
  rcases List.mem_append.1 hd with hd | hd
  · exact hbracket (BracketStack.code_unclosed _ _ d hd)
  · exact hblock (BlockStack.code_unclosed _ _ d hd)

/-- Below a text that leaves nothing open, another text has the diagnostics that it has alone, moved down by the
number of lines above it. -/
theorem lint_append_of_closed (lt : Linter) (s t : Text)
    (h : ∀ d ∈ lt.lint s, d.code ≠ .unclosedBracket ∧ d.code ≠ .unclosedBlock) :
    lt.lint (s ++ '\n' :: t) = lt.lint s ++ (lt.lint t).map (Diagnostic.down s.lines.length) := by
  have hnone := lt.nesting_of_closed h
  have hbelow : lt.lintLines .none (0 + s.lines.length) t.lines = _ :=
    lt.lintLines_down .none s.lines.length 0 t.lines
  have hend : lt.finish .none = [] := (lt.finish_eq_nil_iff .none).2 rfl
  simp only [lint, Text.lines_append_newline, lintLines_append, hnone, hbelow, finish_down, hend, List.append_nil,
    List.map_append, List.append_assoc]

/-- The upper text has a stray closer and a closed block, the lower one an open bracket and a stray `end`. -/
theorem lint_append_of_closed_stray :
    (∀ d ∈ default.lint ")\ndo\nend".toList, d.code ≠ .unclosedBracket ∧ d.code ≠ .unclosedBlock) ∧
      default.lint (")\ndo\nend".toList ++ '\n' :: "f(\nend".toList) =
        [(Finding.unexpectedCloser ')').report (Span.inLine 0 0 1),
         Finding.unexpectedEnd.report (Span.inLine 4 0 3),
         (Finding.unclosedBracket '(').report (Span.inLine 3 1 2)] :=
  ⟨by decide, (lint_append_of_closed default _ _ (by decide)).trans (by decide)⟩

end Linter

end ScriptLint
