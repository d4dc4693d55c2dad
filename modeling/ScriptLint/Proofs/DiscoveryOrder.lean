import ScriptLint.Proofs.Appending
import ScriptLint.Proofs.LineGrammar

/-!
# The order of discovery

Nothing sorts the diagnostics of a text, and yet they come in order (`lint_in_order`).  First those made while
lines are read, line after line; within a line the closing brackets by column, then the closing word, then the
omissions.  Then the brackets left open, by position.  Then the blocks left open, by line and within a line by
keyword.

Both stacks are in order because they never hold anything but a part of what has been opened so far, in the order
of opening: a character or a line adds at the end of that list, and a closer takes from it
(`BracketStack.positions_readAll_sublist`, `BlockStack.items_readLines_sublist`).
-/

namespace ScriptLint

/-! ### What being in order means -/

/-- The diagnostics of one line, part by part. -/
structure LineParts where
  brackets : List Diagnostic
  closingWord : Option Diagnostic
  parameterList : Option Diagnostic
  missingThen : Option Diagnostic
  missingDo : Option Diagnostic
  code_brackets : ∀ d ∈ brackets, d.code = .unexpectedClosingBracket ∨ d.code = .mismatchedBrackets
  columns_brackets : brackets.Pairwise fun d e => d.start.column < e.start.column
  code_closingWord : ∀ d ∈ closingWord, d.code = .unexpectedEnd ∨ d.code = .unmatchedUntil
  code_parameterList : ∀ d ∈ parameterList, d.code = .unclosedParameterList
  code_missingThen : ∀ d ∈ missingThen, d.code = .missingThen
  code_missingDo : ∀ d ∈ missingDo, d.code = .missingDo

def LineParts.all (p : LineParts) : List Diagnostic :=
  p.brackets ++ p.closingWord.toList ++ p.parameterList.toList ++ p.missingThen.toList ++ p.missingDo.toList

/-- The diagnostics that are about the line with the number `n`. -/
def Diagnostic.onLine (n : Nat) (ds : List Diagnostic) : List Diagnostic := ds.filter fun d => d.start.line = n

/-- The keyword whose unclosed block the diagnostic is about. -/
def Diagnostic.blockKeyword? (d : Diagnostic) : Option Keyword :=
  Keyword.all.find? fun k => d = (Finding.unclosedBlock k).report d.span

/-- Diagnostics that do not wait for the end of the text: by line, and within a line part by part. -/
structure Diagnostic.LinesInOrder (ds : List Diagnostic) : Prop where
  settled : ∀ d ∈ ds, d.code ≠ .unclosedBracket ∧ d.code ≠ .unclosedBlock
  lines : ds.Pairwise fun d e => d.start.line ≤ e.start.line
  parts : ∀ n, ∃ p : LineParts, onLine n ds = p.all

/-- Diagnostics about open brackets, by position. -/
structure Diagnostic.BracketsInOrder (ds : List Diagnostic) : Prop where
  code : ∀ d ∈ ds, d.code = .unclosedBracket
  positions : ds.Pairwise fun d e => d.start < e.start

/-- Diagnostics about open blocks: by line, and within a line different keywords in the order of `Keyword.all`. -/
structure Diagnostic.BlocksInOrder (ds : List Diagnostic) : Prop where
  code : ∀ d ∈ ds, d.code = .unclosedBlock
  lines : ds.Pairwise fun d e => d.start.line ≤ e.start.line
  keywords : ∀ n, ∃ ks : List Keyword, ks.Nodup ∧ ks.Sublist Keyword.all ∧
    (onLine n ds).map blockKeyword? = ks.map some

theorem Keyword.nodup_all : Keyword.all.Nodup := by decide

/-! ### Lists made line by line -/

section LineByLine

variable {α : Type} {line : α → Nat} {n : Nat} {xs ys : List α}

private theorem pairwise_append_later (hxs : ∀ a ∈ xs, line a = n) (hys : ∀ b ∈ ys, n < line b)
    (h : ys.Pairwise fun a b => line a ≤ line b) : (xs ++ ys).Pairwise fun a b => line a ≤ line b := by
  refine List.pairwise_append.2 ⟨List.pairwise_of_forall_mem_list ?_, h, ?_⟩
  · intro a ha b hb
    rw [hxs a ha, hxs b hb]
  · intro a ha b hb
    rw [hxs a ha]
    exact Nat.le_of_lt (hys b hb)

private theorem filter_append_later (hxs : ∀ a ∈ xs, line a = n) (hys : ∀ b ∈ ys, n < line b) (m : Nat) :
    (xs ++ ys).filter (fun a => line a = m) = if n = m then xs else ys.filter fun a => line a = m := by
  rw [List.filter_append]
  split
  · rename_i hnm
    have hlater : (ys.filter fun a => line a = m) = [] := by
      rw [List.filter_eq_nil_iff]
      intro b hb
      have hlt := hys b hb
      simp only [decide_eq_true_eq]
      omega
    rw [hlater, List.append_nil, List.filter_eq_self]
    intro a ha
    simp [hxs a ha, hnm]
  · rename_i hnm
    have hnone : (xs.filter fun a => line a = m) = [] := by
      rw [List.filter_eq_nil_iff]
      intro a ha
      simpa [hxs a ha] using hnm
    rw [hnone, List.nil_append]

end LineByLine

/-! ### One line -/

theorem Scan.pairwise_columns (l : Language) (t : Text) : (ofLine l t).code.Pairwise fun x y => x.1 < y.1 := by
  obtain ⟨segments, h⟩ := Factors.exists_factors l t t.length 0 (Nat.zero_add _)
  have hscan : ofLine l t = ⟨segments.filterMap (Segment.code? t), endMode t segments⟩ := run_factors h none
  rw [hscan]
  exact h.pairwise_columns

namespace BracketStack

variable {l : Language} {s : BracketStack}

private theorem start_of_mem_read {c : Char} {p : Position} {d : Diagnostic} (hd : d ∈ (s.read l c p).2) :
    d.start = p := by
  obtain ⟨-, -, ⟨-, rfl⟩ | ⟨b, rest, -, -, rfl⟩⟩ := mem_read hd <;> rfl

/-- Diagnostics are made at some of the characters read, in their order. -/
theorem starts_readAll_sublist (s : BracketStack) (l : Language) (xs : List (Char × Position)) :
    ((s.readAll l xs).2.map Diagnostic.start).Sublist (xs.map Prod.snd) := by
  induction xs generalizing s with
  | nil => exact List.Sublist.slnil
  | cons x xs ih =>
    have hrest := ih (s.read l x.1 x.2).1
    simp only [readAll, List.map_append, List.map_cons]
    cases hd : (s.read l x.1 x.2).2 with
    | none => exact hrest.cons _
    | some d =>
      have hstart : d.start = x.2 := start_of_mem_read (Option.mem_def.2 hd)
      simpa [hstart] using hrest

private theorem code_readAll {xs : List (Char × Position)} {d : Diagnostic} (hd : d ∈ (s.readAll l xs).2) :
    d.code = .unexpectedClosingBracket ∨ d.code = .mismatchedBrackets := by
  obtain ⟨x, -, s', hd'⟩ := mem_readAll hd
  obtain ⟨-, -, ⟨-, rfl⟩ | ⟨b, rest, -, -, rfl⟩⟩ := mem_read hd'
  · exact Or.inl rfl
  · exact Or.inr rfl

end BracketStack

namespace Linter

variable (lt : Linter)

/-- The code characters of a line stand on that line one behind the other. -/
theorem pairwise_codeOf (l : Language) (number : Nat) (t : Text) :
    (codeOf l number t).Pairwise fun x y => x.2.line = y.2.line ∧ x.2.column < y.2.column := by
  rw [codeOf, List.pairwise_map]
  exact (Scan.pairwise_columns l t).imp fun hlt => ⟨rfl, hlt⟩

private theorem line_of_mem_codeOf {l : Language} {number : Nat} {t : Text} {x : Char × Position}
    (hx : x ∈ codeOf l number t) : x.2.line = number := by
  obtain ⟨y, -, rfl⟩ := List.mem_map.1 hx
  rfl

/-- The columns of the bracket diagnostics of a line, which are columns of its code characters, increase. -/
theorem columns_readAll (s : BracketStack) (l : Language) (number : Nat) (t : Text) :
    (s.readAll l (codeOf l number t)).2.Pairwise fun d e => d.start.column < e.start.column := by
  have hcode : ((codeOf l number t).map Prod.snd).Pairwise fun p q => p.column < q.column := by
    rw [List.pairwise_map]
    exact (pairwise_codeOf l number t).imp fun h => h.2
  have hstarts := hcode.sublist (s.starts_readAll_sublist l (codeOf l number t))
  rwa [List.pairwise_map] at hstarts

private theorem code_of_mem_ite {b : Prop} [Decidable b] {f : Finding} {span : Span} {d : Diagnostic}
    (hd : d ∈ if b then some (f.report span) else none) : d.code = f.code := by
  obtain ⟨-, hd⟩ := Option.mem_ite_none_right.1 hd
  rw [← Option.mem_some.1 hd]
  rfl

/-- The parts of what is said about one line. -/
def lineParts (s : Nesting) (number : Nat) (t : Text) : LineParts where
  brackets := (s.brackets.readAll lt.language (codeOf lt.language number t)).2
  closingWord := (s.blocks.readLine number t.length t.trim (lt.language.startsComment t.trim)).2
  parameterList :=
    let v := view lt.language number t
    if lt.rules.wantsParameterEnd && v.lacksParameterEnd then
      some (Finding.unclosedParameterList.report (Span.inLine number v.parenColumn t.length)) else none
  missingThen :=
    let v := view lt.language number t
    if lt.rules.wantsThen && v.lacksThen then some (Finding.missingThen.report v.whole) else none
  missingDo :=
    let v := view lt.language number t
    if lt.rules.wantsDo && v.lacksDo then some (Finding.missingDo.report v.whole) else none
  code_brackets d hd := BracketStack.code_readAll hd
  columns_brackets := columns_readAll _ _ _ _
  code_closingWord d hd := by
    obtain ⟨-, rfl⟩ | ⟨-, rfl⟩ := BlockStack.mem_readLine hd
    · exact Or.inl rfl
    · exact Or.inr rfl
  code_parameterList _ hd := code_of_mem_ite hd
  code_missingThen _ hd := code_of_mem_ite hd
  code_missingDo _ hd := code_of_mem_ite hd

private theorem lintLine_eq_parts (s : Nesting) (number : Nat) (t : Text) :
    (lt.lintLine s number t).2 = (lt.lineParts s number t).all := by
  simp only [lintLine, lineParts, LineParts.all, LineView.omissions, apply_ite Option.toList, Option.toList_some,
    Option.toList_none, List.append_assoc]
  rfl

theorem line_of_mem_lintLine {s : Nesting} {number : Nat} {t : Text} {d : Diagnostic}
    (hd : d ∈ (lt.lintLine s number t).2) : d.start.line = number := by
  simp only [lintLine, List.mem_append, Option.mem_toList] at hd
  rcases hd with (hd | hd) | hd
  · obtain ⟨x, hx, s', hd'⟩ := BracketStack.mem_readAll hd
    rw [BracketStack.start_of_mem_read hd', line_of_mem_codeOf hx]
  · obtain ⟨-, rfl⟩ | ⟨-, rfl⟩ := BlockStack.mem_readLine hd <;> rfl
  · simp only [LineView.omissions, List.mem_append, List.mem_ite_nil_right, List.mem_singleton] at hd
    rcases hd with (⟨-, rfl⟩ | ⟨-, rfl⟩) | ⟨-, rfl⟩ <;> rfl

/-! ### Line after line -/

theorem le_line_of_mem_lintLines {s : Nesting} {number : Nat} {lines : List Text} {d : Diagnostic}
    (hd : d ∈ (lt.lintLines s number lines).2) : number ≤ d.start.line := by
  induction lines generalizing s number with
  | nil => cases hd
  | cons t rest ih =>
    rcases List.mem_append.1 hd with hd | hd
    · rw [lt.line_of_mem_lintLine hd]
    · exact Nat.le_of_succ_le (ih hd)

private theorem pairwise_lintLines (s : Nesting) (number : Nat) (lines : List Text) :
    (lt.lintLines s number lines).2.Pairwise fun d e => d.start.line ≤ e.start.line := by
  induction lines generalizing s number with
  | nil => exact List.Pairwise.nil
  | cons t rest ih =>
    exact pairwise_append_later (fun d hd => lt.line_of_mem_lintLine hd)
      (fun d hd => lt.le_line_of_mem_lintLines hd) (ih _ _)

/-- What a run says about one line is what it says when it reads that line. -/
theorem onLine_lintLines (s : Nesting) (number : Nat) (lines : List Text) (n : Nat) :
    ∃ p : LineParts, Diagnostic.onLine n (lt.lintLines s number lines).2 = p.all := by
  induction lines generalizing s number with
  | nil => exact ⟨⟨[], none, none, none, none, by simp, by simp, by simp, by simp, by simp, by simp⟩, rfl⟩
  | cons t rest ih =>
    have hline : ∀ d ∈ (lt.lintLine s number t).2, d.start.line = number := fun d hd => lt.line_of_mem_lintLine hd
    have hlater : ∀ d ∈ (lt.lintLines (lt.lintLine s number t).1 (number + 1) rest).2, number < d.start.line :=
      fun d hd => lt.le_line_of_mem_lintLines hd
    rw [lintLines, Diagnostic.onLine, filter_append_later hline hlater]
    split
    · exact ⟨lt.lineParts s number t, lt.lintLine_eq_parts s number t⟩
    · exact ih _ _

private theorem linesInOrder_lintLines (lines : List Text) :
    Diagnostic.LinesInOrder (lt.lintLines .none 0 lines).2 where
  settled := lt.code_lintLines _ _ _
  lines := lt.pairwise_lintLines _ _ _
  parts := lt.onLine_lintLines _ _ _

end Linter

/-! ### Open brackets -/

namespace BracketStack

/-- One character: what is open is a part of what was open and the character. -/
theorem positions_read_sublist (s : BracketStack) (l : Language) (c : Char) (p : Position) :
    ((s.read l c p).1.items.reverse.map OpenBracket.position).Sublist
      (s.items.reverse.map OpenBracket.position ++ [p]) := by
  rcases s.read_cases l c p with ⟨e, he⟩ | hpop | hsame
  · rw [he]
    simp
  · rw [hpop]
    exact ((List.tail_sublist _).reverse.map _).trans (List.sublist_append_left _ _)
  · rw [hsame]
    exact List.sublist_append_left _ _

/-- Many characters: what is open is a part, in order, of what was open and the characters. -/
theorem positions_readAll_sublist (s : BracketStack) (l : Language) (xs : List (Char × Position)) :
    ((s.readAll l xs).1.items.reverse.map OpenBracket.position).Sublist
      (s.items.reverse.map OpenBracket.position ++ xs.map Prod.snd) := by
  induction xs generalizing s with
  | nil => simp [readAll]
  | cons x xs ih =>
    have hstep := s.positions_read_sublist l x.1 x.2
    have hrest := (ih (s.read l x.1 x.2).1).trans (hstep.append_right (xs.map Prod.snd))
    rwa [List.append_assoc] at hrest

end BracketStack

namespace Linter

/-- The code characters of a text stand one behind the other. -/
theorem pairwise_codeFrom (l : Language) (number : Nat) (lines : List Text) :
    ((codeFrom l number lines).map Prod.snd).Pairwise (· < ·) := by
  rw [List.pairwise_map]
  induction lines generalizing number with
  | nil => exact List.Pairwise.nil
  | cons t rest ih =>
    rw [codeFrom_cons]
    refine List.pairwise_append.2 ⟨(pairwise_codeOf l number t).imp Or.inr, ih _, ?_⟩
    intro x hx y hy
    have hline := line_of_mem_codeOf hx
    have hle := (line_of_mem_codeFrom hy).1
    exact Or.inl (by omega)

private theorem bracketsInOrder_unclosed (lt : Linter) (lines : List Text) (width : Nat) :
    Diagnostic.BracketsInOrder ((lt.lintLines .none 0 lines).1.brackets.unclosed width) where
  code := BracketStack.code_unclosed _ _
  positions := by
    rw [nesting_lintLines, OpenStack.unclosed, List.pairwise_map]
    have hsub := BracketStack.positions_readAll_sublist .empty lt.language (codeFrom lt.language 0 lines)
    exact List.pairwise_map.1 ((pairwise_codeFrom lt.language 0 lines).sublist hsub)

end Linter

/-! ### Open blocks -/

namespace BlockStack

/-- The blocks that a line opens. -/
def openedBy (l : Language) (number : Nat) (t : Text) : List OpenBlock :=
  (if l.startsComment t.trim then [] else Keyword.allIn t.trim).map fun k => ⟨k, number⟩

/-- The blocks that lines open, the first of which has the given number. -/
def openedFrom (l : Language) (number : Nat) (lines : List Text) : List OpenBlock :=
  (lines.zipIdx number).flatMap fun x => openedBy l x.2 x.1

private theorem openedFrom_cons (l : Language) (number : Nat) (t : Text) (rest : List Text) :
    openedFrom l number (t :: rest) = openedBy l number t ++ openedFrom l (number + 1) rest := by
  simp [openedFrom]

private theorem line_of_mem_openedBy {l : Language} {number : Nat} {t : Text} {b : OpenBlock}
    (hb : b ∈ openedBy l number t) : b.line = number := by
  obtain ⟨k, -, rfl⟩ := List.mem_map.1 hb
  rfl

private theorem le_line_of_mem_openedFrom {l : Language} {number : Nat} {lines : List Text} {b : OpenBlock}
    (hb : b ∈ openedFrom l number lines) : number ≤ b.line := by
  obtain ⟨x, hx, hb⟩ := List.mem_flatMap.1 hb
  rw [line_of_mem_openedBy hb]
  exact List.le_snd_of_mem_zipIdx hx

/-- One line: what is open is a part of what was open and what the line opens. -/
theorem items_readLine_sublist (s : BlockStack) (l : Language) (number : Nat) (t : Text) :
    ((s.readLine number t.length t.trim (l.startsComment t.trim)).1.items.reverse).Sublist
      (s.items.reverse ++ openedBy l number t) := by
  have hopen : (s.openAll number (if l.startsComment t.trim then [] else Keyword.allIn t.trim)).items.reverse =
      s.items.reverse ++ openedBy l number t := by
    simp [items_openAll, openedBy]
  rw [← hopen, readLine]
  rcases close_cases _ number t.length t.trim with hpop | hsame
  · rw [hpop]
    exact (List.tail_sublist _).reverse
  · rw [hsame]

/-- Many lines: what is open is a part, in order, of what was open and what the lines open. -/
theorem items_readLines_sublist (s : BlockStack) (l : Language) (number : Nat) (lines : List Text) :
    ((s.readLines l number lines).1.items.reverse).Sublist (s.items.reverse ++ openedFrom l number lines) := by
  induction lines generalizing s number with
  | nil => simp [readLines, openedFrom]
  | cons t rest ih =>
    have hstep := s.items_readLine_sublist l number t
    have hrest := (ih (s.readLine number t.length t.trim (l.startsComment t.trim)).1 (number + 1)).trans
      (hstep.append_right (openedFrom l (number + 1) rest))
    rwa [List.append_assoc, ← openedFrom_cons] at hrest

private theorem pairwise_openedFrom (l : Language) (number : Nat) (lines : List Text) :
    (openedFrom l number lines).Pairwise fun a b => a.line ≤ b.line := by
  induction lines generalizing number with
  | nil => exact List.Pairwise.nil
  | cons t rest ih =>
    rw [openedFrom_cons]
    exact pairwise_append_later (fun b hb => line_of_mem_openedBy hb)
      (fun b hb => le_line_of_mem_openedFrom hb) (ih _)

/-- On one line each keyword opens at most one block, and the blocks are opened in the order of the keywords. -/
theorem filter_openedFrom_sublist (l : Language) (number : Nat) (lines : List Text) (n : Nat) :
    ((openedFrom l number lines).filter fun b => b.line = n).Sublist (Keyword.all.map fun k => ⟨k, n⟩) := by
  induction lines generalizing number with
  | nil => exact List.nil_sublist _
  | cons t rest ih =>
    rw [openedFrom_cons, filter_append_later (fun b hb => line_of_mem_openedBy hb)
      (fun b hb => le_line_of_mem_openedFrom hb)]
    split
    · rename_i hn
      subst hn
      unfold openedBy
      split
      · exact List.nil_sublist _
      · exact List.filter_sublist.map _
    · exact ih _

end BlockStack

/-- Unclosed blocks of different keywords have different messages. -/
theorem Finding.message_unclosedBlock_inj {k k' : Keyword}
    (h : (Finding.unclosedBlock k).message = (Finding.unclosedBlock k').message) : k = k' := by
  revert h
  cases k <;> cases k' <;> decide

private theorem OpenBlock.blockKeyword?_unclosed (b : OpenBlock) (width : Nat) :
    (Opened.unclosed b width).blockKeyword? = some b.keyword := by
  have hkeyword : ∀ k, Opened.unclosed b width = (Finding.unclosedBlock k).report (Opened.unclosed b width).span ↔
      b.keyword = k := by
    intro k
    refine ⟨fun h => Finding.message_unclosedBlock_inj (congrArg Diagnostic.message h), ?_⟩
    rintro rfl
    rfl
  simp only [Diagnostic.blockKeyword?, hkeyword]
  cases b.keyword <;> rfl

namespace Linter

private theorem blocksInOrder_unclosed (lt : Linter) (lines : List Text) (width : Nat) :
    Diagnostic.BlocksInOrder ((lt.lintLines .none 0 lines).1.blocks.unclosed width) := by
  rw [nesting_lintLines]
  have hsub := BlockStack.items_readLines_sublist .empty lt.language 0 lines
  refine ⟨BlockStack.code_unclosed _ _, ?_, ?_⟩
  · rw [OpenStack.unclosed, List.pairwise_map]
    exact (BlockStack.pairwise_openedFrom lt.language 0 lines).sublist hsub
  · intro n
    have hline := (hsub.filter fun b => b.line = n).trans
      (BlockStack.filter_openedFrom_sublist lt.language 0 lines n)
    obtain ⟨ks, hks, heq⟩ := List.sublist_map_iff.1 hline
    refine ⟨ks, hks.nodup Keyword.nodup_all, hks, ?_⟩
    -- the line of the diagnostic of a block is the block's line
    rw [OpenStack.unclosed, Diagnostic.onLine, List.filter_map, List.map_map]
    calc _ = List.map (fun b : OpenBlock => some b.keyword) (ks.map fun k => ⟨k, n⟩) := by
          rw [← heq]
          exact List.map_congr_left fun b _ => b.blockKeyword?_unclosed width
      _ = ks.map some := by rw [List.map_map]; rfl

/-- The diagnostics of a text: those of its lines in order, then the open brackets in order, then the open blocks
in order. -/
theorem lint_in_order (lt : Linter) (text : Text) :
    ∃ found openBrackets openBlocks, lt.lint text = found ++ openBrackets ++ openBlocks ∧
      Diagnostic.LinesInOrder found ∧ Diagnostic.BracketsInOrder openBrackets ∧
        Diagnostic.BlocksInOrder openBlocks := by
  have hfound := lt.linesInOrder_lintLines text.lines
  have hbrackets := lt.bracketsInOrder_unclosed text.lines lt.rules.blockWidth
  have hblocks := lt.blocksInOrder_unclosed text.lines lt.rules.blockWidth
  refine ⟨_, _, _, ?_, hfound, hbrackets, hblocks⟩
  rw [lint, finish, List.append_assoc]

end Linter

end ScriptLint
