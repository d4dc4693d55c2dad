import ScriptLint.Proofs.Strands
import ScriptLint.Proofs.WholeWords

/-!
# The account of blocks

No block is lost and none is counted twice.  Of the blocks that the keywords of a text open, each is closed by a
closing word or is reported as left open, and a closing word closes a block exactly when it is not reported itself.
So the numbers agree, and they can be read off the text and its diagnostics alone (`lint_accounts_for_blocks`).

One line changes the number of open blocks by what it opens and by what its closing word closes
(`BlockStack.accounted_readLine`); the accounts of lines that follow one another add up (`Accounted.append`).
-/

namespace ScriptLint

/-! ### Counting -/

def Code.countIn (c : Code) (ds : List Diagnostic) : Nat := ds.countP fun d => d.code = c

namespace Code

variable {c : Code} {ds es : List Diagnostic}

private theorem countIn_append : c.countIn (ds ++ es) = c.countIn ds + c.countIn es := List.countP_append

private theorem countIn_eq_zero (h : ∀ d ∈ ds, d.code ≠ c) : c.countIn ds = 0 := by
  rw [countIn, List.countP_eq_zero]
  intro d hd
  simpa using h d hd

private theorem countIn_eq_length (h : ∀ d ∈ ds, d.code = c) : c.countIn ds = ds.length := by
  rw [countIn, List.countP_eq_length]
  intro d hd
  simpa using h d hd

/-- A code is counted within its own strand. -/
theorem countIn_pick (c : Code) (ds : List Diagnostic) : c.countIn (c.strand.pick ds) = c.countIn ds := by
  rw [countIn, Strand.pick, List.countP_filter]
  apply List.countP_congr
  intro d _
  by_cases hd : d.code = c <;> simp [hd]

end Code

/-- The number of keywords of lines, comment lines left out.  A keyword counts once for each line that has it. -/
def Language.keywordTotal (l : Language) : List Text → Nat
  | [] => 0
  | t :: rest => (if l.startsComment t.trim then 0 else (Keyword.allIn t.trim).length) + l.keywordTotal rest

private theorem Language.keywordTotal_append (l : Language) (xs ys : List Text) :
    l.keywordTotal (xs ++ ys) = l.keywordTotal xs + l.keywordTotal ys := by
  induction xs with
  | nil => simp [keywordTotal]
  | cons t rest ih => simp only [List.cons_append, keywordTotal, ih, Nat.add_assoc]

/-- How many of the lines are this word and nothing else, blanks apart. -/
def Text.wordLines (word : String) (lines : List Text) : Nat := lines.countP fun t => t.trim = word.toList

private theorem Text.wordLines_append (word : String) (xs ys : List Text) :
    wordLines word (xs ++ ys) = wordLines word xs + wordLines word ys := List.countP_append

private theorem Text.wordLines_singleton (word : String) (t : Text) :
    wordLines word [t] = if t.trim = word.toList then 1 else 0 := by
  simp only [wordLines, List.countP_cons, List.countP_nil, Nat.zero_add, decide_eq_true_eq]

/-! ### The account of lines -/

/-- What was open before some lines, what is open after them and what was said about them agree: every block is
still open or was closed, and every closing word closed a block or was reported. -/
structure Accounted (l : Language) (lines : List Text) (before after : BlockStack) (said : List Diagnostic) :
    Prop where
  ends : Code.unexpectedEnd.countIn said ≤ Text.wordLines "end" lines
  untils : Code.unmatchedUntil.countIn said ≤ Text.wordLines "until" lines
  total : before.size + l.keywordTotal lines + Code.unexpectedEnd.countIn said + Code.unmatchedUntil.countIn said =
    after.size + Text.wordLines "end" lines + Text.wordLines "until" lines

theorem Accounted.append {l : Language} {xs ys : List Text} {s s' s'' : BlockStack} {ds es : List Diagnostic}
    (hx : Accounted l xs s s' ds) (hy : Accounted l ys s' s'' es) : Accounted l (xs ++ ys) s s'' (ds ++ es) := by
  have hxends := hx.ends
  have hyends := hy.ends
  have hxuntils := hx.untils
  have hyuntils := hy.untils
  have hxtotal := hx.total
  have hytotal := hy.total
  constructor
  · rw [Code.countIn_append, Text.wordLines_append]
    omega
  · rw [Code.countIn_append, Text.wordLines_append]
    omega
  · simp only [Code.countIn_append, Text.wordLines_append, Language.keywordTotal_append]
    omega

namespace BlockStack

variable (s : BlockStack) (l : Language) (number : Nat)

private theorem size_openAll (keywords : List Keyword) :
    (s.openAll number keywords).size = s.size + keywords.length := by
  rw [OpenStack.size, OpenStack.size, items_openAll]
  simp only [List.length_append, List.length_reverse, List.length_map]
  omega

private theorem size_close_end (length : Nat) :
    (s.close number length "end".toList).1.size + 1 =
      s.size + Code.unexpectedEnd.countIn (s.close number length "end".toList).2.toList := by
  cases hs : s.items with
  | nil => rw [close_end_nil hs, OpenStack.size, hs]; rfl
  | cons b rest => rw [close_end_cons hs, OpenStack.size, OpenStack.size, hs]; rfl

private theorem size_close_until (length : Nat) :
    (s.close number length "until".toList).1.size + 1 =
      s.size + Code.unmatchedUntil.countIn (s.close number length "until".toList).2.toList := by
  cases hs : s.items with
  | nil => rw [close_until_nil hs, OpenStack.size, hs]; rfl
  | cons b rest =>
    rw [close_until_cons hs]
    -- the word is reported, and nothing closed, where the innermost block is no `repeat`
    split
    · rw [OpenStack.size, OpenStack.size, hs]; rfl
    · rfl

/-- Only closing words are reported. -/
theorem countIn_readLine (t : Text) (isComment : Bool) :
    Code.unexpectedEnd.countIn (s.readLine number t.length t.trim isComment).2.toList ≤ Text.wordLines "end" [t] ∧
      Code.unmatchedUntil.countIn (s.readLine number t.length t.trim isComment).2.toList ≤
        Text.wordLines "until" [t] := by
  cases hd : (s.readLine number t.length t.trim isComment).2 with
  | none => exact ⟨Nat.zero_le _, Nat.zero_le _⟩
  | some d =>
    obtain ⟨ht, rfl⟩ | ⟨ht, rfl⟩ := mem_readLine (Option.mem_def.2 hd)
    · have hends : Text.wordLines "end" [t] = 1 := by rw [Text.wordLines_singleton, if_pos ht]
      exact ⟨Nat.le_of_eq hends.symm, Nat.zero_le _⟩
    · have huntils : Text.wordLines "until" [t] = 1 := by rw [Text.wordLines_singleton, if_pos ht]
      exact ⟨Nat.zero_le _, Nat.le_of_eq huntils.symm⟩

/-- One line: its keywords open blocks, and then its closing word, if it is one, closes a block or is reported. -/
theorem accounted_readLine (t : Text) :
    Accounted l [t] s (s.readLine number t.length t.trim (l.startsComment t.trim)).1
      (s.readLine number t.length t.trim (l.startsComment t.trim)).2.toList := by
  obtain ⟨hends, huntils⟩ := s.countIn_readLine number t (l.startsComment t.trim)
  refine ⟨hends, huntils, ?_⟩
  have hopened : (s.openAll number (if l.startsComment t.trim then [] else Keyword.allIn t.trim)).size =
      s.size + l.keywordTotal [t] := by
    rw [size_openAll, Language.keywordTotal, Language.keywordTotal]
    split <;> rfl
  rw [Text.wordLines_singleton] at hends huntils
  rw [Text.wordLines_singleton, Text.wordLines_singleton]
  unfold readLine at hends huntils ⊢
  generalize s.openAll number (if l.startsComment t.trim then [] else Keyword.allIn t.trim) = s' at *
  by_cases he : t.trim = "end".toList
  · have hu : "end".toList ≠ "until".toList := by decide
    have hsize := s'.size_close_end number t.length
    rw [he, if_neg hu] at huntils
    rw [he, if_pos rfl, if_neg hu]
    omega
  by_cases hu : t.trim = "until".toList
  · have hsize := s'.size_close_until number t.length
    rw [if_neg he, hu] at hends
    rw [if_neg he, hu, if_pos rfl]
    omega
  · rw [if_neg he, if_neg hu, close_other he hu]
    exact hopened.symm

/-- Many lines: induction on the lines, with the stack before them left open. -/
theorem accounted_readLines (lines : List Text) :
    Accounted l lines s (s.readLines l number lines).1 (s.readLines l number lines).2 := by
  induction lines generalizing s number with
  | nil => exact ⟨Nat.le_refl 0, Nat.le_refl 0, rfl⟩
  | cons t rest ih =>
    have hline := s.accounted_readLine l number t
    exact hline.append (ih _ (number + 1))

end BlockStack

/-! ### Texts -/

namespace Linter

variable (lt : Linter) (text : Text)

/-- The codes of blocks are counted in what the block reader says. -/
theorem countIn_lint {c : Code} (hc : c.strand = .block) :
    c.countIn (lt.lint text) =
      c.countIn (BlockStack.readLines .empty lt.language 0 text.lines).2 +
        c.countIn ((BlockStack.readLines .empty lt.language 0 text.lines).1.unclosed lt.rules.blockWidth) := by
  rw [← Code.countIn_pick, hc, pick_block_lint, BlockStack.report, Code.countIn_append]

private theorem countIn_unclosedBlock_lint :
    Code.unclosedBlock.countIn (lt.lint text) =
      (BlockStack.readLines .empty lt.language 0 text.lines).1.size := by
  have hsaid : Code.unclosedBlock.countIn (BlockStack.readLines .empty lt.language 0 text.lines).2 = 0 := by
    apply Code.countIn_eq_zero
    intro d hd
    obtain ⟨x, -, s, hd'⟩ := BlockStack.mem_readLines hd
    obtain ⟨-, rfl⟩ | ⟨-, rfl⟩ := BlockStack.mem_readLine hd' <;> exact nofun
  rw [lt.countIn_lint text rfl, hsaid, Nat.zero_add, Code.countIn_eq_length (BlockStack.code_unclosed _ _),
    OpenStack.unclosed, List.length_map, List.length_reverse, OpenStack.size]

private theorem countIn_closingWord_lint {c : Code} (hc : c.strand = .block) (hne : c ≠ .unclosedBlock) :
    c.countIn (lt.lint text) = c.countIn (BlockStack.readLines .empty lt.language 0 text.lines).2 := by
  rw [lt.countIn_lint text hc, Nat.add_eq_left]
  apply Code.countIn_eq_zero
  intro d hd
  rw [BlockStack.code_unclosed _ _ d hd]
  exact hne.symm

/-- An open block was opened by a keyword that is a word of its line. -/
theorem hasWord_of_unclosedBlock {d : Diagnostic} (hd : d ∈ lt.lint text) (hcode : d.code = .unclosedBlock) :
    ∃ (k : Keyword) (line : Text),
      d.message = "Unclosed '" ++ k.word ++ "' block - missing '" ++ k.closingWord ++ "'" ∧
      text.lines[d.start.line]? = some line ∧ lt.language.startsComment line.trim = false ∧
      line.HasWord k.word.toList := by
  have hfilter : d ∈ (lt.lint text).filter fun d => d.code = .unclosedBlock := by simp [hd, hcode]
  rw [filter_unclosedBlock_lint, nesting_lintLines] at hfilter
  obtain ⟨b, hb, rfl⟩ := List.mem_map.1 hfilter
  rcases BlockStack.mem_items_readLines (List.mem_reverse.1 hb) with hb | ⟨⟨line, number⟩, hx, hcomment, hk, hline⟩
  · cases hb
  · have hword : b.keyword.word.toList ∈ line.trim.words := by simpa [Keyword.allIn] using (List.mem_filter.1 hk).2
    refine ⟨b.keyword, line, rfl, ?_, hcomment, Text.hasWord_of_trim (Text.hasWord_of_mem_words hword)⟩
    have hget := List.mem_zipIdx_iff_getElem?.1 hx
    rwa [← hline] at hget

/-- Of the blocks that keywords open, as many are closed as there are closing words that are not reported, and the
rest is reported, each at its line by its keyword. -/
theorem lint_accounts_for_blocks (lt : Linter) (text : Text) :
    Code.unexpectedEnd.countIn (lt.lint text) ≤ Text.wordLines "end" text.lines ∧
      Code.unmatchedUntil.countIn (lt.lint text) ≤ Text.wordLines "until" text.lines ∧
      lt.language.keywordTotal text.lines =
        (Text.wordLines "end" text.lines - Code.unexpectedEnd.countIn (lt.lint text)) +
          (Text.wordLines "until" text.lines - Code.unmatchedUntil.countIn (lt.lint text)) +
            Code.unclosedBlock.countIn (lt.lint text) ∧
      ∀ d ∈ lt.lint text, d.code = .unclosedBlock →
        ∃ (k : Keyword) (line : Text),
          d.message = "Unclosed '" ++ k.word ++ "' block - missing '" ++ k.closingWord ++ "'" ∧
          text.lines[d.start.line]? = some line ∧ lt.language.startsComment line.trim = false ∧
          line.HasWord k.word.toList := by
  obtain ⟨hends, huntils, htotal⟩ := BlockStack.accounted_readLines .empty lt.language 0 text.lines
  have hfresh : (OpenStack.empty : BlockStack).size = 0 := rfl
  rw [lt.countIn_closingWord_lint text (c := .unexpectedEnd) rfl (by decide),
    lt.countIn_closingWord_lint text (c := .unmatchedUntil) rfl (by decide), countIn_unclosedBlock_lint]
  refine ⟨hends, huntils, by omega, fun d hd hcode => lt.hasWord_of_unclosedBlock text hd hcode⟩

/-- Of three blocks the `end` closes one, and the `until` none. -/
example :
    Language.lua.keywordTotal (Text.lines "while x do\nuntil\nend\nfor".toList) = 3 ∧
      Code.unexpectedEnd.countIn (default.lint "while x do\nuntil\nend\nfor".toList) = 0 ∧
      Code.unmatchedUntil.countIn (default.lint "while x do\nuntil\nend\nfor".toList) = 1 ∧
      Code.unclosedBlock.countIn (default.lint "while x do\nuntil\nend\nfor".toList) = 2 := by
  decide

end Linter

end ScriptLint
