import ScriptLint.Proofs.Strands

/-!
# Lines added below a text

Lines that are added below a text do not rewrite what has been found in it (`lint_append_keeps`).  The diagnostics
that do not wait for the end of the text stay as they are.  Of the things that were left open, the new lines close
some from the inside on, and those that stay open are reported as before.

The second part holds because a stack is only ever changed at its top.  After any further lines it rests on what it
was before (`OpenStack.RestsOn`): it is an outer part of the old stack, with things above it that the new lines
have opened.
-/

namespace ScriptLint

/-! ### Stacks that rest on another -/

/-- What is open in `s` is an outer part of what is open in `base`, and within it new things only. -/
def OpenStack.RestsOn {α : Type} (New : α → Prop) (s base : OpenStack α) : Prop :=
  ∃ inner outer, s.items = inner ++ outer ∧ outer <:+ base.items ∧ ∀ a ∈ inner, New a

namespace OpenStack.RestsOn

variable {α : Type} {New : α → Prop} {s base : OpenStack α}

theorem refl (New : α → Prop) (s : OpenStack α) : s.RestsOn New s :=
  ⟨[], s.items, rfl, List.suffix_rfl, by simp⟩

theorem push {a : α} (hs : s.RestsOn New base) (ha : New a) : (s.push a).RestsOn New base := by
  obtain ⟨inner, outer, hitems, houter, hinner⟩ := hs
  refine ⟨a :: inner, outer, by simp [hitems], houter, ?_⟩
  intro b hb
  rcases List.mem_cons.1 hb with rfl | hb
  · exact ha
  · exact hinner b hb

theorem pop (hs : s.RestsOn New base) : s.pop.RestsOn New base := by
  obtain ⟨inner, outer, hitems, houter, hinner⟩ := hs
  cases inner with
  | nil => exact ⟨[], outer.tail, by simp [hitems], (List.tail_suffix outer).trans houter, by simp⟩
  | cons a inner =>
    exact ⟨inner, outer, by simp [hitems], houter, fun b hb => hinner b (List.mem_cons_of_mem _ hb)⟩

/-- Where the line of a report tells new things from old ones, the reports about old things are those about the
outer part of the old stack. -/
theorem filter_unclosed [Opened α] {width n : Nat} (hs : s.RestsOn New base)
    (hnew : ∀ a, New a → n ≤ (Opened.unclosed a width).start.line)
    (hold : ∀ a ∈ base.items, (Opened.unclosed a width).start.line < n) :
    ((s.unclosed width).filter fun d => d.start.line < n) <+: base.unclosed width := by
  obtain ⟨inner, outer, hitems, houter, hinner⟩ := hs
  have hdrop : ((inner.reverse.map fun a => Opened.unclosed a width).filter fun d => d.start.line < n) = [] := by
    rw [List.filter_eq_nil_iff]
    intro d hd
    obtain ⟨a, ha, rfl⟩ := List.mem_map.1 hd
    simpa using hnew a (hinner a (List.mem_reverse.1 ha))
  have hkeep : ((outer.reverse.map fun a => Opened.unclosed a width).filter fun d => d.start.line < n) =
      outer.reverse.map fun a => Opened.unclosed a width := by
    rw [List.filter_eq_self]
    intro d hd
    obtain ⟨a, ha, rfl⟩ := List.mem_map.1 hd
    simpa using hold a (houter.mem (List.mem_reverse.1 ha))
  rw [unclosed, hitems, List.reverse_append, List.map_append, List.filter_append, hdrop, hkeep, List.append_nil]
  exact houter.reverse.map _

end OpenStack.RestsOn

/-! ### The two stacks -/

namespace BracketStack

variable {l : Language} {New : OpenBracket → Prop} {base : BracketStack}

/-- A character is pushed, takes the innermost bracket, or changes nothing. -/
theorem read_cases (s : BracketStack) (l : Language) (c : Char) (p : Position) :
    (∃ e, (s.read l c p).1 = s.push ⟨c, e, p⟩) ∨ (s.read l c p).1 = s.pop ∨ (s.read l c p).1 = s := by
  cases ho : l.closing? c with
  | some e => exact Or.inl ⟨e, by rw [read_opener ho]⟩
  | none =>
    right
    have ho' := Language.closing?_eq_none_iff.1 ho
    by_cases hc : l.closes c = true
    · rw [read_closer ho' hc]
      cases hs : s.items with
      | nil => right; rw [close_nil hs]
      | cons b rest => left; rw [close_cons hs, OpenStack.pop, hs]; rfl
    · right; rw [read_other (by simp [Language.isBracket, ho', hc])]

private theorem restsOn_readAll {xs : List (Char × Position)} (hnew : ∀ x ∈ xs, ∀ e, New ⟨x.1, e, x.2⟩)
    {s : BracketStack} (hs : s.RestsOn New base) : (s.readAll l xs).1.RestsOn New base := by
  induction xs generalizing s with
  | nil => exact hs
  | cons x xs ih =>
    refine ih (fun y hy => hnew y (List.mem_cons_of_mem _ hy)) ?_
    rcases s.read_cases l x.1 x.2 with ⟨e, he⟩ | hpop | hsame
    · rw [he]; exact hs.push (hnew x (List.mem_cons_self ..) e)
    · rw [hpop]; exact hs.pop
    · rwa [hsame]

end BracketStack

namespace BlockStack

variable {New : OpenBlock → Prop} {base : BlockStack}

private theorem restsOn_openAll {line : Nat} (hnew : ∀ k, New ⟨k, line⟩) {s : BlockStack} (hs : s.RestsOn New base)
    (keywords : List Keyword) : (s.openAll line keywords).RestsOn New base := by
  unfold openAll
  induction keywords generalizing s with
  | nil => exact hs
  | cons k rest ih => exact ih (hs.push (hnew k))

/-- A line takes the innermost block or none, once its own blocks are opened. -/
theorem close_cases (s : BlockStack) (line length : Nat) (trimmed : Text) :
    (s.close line length trimmed).1 = s.pop ∨ (s.close line length trimmed).1 = s := by
  unfold close
  split
  · split
    · exact Or.inr rfl
    · exact Or.inl rfl
  · split
    · split
      · exact Or.inl rfl
      · exact Or.inr rfl
    · exact Or.inr rfl

private theorem restsOn_readLines {l : Language} {number : Nat} {lines : List Text}
    (hnew : ∀ k n, number ≤ n → New ⟨k, n⟩) {s : BlockStack} (hs : s.RestsOn New base) :
    (s.readLines l number lines).1.RestsOn New base := by
  induction lines generalizing s number with
  | nil => exact hs
  | cons line rest ih =>
    refine ih (fun k n hn => hnew k n (by omega)) ?_
    have hopen := restsOn_openAll (fun k => hnew k number (Nat.le_refl _)) hs
      (if l.startsComment line.trim then [] else Keyword.allIn line.trim)
    rcases close_cases _ number line.length line.trim with hpop | hsame
    · rw [readLine, hpop]; exact hopen.pop
    · rwa [readLine, hsame]

end BlockStack

/-! ### Texts -/

namespace Linter

theorem line_of_mem_codeFrom {l : Language} {number : Nat} {lines : List Text} {x : Char × Position}
    (hx : x ∈ codeFrom l number lines) : number ≤ x.2.line ∧ x.2.line < number + lines.length := by
  obtain ⟨⟨line, k⟩, hline, hx⟩ := List.mem_flatMap.1 hx
  obtain ⟨⟨column, c⟩, -, rfl⟩ := List.mem_map.1 hx
  exact ⟨List.le_snd_of_mem_zipIdx hline, List.snd_lt_add_of_mem_zipIdx hline⟩

variable (lt : Linter) (lines more : List Text)

/-- The open brackets of the first lines lie in them, and after more lines the stack rests on these. -/
private theorem filter_unclosed_brackets (width : Nat) :
    (((lt.lintLines .none 0 (lines ++ more)).1.brackets.unclosed width).filter
        fun d => d.start.line < lines.length) <+:
      (lt.lintLines .none 0 lines).1.brackets.unclosed width := by
  rw [lintLines_append, Nat.zero_add, nesting_lintLines lt _ lines.length more]
  have hnew : ∀ x ∈ codeFrom lt.language lines.length more, ∀ e,
      lines.length ≤ (OpenBracket.mk x.1 e x.2).position.line := fun x hx _ => (line_of_mem_codeFrom hx).1
  refine (BracketStack.restsOn_readAll hnew (.refl _ _)).filter_unclosed (fun b hb => hb) ?_
  intro b hb
  rw [nesting_lintLines] at hb
  rcases BracketStack.mem_items_readAll hb with hb | ⟨x, hx, e, -, rfl⟩
  · cases hb
  · have hlt := (line_of_mem_codeFrom hx).2
    rw [Nat.zero_add] at hlt
    exact hlt

private theorem filter_unclosed_blocks (width : Nat) :
    (((lt.lintLines .none 0 (lines ++ more)).1.blocks.unclosed width).filter
        fun d => d.start.line < lines.length) <+:
      (lt.lintLines .none 0 lines).1.blocks.unclosed width := by
  rw [lintLines_append, Nat.zero_add, nesting_lintLines lt _ lines.length more]
  have hnew : ∀ k n, lines.length ≤ n → lines.length ≤ (OpenBlock.mk k n).line := fun _ _ hn => hn
  refine (BlockStack.restsOn_readLines hnew (.refl _ _)).filter_unclosed (fun b hb => hb) ?_
  intro b hb
  rw [nesting_lintLines] at hb
  rcases BlockStack.mem_items_readLines hb with hb | ⟨x, hx, -, -, hline⟩
  · cases hb
  · have hlt := List.snd_lt_add_of_mem_zipIdx hx
    rw [← hline, Nat.zero_add] at hlt
    exact hlt

/-- Lines added below a text keep, in their order, the diagnostics that do not wait for its end; and what is then
said about open brackets, or about open blocks, of the text's own lines is a first part of what was said before. -/
theorem lint_append_keeps (lt : Linter) (s t : Text) :
    ((lt.lint s).filter fun d => d.code ≠ .unclosedBracket ∧ d.code ≠ .unclosedBlock) <+:
        ((lt.lint (s ++ '\n' :: t)).filter fun d => d.code ≠ .unclosedBracket ∧ d.code ≠ .unclosedBlock) ∧
      (((lt.lint (s ++ '\n' :: t)).filter fun d => d.code = .unclosedBracket).filter
          fun d => d.start.line < s.lines.length) <+:
        ((lt.lint s).filter fun d => d.code = .unclosedBracket) ∧
      (((lt.lint (s ++ '\n' :: t)).filter fun d => d.code = .unclosedBlock).filter
          fun d => d.start.line < s.lines.length) <+:
        ((lt.lint s).filter fun d => d.code = .unclosedBlock) := by
  refine ⟨?_, ?_, ?_⟩
  · simp only [filter_settled_lint, Text.lines_append_newline, lintLines_append]
    exact List.prefix_append _ _
  · simp only [filter_unclosedBracket_lint, Text.lines_append_newline]
    exact lt.filter_unclosed_brackets _ _ _
  · simp only [filter_unclosedBlock_lint, Text.lines_append_newline]
    exact lt.filter_unclosed_blocks _ _ _

end Linter

end ScriptLint
