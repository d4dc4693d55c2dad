import ScriptLint.Linter
import ScriptLint.Proofs.BracketRoles

/-!
# Steps of the two stacks

What one step of a nesting stack can do: which characters and lines change the stack, and which diagnostics a step
can emit.  Runs of steps take the brackets of a text (`BracketStack.readAll`) and its lines
(`BlockStack.readLines`); `BracketStack.report` and `BlockStack.report` are whole runs of a fresh stack, with what
is open at the end.
-/

namespace ScriptLint

/-! ### Brackets -/

namespace BracketStack

variable {l : Language} {s : BracketStack} {c : Char} {p : Position} {cell : Span}

theorem read_opener {e : Char} (h : l.closing? c = some e) : s.read l c p = (s.push ⟨c, e, p⟩, none) := by
  unfold read
  rw [h]

theorem read_other (h : l.isBracket c = false) : s.read l c p = (s, none) := by
  rw [Language.isBracket, Bool.or_eq_false_iff] at h
  unfold read
  rw [Language.closing?_eq_none_iff.2 h.1, h.2]
  rfl

theorem read_closer (ho : l.opens c = false) (hc : l.closes c = true) : s.read l c p = s.close c p.cell := by
  unfold read
  rw [Language.closing?_eq_none_iff.2 ho, hc]
  rfl

theorem close_nil (h : s.items = []) : s.close c cell = (s, some ((Finding.unexpectedCloser c).report cell)) := by
  unfold close OpenStack.top?
  rw [h]
  rfl

theorem close_cons {b : OpenBracket} {rest : List OpenBracket} (h : s.items = b :: rest) :
    s.close c cell =
      (⟨rest⟩, if b.closer = c then none else some ((Finding.mismatchedCloser b.closer c).report cell)) := by
  unfold close OpenStack.top? OpenStack.pop
  rw [h]
  rfl

/-- A step that emits a diagnostic reads a closer, which is stray or does not fit the innermost open bracket. -/
theorem mem_read {d : Diagnostic} (hd : d ∈ (s.read l c p).2) :
    l.opens c = false ∧ l.closes c = true ∧
      (s.items = [] ∧ d = (Finding.unexpectedCloser c).report p.cell ∨
        ∃ b rest, s.items = b :: rest ∧ b.closer ≠ c ∧ d = (Finding.mismatchedCloser b.closer c).report p.cell) := by
  cases ho : l.closing? c with
  | some e => rw [read_opener ho] at hd; cases hd
  | none =>
    have ho' := Language.closing?_eq_none_iff.1 ho
    by_cases hc : l.closes c = true
    · refine ⟨ho', hc, ?_⟩
      rw [read_closer ho' hc] at hd
      cases hs : s.items with
      | nil =>
        rw [close_nil hs] at hd
        exact Or.inl ⟨rfl, (Option.mem_some.1 hd).symm⟩
      | cons b rest =>
        rw [close_cons hs] at hd
        right
        refine ⟨b, rest, rfl, ?_⟩
        by_cases he : b.closer = c
        · simp [he] at hd
        · simpa [he, eq_comm] using hd
    · have hb : l.isBracket c = false := by simp [Language.isBracket, ho', hc]
      rw [read_other hb] at hd
      cases hd

/-- A bracket that is open after a step was open before, or is the character read. -/
theorem mem_items_read {b : OpenBracket} (hb : b ∈ (s.read l c p).1.items) :
    b ∈ s.items ∨ ∃ e, l.closing? c = some e ∧ b = ⟨c, e, p⟩ := by
  cases ho : l.closing? c with
  | some e =>
    rw [read_opener ho] at hb
    rcases List.mem_cons.1 hb with rfl | hb
    · exact Or.inr ⟨e, rfl, rfl⟩
    · exact Or.inl hb
  | none =>
    left
    have ho' := Language.closing?_eq_none_iff.1 ho
    by_cases hc : l.closes c = true
    · rw [read_closer ho' hc] at hb
      cases hs : s.items with
      | nil => rw [close_nil hs, hs] at hb; cases hb
      | cons a rest => rw [close_cons hs] at hb; exact List.mem_cons_of_mem _ hb
    · rwa [read_other (by simp [Language.isBracket, ho', hc])] at hb

/-- What a run emits, one of its steps emits, on the stack that the steps before it have left. -/
theorem exists_split_of_mem_readAll {xs : List (Char × Position)} {d : Diagnostic} (hd : d ∈ (s.readAll l xs).2) :
    ∃ before x after, xs = before ++ x :: after ∧ d ∈ ((s.readAll l before).1.read l x.1 x.2).2 := by
  induction xs generalizing s with
  | nil => cases hd
  | cons x xs ih =>
    rcases List.mem_append.1 hd with hd | hd
    · exact ⟨[], x, xs, rfl, Option.mem_toList.1 hd⟩
    · obtain ⟨before, y, after, rfl, hs⟩ := ih hd
      exact ⟨x :: before, y, after, rfl, hs⟩

theorem mem_readAll {xs : List (Char × Position)} {d : Diagnostic} (hd : d ∈ (s.readAll l xs).2) :
    ∃ x ∈ xs, ∃ s' : BracketStack, d ∈ (s'.read l x.1 x.2).2 := by
  obtain ⟨before, x, after, rfl, hd'⟩ := exists_split_of_mem_readAll hd
  exact ⟨x, by simp, _, hd'⟩

/-- A bracket that is open after a run was open before, or is a character of the run. -/
theorem mem_items_readAll {xs : List (Char × Position)} {b : OpenBracket} (hb : b ∈ (s.readAll l xs).1.items) :
    b ∈ s.items ∨ ∃ x ∈ xs, ∃ e, l.closing? x.1 = some e ∧ b = ⟨x.1, e, x.2⟩ := by
  induction xs generalizing s with
  | nil => exact Or.inl hb
  | cons x xs ih =>
    rcases ih hb with hb | ⟨y, hy, hopen⟩
    · rcases mem_items_read hb with hb | hopen
      · exact Or.inl hb
      · exact Or.inr ⟨x, List.mem_cons_self .., hopen⟩
    · exact Or.inr ⟨y, List.mem_cons_of_mem _ hy, hopen⟩

/-- Everything that a fresh stack says about code characters, up to their end. -/
def report (l : Language) (xs : List (Char × Position)) : List Diagnostic :=
  let r := readAll .empty l xs
  r.2 ++ r.1.unclosed 1

theorem readAll_filter (s : BracketStack) (l : Language) (xs : List (Char × Position)) :
    s.readAll l (xs.filter fun x => l.isBracket x.1) = s.readAll l xs := by
  induction xs generalizing s with
  | nil => rfl
  | cons x xs ih =>
    by_cases hx : l.isBracket x.1 = true
    · rw [List.filter_cons_of_pos (by simpa using hx)]
      simp only [readAll, ih]
    · rw [List.filter_cons_of_neg (by simpa using hx), ih]
      simp [readAll, read_other (Bool.eq_false_iff.2 hx)]

end BracketStack

/-! ### Blocks -/

namespace BlockStack

variable {s : BlockStack} {line length : Nat} {trimmed : Text} {isComment : Bool}

theorem close_end_nil (h : s.items = []) :
    s.close line length "end".toList =
      (s, some (Finding.unexpectedEnd.report (Span.inLine line 0 length))) := by
  simp [close, OpenStack.isEmpty, h]

theorem close_end_cons {b : OpenBlock} {rest : List OpenBlock} (h : s.items = b :: rest) :
    s.close line length "end".toList = (⟨rest⟩, none) := by
  simp [close, OpenStack.isEmpty, OpenStack.pop, h]

theorem close_until_nil (h : s.items = []) :
    s.close line length "until".toList =
      (s, some (Finding.unmatchedUntil.report (Span.inLine line 0 length))) := by
  simp [close, OpenStack.top?, h]

theorem close_until_cons {b : OpenBlock} {rest : List OpenBlock} (h : s.items = b :: rest) :
    s.close line length "until".toList =
      if b.keyword = .repeatUntil then (⟨rest⟩, none)
      else (s, some (Finding.unmatchedUntil.report (Span.inLine line 0 length))) := by
  simp [close, OpenStack.top?, OpenStack.pop, h]

theorem close_other (he : trimmed ≠ "end".toList) (hu : trimmed ≠ "until".toList) :
    s.close line length trimmed = (s, none) := by
  unfold close
  rw [if_neg he, if_neg hu]

/-- A line that emits a diagnostic is a closing word, and the diagnostic marks the whole line. -/
theorem mem_readLine {d : Diagnostic} (hd : d ∈ (s.readLine line length trimmed isComment).2) :
    trimmed = "end".toList ∧ d = Finding.unexpectedEnd.report (Span.inLine line 0 length) ∨
      trimmed = "until".toList ∧ d = Finding.unmatchedUntil.report (Span.inLine line 0 length) := by
  unfold readLine at hd
  generalize s.openAll line (if isComment then [] else Keyword.allIn trimmed) = s' at hd
  by_cases he : trimmed = "end".toList
  · left
    subst he
    cases hs : s'.items with
    | nil => rw [close_end_nil hs] at hd; exact ⟨rfl, (Option.mem_some.1 hd).symm⟩
    | cons b rest => rw [close_end_cons hs] at hd; cases hd
  by_cases hu : trimmed = "until".toList
  · right
    subst hu
    cases hs : s'.items with
    | nil => rw [close_until_nil hs] at hd; exact ⟨rfl, (Option.mem_some.1 hd).symm⟩
    | cons b rest =>
      rw [close_until_cons hs] at hd
      split at hd
      · cases hd
      · exact ⟨rfl, (Option.mem_some.1 hd).symm⟩
  · rw [close_other he hu] at hd
    cases hd

private theorem mem_items_close {b : OpenBlock} (hb : b ∈ (s.close line length trimmed).1.items) :
    b ∈ s.items := by
  by_cases he : trimmed = "end".toList
  · subst he
    cases hs : s.items with
    | nil => rw [close_end_nil hs, hs] at hb; exact hb
    | cons a rest => rw [close_end_cons hs] at hb; exact List.mem_cons_of_mem _ hb
  by_cases hu : trimmed = "until".toList
  · subst hu
    cases hs : s.items with
    | nil => rw [close_until_nil hs, hs] at hb; exact hb
    | cons a rest =>
      rw [close_until_cons hs] at hb
      split at hb
      · exact List.mem_cons_of_mem _ hb
      · rwa [← hs]
  · rwa [close_other he hu] at hb

/-- A block that is open after a line was open before, or is opened by a keyword of the line. -/
theorem mem_items_readLine {b : OpenBlock} (hb : b ∈ (s.readLine line length trimmed isComment).1.items) :
    b ∈ s.items ∨ isComment = false ∧ b.keyword ∈ Keyword.allIn trimmed ∧ b.line = line := by
  have hopen := mem_items_close hb
  rw [items_openAll, List.mem_append, List.mem_reverse, List.mem_map] at hopen
  rcases hopen with ⟨k, hk, rfl⟩ | hs
  · right
    cases isComment with
    | true => cases hk
    | false => exact ⟨rfl, hk, rfl⟩
  · exact Or.inl hs

/-- Reads lines, the first of which has the given number. -/
def readLines (s : BlockStack) (l : Language) (number : Nat) : List Text → BlockStack × List Diagnostic
  | [] => (s, [])
  | line :: rest =>
    let r := s.readLine number line.length line.trim (l.startsComment line.trim)
    let r' := readLines r.1 l (number + 1) rest
    (r'.1, r.2.toList ++ r'.2)

/-- What a run emits, one of its lines emits. -/
theorem mem_readLines {l : Language} {number : Nat} {lines : List Text} {d : Diagnostic}
    (hd : d ∈ (s.readLines l number lines).2) :
    ∃ x ∈ lines.zipIdx number, ∃ s' : BlockStack,
      d ∈ (s'.readLine x.2 x.1.length x.1.trim (l.startsComment x.1.trim)).2 := by
  induction lines generalizing s number with
  | nil => cases hd
  | cons line rest ih =>
    rw [List.zipIdx_cons]
    rcases List.mem_append.1 hd with hd | hd
    · exact ⟨(line, number), List.mem_cons_self .., s, Option.mem_toList.1 hd⟩
    · obtain ⟨x, hx, s', hs'⟩ := ih hd
      exact ⟨x, List.mem_cons_of_mem _ hx, s', hs'⟩

/-- A block that is open after a run was open before, or is opened by a keyword of one of the lines. -/
theorem mem_items_readLines {l : Language} {number : Nat} {lines : List Text} {b : OpenBlock}
    (hb : b ∈ (s.readLines l number lines).1.items) :
    b ∈ s.items ∨ ∃ x ∈ lines.zipIdx number,
      l.startsComment x.1.trim = false ∧ b.keyword ∈ Keyword.allIn x.1.trim ∧ b.line = x.2 := by
  induction lines generalizing s number with
  | nil => exact Or.inl hb
  | cons line rest ih =>
    rw [List.zipIdx_cons]
    rcases ih hb with hb | ⟨x, hx, hopen⟩
    · rcases mem_items_readLine hb with hb | hopen
      · exact Or.inl hb
      · exact Or.inr ⟨(line, number), List.mem_cons_self .., hopen⟩
    · exact Or.inr ⟨x, List.mem_cons_of_mem _ hx, hopen⟩

/-- Everything that a fresh stack says about lines, up to their end. -/
def report (l : Language) (width : Nat) (lines : List Text) : List Diagnostic :=
  let r := readLines .empty l 0 lines
  r.2 ++ r.1.unclosed width

end BlockStack

end ScriptLint
