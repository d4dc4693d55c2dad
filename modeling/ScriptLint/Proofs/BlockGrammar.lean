import ScriptLint.Proofs.NestedWords
import ScriptLint.Proofs.Strands

/-!
# The block grammar

Every line of a text stands for a few events: the blocks that its keywords open, in the order in which the keywords
are listed, and then its closing word, if the line is one.  A text has no diagnostics about blocks exactly when its
events form a nested word, where `end` closes every block and `until` a `repeat` only (`blockFree_iff_nested`).

As for brackets, a block stack that emits nothing is a run of the recogniser of nested words (`run_events_iff`).
The recogniser also stops at an `until` that finds no `repeat`, where the stack goes on and keeps its blocks.
-/

namespace ScriptLint

/-- What a line does to the blocks. -/
inductive BlockEvent where
  | opened (keyword : Keyword)
  | endWord
  | untilWord
  deriving DecidableEq

namespace BlockEvent

/-- Which closing word closes which block. -/
inductive Pairs : BlockEvent → BlockEvent → Prop
  | endWord (k : Keyword) : Pairs (opened k) endWord
  | untilWord : Pairs (opened .repeatUntil) untilWord

def opens : BlockEvent → Bool
  | opened _ => true
  | _ => false

private theorem pairs_untilWord_iff (k : Keyword) : Pairs (opened k) untilWord ↔ k = .repeatUntil := by
  constructor
  · intro h
    cases h
    rfl
  · rintro rfl
    exact .untilWord

instance : DecidableRel Pairs
  | opened k, endWord => isTrue (.endWord k)
  | opened k, untilWord => decidable_of_iff _ (pairs_untilWord_iff k).symm
  | opened _, opened _ => isFalse nofun
  | endWord, _ => isFalse nofun
  | untilWord, _ => isFalse nofun

def pairing : Pairing BlockEvent where
  opens := opens
  Pairs := Pairs
  decPairs := inferInstance
  opens_left h := by cases h <;> rfl
  opens_right h := by cases h <;> rfl

def ofClosingWord (trimmed : Text) : List BlockEvent :=
  if trimmed = "end".toList then [endWord]
  else if trimmed = "until".toList then [untilWord]
  else []

/-- The events of a line.  A comment line opens nothing. -/
def ofLine (l : Language) (line : Text) : List BlockEvent :=
  (if l.startsComment line.trim then [] else (Keyword.allIn line.trim).map opened) ++ ofClosingWord line.trim

/-- The events of a text, line after line. -/
def word (l : Language) (text : Text) : List BlockEvent := text.lines.flatMap (ofLine l)

end BlockEvent

namespace BlockStack

open BlockEvent (pairing ofClosingWord ofLine)

def events (s : BlockStack) : List BlockEvent := s.items.map fun b => .opened b.keyword

private theorem run_opened (s : BlockStack) (line : Nat) (keywords : List Keyword) :
    pairing.run s.events (keywords.map .opened) = some (s.openAll line keywords).events := by
  induction keywords generalizing s with
  | nil => rfl
  | cons k rest ih =>
    have hstep : pairing.step s.events (.opened k) = some (events (s.push ⟨k, line⟩)) :=
      Pairing.step_opener rfl s.events
    rw [List.map_cons, Pairing.run_cons, hstep, Option.bind_some, ih]
    rfl

/-- A closing word: the recogniser goes on as the stack does, and stops where the stack emits a diagnostic. -/
private theorem run_closingWord_iff (s : BlockStack) (line length : Nat) (trimmed : Text) (t : List BlockEvent) :
    pairing.run s.events (ofClosingWord trimmed) = some t ↔
      (s.close line length trimmed).2 = none ∧ (s.close line length trimmed).1.events = t := by
  unfold ofClosingWord
  by_cases he : trimmed = "end".toList
  · subst he
    rw [if_pos rfl, Pairing.run_cons]
    cases hi : s.items with
    | nil =>
      rw [events, hi, List.map_nil, Pairing.step_closer_nil rfl, close_end_nil hi]
      simp
    | cons b rest =>
      have hb : pairing.Pairs (.opened b.keyword) .endWord := .endWord b.keyword
      rw [events, hi, List.map_cons, Pairing.step_closer_cons rfl, close_end_cons hi, if_pos hb]
      simp [events]
  by_cases hu : trimmed = "until".toList
  · subst hu
    rw [if_neg he, if_pos rfl, Pairing.run_cons]
    cases hi : s.items with
    | nil =>
      rw [events, hi, List.map_nil, Pairing.step_closer_nil rfl, close_until_nil hi]
      simp
    | cons b rest =>
      have hb : pairing.Pairs (.opened b.keyword) .untilWord ↔ b.keyword = .repeatUntil :=
        BlockEvent.pairs_untilWord_iff b.keyword
      rw [events, hi, List.map_cons, Pairing.step_closer_cons rfl, close_until_cons hi]
      by_cases hk : b.keyword = .repeatUntil
      · rw [if_pos (hb.2 hk), if_pos hk]
        simp [events]
      · rw [if_neg (fun hp => hk (hb.1 hp)), if_neg hk]
        simp
  · rw [if_neg he, if_neg hu, close_other he hu, Pairing.run_nil]
    simp

private theorem run_ofLine_iff (s : BlockStack) (l : Language) (number : Nat) (line : Text) (t : List BlockEvent) :
    pairing.run s.events (ofLine l line) = some t ↔
      (s.readLine number line.length line.trim (l.startsComment line.trim)).2 = none ∧
        (s.readLine number line.length line.trim (l.startsComment line.trim)).1.events = t := by
  have hopened : pairing.run s.events
      (if l.startsComment line.trim then [] else (Keyword.allIn line.trim).map .opened) =
        some (s.openAll number (if l.startsComment line.trim then [] else Keyword.allIn line.trim)).events := by
    rw [← run_opened]
    split <;> rfl
  rw [ofLine, Pairing.run_append, hopened, Option.bind_some]
  exact run_closingWord_iff _ number line.length line.trim t

/-- Many lines: the runs of the stack without diagnostics are the runs of the recogniser. -/
theorem run_events_iff (s : BlockStack) (l : Language) (number : Nat) (lines : List Text) (t : List BlockEvent) :
    pairing.run s.events (lines.flatMap (ofLine l)) = some t ↔
      (s.readLines l number lines).2 = [] ∧ (s.readLines l number lines).1.events = t := by
  induction lines generalizing s number with
  | nil => simp [readLines]
  | cons line rest ih =>
    rw [List.flatMap_cons, Pairing.run_append, Option.bind_eq_some_iff]
    simp only [run_ofLine_iff s l number line, readLines, List.append_eq_nil_iff, Option.toList_eq_nil_iff]
    constructor
    · rintro ⟨_, ⟨hnone, rfl⟩, hrun⟩
      obtain ⟨hnil, hevents⟩ := (ih _ (number + 1)).1 hrun
      exact ⟨⟨hnone, hnil⟩, hevents⟩
    · rintro ⟨⟨hnone, hnil⟩, hevents⟩
      exact ⟨_, ⟨hnone, rfl⟩, (ih _ (number + 1)).2 ⟨hnil, hevents⟩⟩

/-- A stack has nothing to report exactly when the events of its lines form a nested word. -/
theorem report_eq_nil_iff (l : Language) (width : Nat) (lines : List Text) :
    report l width lines = [] ↔ Nested BlockEvent.Pairs (lines.flatMap (ofLine l)) := by
  have hrun := run_events_iff .empty l 0 lines []
  have hnested : pairing.run (events .empty) (lines.flatMap (ofLine l)) = some [] ↔
      Nested BlockEvent.Pairs (lines.flatMap (ofLine l)) := Pairing.run_eq_nil_iff _
  rw [← hnested, hrun]
  simp [report, OpenStack.unclosed, events]

end BlockStack

namespace Linter

/-- A text is free of block diagnostics exactly when its events are derivable in
`B ::= ε | keyword B end B | repeat B until B`. -/
theorem blockFree_iff_nested (lt : Linter) (text : Text) :
    (∀ d ∈ lt.lint text, d.code ≠ .unexpectedEnd ∧ d.code ≠ .unmatchedUntil ∧ d.code ≠ .unclosedBlock) ↔
      Nested BlockEvent.Pairs (BlockEvent.word lt.language text) := by
  have hfree : Strand.block.pick (lt.lint text) = [] ↔
      ∀ d ∈ lt.lint text, d.code ≠ .unexpectedEnd ∧ d.code ≠ .unmatchedUntil ∧ d.code ≠ .unclosedBlock := by
    simp only [Strand.pick_eq_nil_iff, ne_eq, Code.strand_eq_block_iff, not_or]
  rw [← hfree, pick_block_lint, BlockStack.report_eq_nil_iff]
  rfl

end Linter

end ScriptLint
