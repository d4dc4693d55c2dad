import ScriptLint.Proofs.DiscoveryOrder
import ScriptLint.Proofs.WholeWords

/-!
# Searching for keywords

The keywords of a line can be found in three ways, which give the same ones (`Keyword.allIn_wholeWords`): by
cutting the line into words, by looking for a keyword with no word character on either side of it, and by a search
that goes once through the line, takes the first match that it comes to, and goes on behind it.

The search (`Text.Finds`) could miss a keyword only if an earlier match shadowed it.  It cannot, because a match is
a run of word characters that is not part of a longer one (`Text.matchesAt_iff`).  So two matches are the same or
do not overlap (`Text.RunAt.unique`, `Text.RunAt.not_inside`), and a search for any words finds every place where
one of them matches (`Text.Finds.mem_iff`).
-/

namespace ScriptLint

namespace Text

/-- Is `w` made of word characters, at least one? -/
def IsWord (w : Text) : Prop := 0 < w.length ∧ w.all isWordChar = true

instance (w : Text) : Decidable w.IsWord := inferInstanceAs (Decidable (0 < w.length ∧ w.all isWordChar = true))

variable {t w : Text} {i j : Nat}

/-! ### Words and pieces -/

theorem words_at_break (s : Text) {c : Char} (hc : isWordChar c = false) (t : Text) :
    words (s ++ c :: t) = words s ++ words t :=
  List.splitOnP_append_cons s t (by rw [hc]; rfl)

private theorem words_of_isWord (hw : w.IsWord) : words w = [w] := by
  refine List.splitOnP_eq_singleton ?_
  intro c hc
  rw [List.all_eq_true.1 hw.2 c hc]
  rfl

private theorem mem_words_iff_hasWord (hw : w.IsWord) : w ∈ words t ↔ t.HasWord w := by
  constructor
  · exact hasWord_of_mem_words
  · rintro ⟨u, v, rfl, hu, hv⟩
    have hright : w ∈ words (w ++ v) := by
      cases v with
      | nil => rw [List.append_nil, words_of_isWord hw]; exact List.mem_singleton_self w
      | cons c v =>
        rw [words_at_break w (hv c rfl), words_of_isWord hw]
        exact List.mem_append_left _ (List.mem_singleton_self w)
    rw [List.append_assoc]
    rcases List.eq_nil_or_concat u with rfl | ⟨u, c, rfl⟩
    · exact hright
    · have hc : isWordChar c = false := hu c (by rw [List.concat_eq_append, List.getLast?_concat])
      rw [List.concat_eq_append, List.append_assoc, List.singleton_append, words_at_break u hc]
      exact List.mem_append_right _ hright

private theorem mem_words_append_left {a : Text} (ha : ∀ c ∈ a, isWordChar c = false) (hw : w.IsWord) :
    w ∈ words (a ++ t) ↔ w ∈ words t := by
  induction a with
  | nil => rfl
  | cons c a ih =>
    have hne : w ≠ [] := List.length_pos_iff.1 hw.1
    have hc := ha c (List.mem_cons_self ..)
    rw [List.cons_append, words_cons, hc, if_neg (by decide), List.mem_cons,
      ih fun d hd => ha d (List.mem_cons_of_mem _ hd)]
    constructor
    · rintro (hnil | hmem)
      · exact absurd hnil hne
      · exact hmem
    · exact Or.inr

private theorem mem_words_append_right {b : Text} (hb : ∀ c ∈ b, isWordChar c = false) (hw : w.IsWord) :
    w ∈ words (t ++ b) ↔ w ∈ words t := by
  cases b with
  | nil => rw [List.append_nil]
  | cons c b =>
    have hne : w ≠ [] := List.length_pos_iff.1 hw.1
    have hrest : w ∉ words b := by
      have hnil := mem_words_append_left (t := []) (fun d hd => hb d (List.mem_cons_of_mem _ hd)) hw
      rw [List.append_nil, words, words, List.splitOnP_nil, List.mem_singleton] at hnil
      exact fun hmem => hne (hnil.1 hmem)
    rw [words_at_break t (hb c (List.mem_cons_self ..)), List.mem_append]
    constructor
    · rintro (hmem | hmem)
      · exact hmem
      · exact absurd hmem hrest
    · exact Or.inl

private theorem mem_words_trim (hw : w.IsWord) : w ∈ words t.trim ↔ w ∈ words t := by
  obtain ⟨blanks, hsplit, hblanks⟩ := t.trim_split
  have hleft : ∀ c ∈ t.takeWhile isBlank, isWordChar c = false :=
    fun c hc => isWordChar_of_isBlank (List.mem_takeWhile_imp hc)
  have hright : ∀ c ∈ blanks, isWordChar c = false := fun c hc => isWordChar_of_isBlank (hblanks c hc)
  rw [← mem_words_append_right hright hw, ← mem_words_append_left hleft hw, ← hsplit]

/-! ### Runs -/

/-- Does a word character stand at the place `i`? -/
def wordCharAt (t : Text) (i : Nat) : Bool := t[i]?.any isWordChar

/-- The word `w` stands at the place `i`, and not as a part of a longer word. -/
structure RunAt (t : Text) (i : Nat) (w : Text) : Prop where
  isWord : w.IsWord
  stands : w <+: t.drop i
  before : ∀ j, j + 1 = i → t.wordCharAt j = false
  behind : t.wordCharAt (i + w.length) = false

private theorem wordCharAt_of_stands (hw : w.IsWord) (h : w <+: t.drop i) (hij : i ≤ j) (hj : j < i + w.length) :
    t.wordCharAt j = true := by
  obtain ⟨v, hv⟩ := h
  obtain ⟨d, rfl⟩ := Nat.exists_eq_add_of_le hij
  have hd : d < w.length := by omega
  have hchar : t[i + d]? = some w[d] := by
    rw [← List.getElem?_drop, ← hv, List.getElem?_append_left hd, List.getElem?_eq_getElem hd]
  rw [wordCharAt, hchar]
  exact List.all_eq_true.1 hw.2 _ (List.getElem_mem hd)

private theorem RunAt.lt_length (h : t.RunAt i w) : i < t.length := by
  have hle := h.stands.length_le
  have hpos := h.isWord.1
  rw [List.length_drop] at hle
  omega

theorem RunAt.length_le {w' : Text} (h : t.RunAt i w) (h' : t.RunAt i w') : w'.length ≤ w.length := by
  refine Nat.le_of_not_lt ?_
  intro hlt
  -- behind the shorter one stands a character of the longer one
  have hin := wordCharAt_of_stands h'.isWord h'.stands (j := i + w.length) (by omega) (by omega)
  rw [h.behind] at hin
  cases hin

theorem RunAt.unique {w' : Text} (h : t.RunAt i w) (h' : t.RunAt i w') : w = w' := by
  have hlen : w.length = w'.length := Nat.le_antisymm (h'.length_le h) (h.length_le h')
  rw [List.prefix_iff_eq_take.1 h.stands, List.prefix_iff_eq_take.1 h'.stands, hlen]

theorem RunAt.not_inside {w' : Text} (h : t.RunAt i w) (hij : i < j) (hj : j < i + w.length) : ¬t.RunAt j w' := by
  intro h'
  have hin := wordCharAt_of_stands h.isWord h.stands (j := j - 1) (by omega) (by omega)
  rw [h'.before (j - 1) (by omega)] at hin
  cases hin

private theorem hasWord_iff_runAt (hw : w.IsWord) : t.HasWord w ↔ ∃ i, t.RunAt i w := by
  constructor
  · rintro ⟨u, v, rfl, hu, hv⟩
    refine ⟨u.length, hw, ?_, ?_, ?_⟩
    · rw [List.append_assoc, List.drop_left]
      exact List.prefix_append w v
    · intro j hj
      have hchar : (u ++ w ++ v)[j]? = u.getLast? := by
        rw [List.append_assoc, List.getElem?_append_left (by omega), List.getLast?_eq_getElem?,
          show u.length - 1 = j by omega]
      rw [wordCharAt, hchar]
      cases hlast : u.getLast? with
      | none => rfl
      | some c => exact hu c hlast
    · have hchar : (u ++ w ++ v)[u.length + w.length]? = v.head? := by
        rw [← List.length_append, List.getElem?_append_right (Nat.le_refl _), Nat.sub_self, List.head?_eq_getElem?]
      rw [wordCharAt, hchar]
      cases hhead : v.head? with
      | none => rfl
      | some c => exact hv c hhead
  · rintro ⟨i, h⟩
    have hlt := h.lt_length
    obtain ⟨v, hv⟩ := h.stands
    have hlen : (t.take i).length = i := by rw [List.length_take]; omega
    have hsplit : t = t.take i ++ w ++ v := by rw [List.append_assoc, hv, List.take_append_drop]
    refine ⟨t.take i, v, hsplit, ?_, ?_⟩
    · intro c hc
      rw [List.getLast?_eq_getElem?, hlen, List.getElem?_take] at hc
      split at hc
      · have hbefore := h.before (i - 1) (by omega)
        rw [wordCharAt, hc] at hbefore
        exact hbefore
      · cases hc
    · intro c hc
      have hbehind := h.behind
      have hchar : t[i + w.length]? = some c := by
        rw [← List.getElem?_drop, ← hv, List.getElem?_append_right (Nat.le_refl _), Nat.sub_self,
          ← List.head?_eq_getElem?, hc]
      rw [wordCharAt, hchar] at hbehind
      exact hbehind

/-! ### Searching -/

/-- Is there an edge of a word before the place `i`: a word character on one side only? -/
def edgeAt (t : Text) : Nat → Bool
  | 0 => t.wordCharAt 0
  | i + 1 => t.wordCharAt i != t.wordCharAt (i + 1)

/-- Does `w` match at the place `i`, from one edge of a word to another? -/
def matchesAt (t : Text) (i : Nat) (w : Text) : Bool :=
  w.isPrefixOf (t.drop i) && t.edgeAt i && t.edgeAt (i + w.length)

/-- What a search for some words finds from the place `start` on, with the places: first the leftmost match, of the
first word that matches there, and then what is found from its end on. -/
inductive Finds (ws : List Text) (t : Text) : (start : Nat) → List (Nat × Text) → Prop where
  | nothing {start : Nat} (h : ∀ i w, start ≤ i → w ∈ ws → t.matchesAt i w = false) : Finds ws t start []
  | next {start i : Nat} {w : Text} {ms : List (Nat × Text)} (hle : start ≤ i)
      (hleftmost : ∀ j w, start ≤ j → j < i → w ∈ ws → t.matchesAt j w = false)
      (hfirst : ws.find? (t.matchesAt i) = some w) (hms : Finds ws t (i + w.length) ms) :
      Finds ws t start ((i, w) :: ms)

/-- The search itself, through `n` places. -/
def search (ws : List Text) (t : Text) : (n start : Nat) → List (Nat × Text)
  | 0, _ => []
  | n + 1, start =>
    match ws.find? (t.matchesAt start) with
    | some w => (start, w) :: search ws t n (start + w.length)
    | none => search ws t n (start + 1)

private theorem edgeAt_succ (t : Text) (i : Nat) :
    t.edgeAt (i + 1) = (t.wordCharAt i != t.wordCharAt (i + 1)) := rfl

theorem matchesAt_iff (hw : w.IsWord) : t.matchesAt i w = true ↔ t.RunAt i w := by
  obtain ⟨n, hn⟩ : ∃ n, w.length = n + 1 := ⟨w.length - 1, by have := hw.1; omega⟩
  rw [matchesAt, Bool.and_eq_true, Bool.and_eq_true, List.isPrefixOf_iff_prefix]
  constructor
  · rintro ⟨⟨hstands, hfront⟩, hback⟩
    refine ⟨hw, hstands, ?_, ?_⟩
    · rintro j rfl
      have hin := wordCharAt_of_stands hw hstands (j := j + 1) (by omega) (by omega)
      rw [edgeAt_succ, hin] at hfront
      simpa using hfront
    · have hin := wordCharAt_of_stands hw hstands (j := i + n) (by omega) (by omega)
      rw [hn, ← Nat.add_assoc, edgeAt_succ, hin] at hback
      rw [hn, ← Nat.add_assoc]
      simpa using hback
  · intro h
    refine ⟨⟨h.stands, ?_⟩, ?_⟩
    · have hin := wordCharAt_of_stands hw h.stands (Nat.le_refl i) (by omega)
      cases i with
      | zero => exact hin
      | succ j => rw [edgeAt_succ, hin, h.before j rfl]; rfl
    · have hin := wordCharAt_of_stands hw h.stands (j := i + n) (by omega) (by omega)
      have hbehind := h.behind
      rw [hn, ← Nat.add_assoc] at hbehind
      rw [hn, ← Nat.add_assoc, edgeAt_succ, hin, hbehind]
      rfl

section

variable {ws : List Text} {start : Nat} {ms : List (Nat × Text)}

/-- No match is missed: a search finds exactly the places at which one of the words is a run. -/
theorem Finds.mem_iff (h : Finds ws t start ms) (hws : ∀ w ∈ ws, w.IsWord) :
    (j, w) ∈ ms ↔ start ≤ j ∧ w ∈ ws ∧ t.RunAt j w := by
  induction h with
  | nothing hnone =>
    refine ⟨nofun, ?_⟩
    rintro ⟨hle, hmem, hrun⟩
    rw [← matchesAt_iff hrun.isWord, hnone j w hle hmem] at hrun
    cases hrun
  | @next start i v ms hle hleftmost hfirst hms ih =>
    have hv : v ∈ ws := List.mem_of_find?_eq_some hfirst
    have hrun : t.RunAt i v := (matchesAt_iff (hws v hv)).1 (List.find?_some hfirst)
    rw [List.mem_cons, ih, Prod.mk.injEq]
    constructor
    · rintro (⟨rfl, rfl⟩ | ⟨hbehind, hmem, hrun'⟩)
      · exact ⟨hle, hv, hrun⟩
      · exact ⟨by omega, hmem, hrun'⟩
    · rintro ⟨hstart, hmem, hrun'⟩
      rcases Nat.lt_trichotomy j i with hlt | rfl | hgt
      · have hnone := hleftmost j w hstart hlt hmem
        rw [(matchesAt_iff hrun'.isWord).2 hrun'] at hnone
        cases hnone
      · exact Or.inl ⟨rfl, hrun'.unique hrun⟩
      · by_cases hbehind : i + v.length ≤ j
        · exact Or.inr ⟨hbehind, hmem, hrun'⟩
        · exact absurd hrun' (hrun.not_inside hgt (by omega))

private theorem Finds.of_succ (h : Finds ws t (start + 1) ms) (hnone : ∀ w ∈ ws, t.matchesAt start w = false) :
    Finds ws t start ms := by
  cases h with
  | nothing h =>
    refine .nothing ?_
    intro i w hle hmem
    by_cases hi : i = start
    · rw [hi]
      exact hnone w hmem
    · exact h i w (by omega) hmem
  | next hle hleftmost hfirst hms =>
    refine .next (by omega) ?_ hfirst hms
    intro i w hstart hi hmem
    by_cases heq : i = start
    · rw [heq]
      exact hnone w hmem
    · exact hleftmost i w (by omega) hi hmem

private theorem finds_search (hws : ∀ w ∈ ws, w.IsWord) {n : Nat} (hn : t.length ≤ start + n) :
    Finds ws t start (search ws t n start) := by
  induction n generalizing start with
  | zero =>
    refine .nothing ?_
    intro i w hle hmem
    rw [Bool.eq_false_iff]
    intro hmatch
    have hlt := ((matchesAt_iff (hws w hmem)).1 hmatch).lt_length
    omega
  | succ n ih =>
    rw [search]
    cases hfind : ws.find? (t.matchesAt start) with
    | some w =>
      have hpos := (hws w (List.mem_of_find?_eq_some hfind)).1
      exact .next (Nat.le_refl _) (fun j w hle hlt => by omega) hfind (ih (by omega))
    | none =>
      refine (ih (by omega)).of_succ ?_
      intro w hmem
      simpa using List.find?_eq_none.1 hfind w hmem

end

end Text

/-! ### Keywords -/

namespace Keyword

/-- The words that keywords are spelt with, in order. -/
def spellings : List Text := all.map fun k => k.word.toList

private theorem isWord_word (k : Keyword) : Text.IsWord k.word.toList := by
  cases k <;> decide

private theorem isWord_of_mem_spellings {w : Text} (h : w ∈ spellings) : w.IsWord := by
  obtain ⟨k, -, rfl⟩ := List.mem_map.1 h
  exact isWord_word k

private theorem mem_all (k : Keyword) : k ∈ all := by
  cases k <;> decide

private theorem ofWord?_eq_some_iff {w : Text} {k : Keyword} : ofWord? w = some k ↔ w = k.word.toList := by
  constructor
  · intro h
    have hword := List.find?_some h
    exact (beq_iff_eq.1 hword).symm
  · rintro rfl
    cases k <;> rfl

private theorem mem_allIn_iff {line : Text} {k : Keyword} : k ∈ allIn line ↔ k.word.toList ∈ line.words := by
  rw [allIn, List.mem_filter, List.contains_iff_mem]
  exact and_iff_right (mem_all k)

private theorem mem_found_iff {line : Text} {ms : List (Nat × Text)} (h : Text.Finds spellings line 0 ms)
    {k : Keyword} : k ∈ ms.filterMap (fun m => ofWord? m.2) ↔ ∃ i, line.RunAt i k.word.toList := by
  rw [List.mem_filterMap]
  constructor
  · rintro ⟨⟨i, w⟩, hmem, hk⟩
    obtain rfl := ofWord?_eq_some_iff.1 hk
    exact ⟨i, ((h.mem_iff fun w => isWord_of_mem_spellings).1 hmem).2.2⟩
  · rintro ⟨i, hrun⟩
    have hspelt : k.word.toList ∈ spellings := List.mem_map.2 ⟨k, mem_all k, rfl⟩
    refine ⟨(i, k.word.toList), ?_, ofWord?_eq_some_iff.2 rfl⟩
    exact (h.mem_iff fun w => isWord_of_mem_spellings).2 ⟨Nat.zero_le i, hspelt, hrun⟩

private theorem allIn_trim (line : Text) : allIn line.trim = allIn line := by
  unfold allIn
  refine List.filter_congr ?_
  intro k _
  rw [Bool.eq_iff_iff, List.contains_iff_mem, List.contains_iff_mem]
  exact Text.mem_words_trim (isWord_word k)

/-- The keywords of a line are those of all keywords, in their order and each once, that stand in it as whole
words, or as runs of word characters.  They are those that a search finds, and trimming the line loses none. -/
theorem allIn_wholeWords (line : Text) :
    (allIn line).Sublist all ∧ (allIn line).Nodup ∧
    (∀ k, k ∈ allIn line ↔ line.HasWord k.word.toList) ∧
    (∀ k, k ∈ allIn line ↔ ∃ i, line.RunAt i k.word.toList) ∧
    Text.Finds spellings line 0 (Text.search spellings line line.length 0) ∧
    (∀ ms, Text.Finds spellings line 0 ms →
      allIn line = all.filter fun k => (ms.filterMap fun m => ofWord? m.2).contains k) ∧
    allIn line.trim = allIn line := by
  have hword : ∀ k, k ∈ allIn line ↔ line.HasWord k.word.toList := by
    intro k
    rw [mem_allIn_iff, Text.mem_words_iff_hasWord (isWord_word k)]
  have hrun : ∀ k, k ∈ allIn line ↔ ∃ i, line.RunAt i k.word.toList := by
    intro k
    rw [hword, Text.hasWord_iff_runAt (isWord_word k)]
  have hsearch : Text.Finds spellings line 0 (Text.search spellings line line.length 0) :=
    Text.finds_search (fun w => isWord_of_mem_spellings) (by omega)
  refine ⟨List.filter_sublist, nodup_all.filter _, hword, hrun, hsearch, ?_, allIn_trim line⟩
  intro ms hms
  refine List.filter_congr ?_
  intro k hk
  rw [Bool.eq_iff_iff, List.contains_iff_mem, List.contains_iff_mem, ← mem_allIn_iff, hrun, mem_found_iff hms]

/-- A letter outside ASCII ends a word, an underscore does not, and no match is part of another word. -/
theorem allIn_wholeWords_accented :
    Text.Finds spellings "àdo if_x dodo while".toList 0 [(1, "do".toList), (14, "while".toList)] ∧
      allIn "àdo if_x dodo while".toList = all.filter fun k =>
        ([(1, "do".toList), (14, "while".toList)].filterMap fun m : Nat × Text => ofWord? m.2).contains k := by
  have hsearch : Text.search spellings "àdo if_x dodo while".toList 19 0 =
      [(1, "do".toList), (14, "while".toList)] := by decide
  have hfinds : Text.Finds spellings "àdo if_x dodo while".toList 0 [(1, "do".toList), (14, "while".toList)] := by
    rw [← hsearch]
    exact Text.finds_search (fun w => isWord_of_mem_spellings) (by decide)
  exact ⟨hfinds, (allIn_wholeWords _).2.2.2.2.2.1 _ hfinds⟩

end Keyword

end ScriptLint
