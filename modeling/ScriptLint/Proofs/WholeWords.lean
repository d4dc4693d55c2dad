import ScriptLint.Proofs.Anchors

/-!
# Whole words

A text has a word where the word stands in it with no word character before or behind it (`Text.HasWord`).  The
pieces into which `Text.words` cuts a text are such words (`hasWord_of_mem_words`), and the words of a trimmed text
are words of the text itself, since blanks are no word characters (`hasWord_of_trim`).
-/

namespace ScriptLint

namespace Text

/-- Does `w` stand in the text with no word character on either side of it? -/
def HasWord (t w : Text) : Prop :=
  ∃ u v : Text, t = u ++ w ++ v ∧ (∀ c, u.getLast? = some c → isWordChar c = false) ∧
    ∀ c, v.head? = some c → isWordChar c = false

/-! ### Cutting -/

theorem words_cons (c : Char) (t : Text) :
    words (c :: t) = if isWordChar c then (words t).modifyHead (c :: ·) else [] :: words t := by
  rw [words, List.splitOnP_cons_eq_if_modifyHead]
  cases isWordChar c <;> rfl

private theorem exists_words_eq (t : Text) : ∃ w ws, words t = w :: ws :=
  List.exists_cons_of_ne_nil (List.splitOnP_ne_nil (fun c => !isWordChar c) t)

variable {t w : Text} {ws : List Text}

/-- The first piece starts the text and goes up to the first character that is no word character. -/
theorem exists_rest_of_words_eq (h : words t = w :: ws) :
    ∃ v, t = w ++ v ∧ ∀ c, v.head? = some c → isWordChar c = false := by
  induction t generalizing w ws with
  | nil =>
    obtain ⟨rfl, -⟩ : [] = w ∧ [] = ws := by simpa [words] using h
    exact ⟨[], rfl, nofun⟩
  | cons a t ih =>
    obtain ⟨w', ws', hwords⟩ := exists_words_eq t
    rw [words_cons, hwords] at h
    split at h
    · cases h
      obtain ⟨v, rfl, hv⟩ := ih hwords
      exact ⟨v, rfl, hv⟩
    · rename_i ha
      cases h
      refine ⟨a :: t, rfl, ?_⟩
      rintro c ⟨⟩
      exact Bool.eq_false_iff.2 ha

/-- Every later piece has a character before it that is no word character, and goes up to another one. -/
theorem exists_break_of_words_eq {w₀ : Text} (h : words t = w₀ :: ws) (hw : w ∈ ws) :
    ∃ (u : Text) (a : Char) (v : Text), t = u ++ a :: (w ++ v) ∧ isWordChar a = false ∧
      ∀ c, v.head? = some c → isWordChar c = false := by
  induction t generalizing w₀ ws with
  | nil =>
    obtain ⟨-, rfl⟩ : [] = w₀ ∧ [] = ws := by simpa [words] using h
    cases hw
  | cons b t ih =>
    obtain ⟨w', ws', hwords⟩ := exists_words_eq t
    rw [words_cons, hwords] at h
    split at h
    · cases h
      obtain ⟨u, a, v, rfl, hbreak⟩ := ih hwords hw
      exact ⟨b :: u, a, v, rfl, hbreak⟩
    · rename_i hb
      cases h
      rcases List.mem_cons.1 hw with rfl | hw
      · obtain ⟨v, rfl, hv⟩ := exists_rest_of_words_eq hwords
        exact ⟨[], b, v, rfl, Bool.eq_false_iff.2 hb, hv⟩
      · obtain ⟨u, a, v, rfl, hbreak⟩ := ih hwords hw
        exact ⟨b :: u, a, v, rfl, hbreak⟩

theorem hasWord_of_mem_words (h : w ∈ words t) : t.HasWord w := by
  obtain ⟨w₀, ws, hwords⟩ := exists_words_eq t
  rw [hwords] at h
  rcases List.mem_cons.1 h with rfl | h
  · obtain ⟨v, rfl, hv⟩ := exists_rest_of_words_eq hwords
    exact ⟨[], v, rfl, nofun, hv⟩
  · obtain ⟨u, a, v, rfl, ha, hv⟩ := exists_break_of_words_eq hwords h
    refine ⟨u ++ [a], v, by simp, fun c hc => ?_, hv⟩
    rw [List.getLast?_concat, Option.some.injEq] at hc
    rwa [← hc]

/-! ### Margins -/

private theorem toNat_of_isAlphanum {c : Char} (h : c.isAlphanum = true) :
    ((65 ≤ c.toNat ∧ c.toNat ≤ 90) ∨ 97 ≤ c.toNat ∧ c.toNat ≤ 122) ∨ 48 ≤ c.toNat ∧ c.toNat ≤ 57 := by
  change ((decide (c.val ≥ 'A'.val ∧ c.val ≤ 'Z'.val) || (decide (c.val ≥ 'a'.val) && decide (c.val ≤ 'z'.val))) ||
    (decide (c.val ≥ '0'.val) && decide (c.val ≤ '9'.val))) = true at h
  simp only [Bool.or_eq_true, Bool.and_eq_true, decide_eq_true_eq] at h
  exact h

/-- Blanks are no word characters. -/
theorem isWordChar_of_isBlank {c : Char} (h : isBlank c = true) : isWordChar c = false := by
  rw [Bool.eq_false_iff]
  intro hword
  simp only [isBlank, blankRanges, List.any_cons, List.any_nil, Bool.or_false, Bool.or_eq_true, Bool.and_eq_true,
    decide_eq_true_eq] at h
  rw [isWordChar, Bool.or_eq_true, beq_iff_eq] at hword
  rcases hword with halnum | rfl
  · have hrange := toNat_of_isAlphanum halnum
    omega
  · revert h
    decide

theorem HasWord.append {a b : Text} (h : t.HasWord w) (ha : ∀ c ∈ a, isWordChar c = false)
    (hb : ∀ c ∈ b, isWordChar c = false) : (a ++ (t ++ b)).HasWord w := by
  obtain ⟨u, v, rfl, hu, hv⟩ := h
  refine ⟨a ++ u, v ++ b, by simp, fun c hc => ?_, fun c hc => ?_⟩
  · rw [List.getLast?_append, Option.or_eq_some_iff] at hc
    rcases hc with hc | ⟨-, hc⟩
    · exact hu c hc
    · exact ha c (List.mem_of_getLast? hc)
  · rw [List.head?_append, Option.or_eq_some_iff] at hc
    rcases hc with hc | ⟨-, hc⟩
    · exact hv c hc
    · exact hb c (List.mem_of_head? hc)

theorem hasWord_of_trim (h : t.trim.HasWord w) : t.HasWord w := by
  obtain ⟨blanks, hsplit, hblanks⟩ := t.trim_split
  rw [hsplit]
  exact h.append (fun c hc => isWordChar_of_isBlank (List.mem_takeWhile_imp hc))
    (fun c hc => isWordChar_of_isBlank (hblanks c hc))

end Text

end ScriptLint
