import ScriptLint.Proofs.BlankMargins

/-!
# Where a comment starts

Whether a line is a comment is decided twice: by its trimmed text, which starts with a comment token, and by the
scan of the untrimmed line.  The two agree (`startsComment_trim_iff`): the trimmed text starts with a token exactly
when the scan reads the first character of the line that is not blank as a comment.  The scan of such a line yields
the blanks in front of that character and nothing else.

This asks of the language that blanks are plain (`Language.BlanksArePlain`).  Then the blanks in front of a line
are code, and both sides come down to the same question, whether a token stands at the first place behind them.
The scan is taken here by index, one reading behind the other (`Scan.readings`).
-/

namespace ScriptLint

/-- The first character of the text that is not blank stands at the place `i`. -/
def Text.FirstInk (t : Text) (i : Nat) : Prop :=
  (∃ c, t[i]? = some c ∧ isBlank c = false) ∧ ∀ j < i, ∀ c, t[j]? = some c → isBlank c = true

/-! ### Indentation -/

namespace Text

variable {t : Text} {i : Nat} {c : Char}

private theorem take_indentation (t : Text) : t.take t.indentation = t.takeWhile isBlank :=
  (List.prefix_iff_eq_take.1 (List.takeWhile_prefix isBlank)).symm

private theorem drop_indentation (t : Text) : t.drop t.indentation = t.trimStart := by
  have hsplit : t.take t.indentation ++ t.drop t.indentation = t := List.take_append_drop _ _
  rw [take_indentation] at hsplit
  exact List.append_cancel_left (hsplit.trans List.takeWhile_append_dropWhile.symm)

private theorem indentation_le_length (t : Text) :
    t.indentation ≤ t.length := (List.takeWhile_prefix isBlank).length_le

private theorem isBlank_of_lt_indentation (hi : i < t.indentation) (hc : t[i]? = some c) : isBlank c = true := by
  rw [← List.getElem?_take_of_lt hi, take_indentation] at hc
  exact List.mem_takeWhile_imp (List.mem_of_getElem? hc)

private theorem firstInk_indentation (h : t.indentation < t.length) : t.FirstInk t.indentation := by
  refine ⟨⟨t[t.indentation], List.getElem?_eq_getElem h, ?_⟩, fun j hj c => isBlank_of_lt_indentation hj⟩
  have hhead : t.trimStart.head? = some t[t.indentation] := by
    rw [← drop_indentation, List.head?_drop, List.getElem?_eq_getElem h]
  have hnot := List.head?_dropWhile_not isBlank t
  rw [trimStart] at hhead
  rwa [hhead] at hnot

private theorem FirstInk.eq_indentation (h : t.FirstInk i) : i = t.indentation := by
  obtain ⟨⟨c, hc, hink⟩, hblank⟩ := h
  have hi := lt_of_char hc
  rcases Nat.lt_trichotomy i t.indentation with hlt | heq | hlt
  · rw [isBlank_of_lt_indentation hlt hc] at hink
    cases hink
  · exact heq
  · obtain ⟨⟨d, hd, hinkd⟩, -⟩ := firstInk_indentation (t := t) (by omega)
    rw [hblank _ hlt d hd] at hinkd
    cases hinkd

end Text

/-! ### Readings -/

namespace Scan

/-- The readings of a line from an index on, one behind the other, each with its index.  There is no answer as soon
as one of them has none. -/
def readings (l : Language) (t : Text) (m : Mode) (index : Nat) : Option (List (Nat × Reading)) :=
  if index < t.length then do
    let r ← m.readAt l t index
    let rest ← readings l t r.mode (index + max r.length 1)
    return (index, r) :: rest
  else some []
termination_by t.length - index

/-- What the scan of the line from its start reads the character at the place `i` as.  A character that is taken
together with one before it is not read by itself. -/
def roleAt? (l : Language) (t : Text) (i : Nat) : Option Role := do
  let rs ← readings l t .code 0
  let r ← rs.lookup i
  return r.role

variable {l : Language} {t : Text} {i : Nat} {c : Char}

private theorem readings_of_char (h : t[i]? = some c) (m : Mode) :
    readings l t m i =
      (readings l t (m.read l (t.take i).getLast? c (t.drop (i + 1))).mode
        (i + max (m.read l (t.take i).getLast? c (t.drop (i + 1))).length 1)).map
        ((i, m.read l (t.take i).getLast? c (t.drop (i + 1))) :: ·) := by
  rw [readings, if_pos (Text.lt_of_char h), readAt_of_char m h]
  simp only [Option.bind_eq_bind, Option.bind_some]
  cases readings l t _ _ <;> rfl

/-- The readings of a line all have an answer: by induction on the number of characters that are left. -/
theorem exists_readings (l : Language) (t : Text) (n : Nat) :
    ∀ (m : Mode) (i : Nat), t.length - i = n → ∃ rs, readings l t m i = some rs := by
  induction n using Nat.strongRecOn with
  | _ n ih =>
    intro m i hn
    by_cases hi : i < t.length
    · have hchar : t[i]? = some t[i] := List.getElem?_eq_getElem hi
      rw [readings_of_char hchar]
      obtain ⟨rs, hrs⟩ := ih _ (by omega) (m.read l (t.take i).getLast? t[i] (t.drop (i + 1))).mode
        (i + max (m.read l (t.take i).getLast? t[i] (t.drop (i + 1))).length 1) rfl
      exact ⟨_, by rw [hrs]; rfl⟩
    · exact ⟨[], by rw [readings, if_neg hi]⟩

/-- The reading of a character that is code. -/
def plainReading : Reading := ⟨.code, 1, .code⟩

/-- Plain characters at the start of a line are read one by one, and leave the mode as it is. -/
theorem readings_to (h : ∀ k < i, ∃ c, l.PlainAt t k c) :
    readings l t .code 0 =
      (readings l t .code i).map ((List.range i).map (fun k => (k, plainReading)) ++ ·) := by
  induction i with
  | zero =>
    cases readings l t .code 0 <;> rfl
  | succ i ih =>
    obtain ⟨c, hplain⟩ := h i (Nat.lt_succ_self i)
    have hstep : readings l t .code i = (readings l t .code (i + 1)).map ((i, plainReading) :: ·) := by
      rw [readings_of_char hplain.char, read_plain hplain]
      rfl
    rw [ih fun k hk => h k (by omega), hstep, Option.map_map, List.range_succ, List.map_append]
    congr 1
    funext rs
    simp

/-- So the first character behind them is read in the mode at the start of the line. -/
theorem roleAt?_of_plain (h : ∀ k < i, ∃ c, l.PlainAt t k c) (hc : t[i]? = some c) :
    roleAt? l t i = some (Mode.read .code l (t.take i).getLast? c (t.drop (i + 1))).role := by
  obtain ⟨rs, hrs⟩ := exists_readings l t _ (Mode.read .code l (t.take i).getLast? c (t.drop (i + 1))).mode
    (i + max (Mode.read .code l (t.take i).getLast? c (t.drop (i + 1))).length 1) rfl
  -- no reading before has the index `i`
  have hlookup : ((List.range i).map fun k => (k, plainReading)).lookup i = none := by
    rw [List.lookup_eq_none_iff]
    intro x hx
    obtain ⟨k, hk, rfl⟩ := List.mem_map.1 hx
    have hki : i ≠ k := by
      have := List.mem_range.1 hk
      omega
    simpa using hki
  rw [roleAt?, readings_to h, readings_of_char hc, hrs]
  simp only [Option.map_some, Option.bind_eq_bind, Option.bind_some, List.lookup_append, hlookup, Option.none_or,
    List.lookup_cons_self, Option.pure_def]

private theorem role_eq_comment_iff (b : Option Char) (c : Char) (rest : Text) :
    (Mode.read .code l b c rest).role = .comment ↔ l.startsComment (c :: rest) = true := by
  unfold Mode.read
  cases hstarts : l.startsComment (c :: rest) with
  | true => simp [Mode.quote?]
  | false =>
    cases hquote : l.isQuote c <;> simp [Mode.readPlain, hquote]

/-- The scan yields the plain characters at the start of a line with their columns, and goes on behind them. -/
theorem ofLine_to (h : ∀ k < i, ∃ c, l.PlainAt t k c) :
    ofLine l t =
      ⟨((t.take i).zipIdx.map fun x => (x.2, x.1)) ++ (run l .code i none (t.drop i)).code,
       (run l .code i none (t.drop i)).final⟩ := by
  induction i with
  | zero => rfl
  | succ i ih =>
    obtain ⟨c, hplain⟩ := h i (Nat.lt_succ_self i)
    have hlt := hplain.lt
    have htake : t.take (i + 1) = t.take i ++ [c] := by
      rw [List.take_add_one, hplain.char]
      rfl
    have hlen : (t.take i).length = i := by
      rw [List.length_take]
      omega
    rw [ih fun k hk => h k (by omega), run_plain hplain, htake, List.zipIdx_append, hlen]
    simp

end Scan

namespace Language

variable {l : Language} {t : Text} {i : Nat} {c : Char}

private theorem BlanksArePlain.plainAt (hl : l.BlanksArePlain) (hi : i < t.indentation) (hc : t[i]? = some c) :
    l.PlainAt t i c := by
  have hblank := Text.isBlank_of_lt_indentation hi hc
  refine ⟨hc, fun hquote => ?_, fun htoken => ?_⟩
  · rw [hl.quote c hquote] at hblank
    cases hblank
  · have hstarts := startsComment_drop_iff.2 htoken
    rw [Text.drop_of_char hc, hl.startsComment_cons hblank] at hstarts
    cases hstarts

private theorem BlanksArePlain.plainBefore (hl : l.BlanksArePlain) (t : Text) :
    ∀ k < t.indentation, ∃ c, l.PlainAt t k c := by
  intro k hk
  have hlen := t.indentation_le_length
  have hchar : t[k]? = some t[k] := List.getElem?_eq_getElem (by omega)
  exact ⟨_, hl.plainAt hk hchar⟩

/-- Trimming a line does not cut into the token at its start. -/
theorem BlanksArePlain.startsComment_trim (hl : l.BlanksArePlain) (t : Text) :
    l.startsComment t.trim = true ↔ l.TokenAt t t.indentation := by
  obtain ⟨blanks, hsplit, hblanks⟩ := t.trim_split
  have hrest : t.trimStart = t.trim ++ blanks := by
    have hstart : t.takeWhile isBlank ++ t.trimStart = t.takeWhile isBlank ++ (t.trim ++ blanks) := by
      rw [← hsplit]
      exact List.takeWhile_append_dropWhile
    exact List.append_cancel_left hstart
  rw [← startsComment_drop_iff, Text.drop_indentation, hrest, hl.startsComment_append hblanks]

/-- A trimmed line starts with a comment token exactly when the line has a character that is not blank and the scan
reads the first such character as a comment.  Then the scan yields the blanks before it only, and ends in a
comment. -/
theorem startsComment_trim_iff (l : Language) (hl : l.BlanksArePlain) (t : Text) :
    (l.startsComment t.trim = true ↔ ∃ i, t.FirstInk i ∧ Scan.roleAt? l t i = some .comment) ∧
      (l.startsComment t.trim = true →
        (Scan.ofLine l t).code = ((t.takeWhile isBlank).zipIdx.map fun x => (x.2, x.1)) ∧
        (Scan.ofLine l t).final.inComment = true) := by
  have hrole : ∀ {c}, t[t.indentation]? = some c →
      (Scan.roleAt? l t t.indentation = some .comment ↔ l.TokenAt t t.indentation) := by
    intro c hc
    rw [Scan.roleAt?_of_plain (hl.plainBefore t) hc, Option.some_inj, Scan.role_eq_comment_iff,
      ← Text.drop_of_char hc, startsComment_drop_iff]
  rw [hl.startsComment_trim t]
  refine ⟨⟨fun htoken => ?_, ?_⟩, fun htoken => ?_⟩
  · have hink := Text.firstInk_indentation htoken.lt
    exact ⟨t.indentation, hink, (hrole (List.getElem?_eq_getElem htoken.lt)).2 htoken⟩
  · rintro ⟨i, hink, hcomment⟩
    obtain rfl := hink.eq_indentation
    obtain ⟨⟨c, hc, -⟩, -⟩ := hink
    exact (hrole hc).1 hcomment
  · rw [Scan.ofLine_to (hl.plainBefore t), Scan.run_comment htoken, Text.take_indentation]
    exact ⟨List.append_nil _, rfl⟩

/-- Lua is such a language, and so is one whose token has a blank inside.  Here the token stands behind a tab and a
no-break space, and ends where the line is trimmed. -/
theorem startsComment_trim_iff_inner :
    lua.BlanksArePlain ∧ BlanksArePlain { lua with commentToken := ['-', ' ', '-'] } ∧
      Scan.ofLine { lua with commentToken := ['-', ' ', '-'] } "\t\u00a0- - ".toList =
        ⟨[(0, '\t'), (1, '\u00a0')], .comment none⟩ ∧
      ∃ i, Text.FirstInk "\t\u00a0- - ".toList i ∧
        Scan.roleAt? { lua with commentToken := ['-', ' ', '-'] } "\t\u00a0- - ".toList i = some .comment := by
  have hplain : BlanksArePlain { lua with commentToken := ['-', ' ', '-'] } :=
    ⟨by rintro c ⟨⟩; decide, by rintro c ⟨⟩; decide, blanksArePlain_lua.quote⟩
  exact ⟨blanksArePlain_lua, hplain, by decide, (startsComment_trim_iff _ hplain _).1.1 (by decide)⟩

end Language

end ScriptLint
