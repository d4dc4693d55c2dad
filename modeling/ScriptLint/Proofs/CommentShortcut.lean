import ScriptLint.Proofs.CommentStarts

/-!
# The shortcut through comments

The scan stops at the first comment token, since a comment takes all the rest of the line.  The readings of the
line (`Scan.readings`) have no such shortcut: they go on to the end of the line, and take a token whole also within
a comment.  So the two make different steps, and still agree (`Scan.readings_agree`): the readings that are code
are the characters that the scan yields, and the mode behind the last reading is the one in which the scan ends.

* `Scan.readings_cons` takes the readings of a line apart, and `Scan.readings_invariant` carries what one reading
  keeps along all of them.
* A reading within the line ends within the line (`Scan.stop_le_of_readAt`), however long the token is.
* A reading within a comment is part of the comment and keeps the mode (`Scan.readAt_inComment`), so the readings
  that the shortcut leaves out change nothing (`Scan.ofReadings_inComment`).
-/

namespace ScriptLint

namespace Mode

variable {m : Mode} {l : Language}

/-- Is there a comment and an open string at once? -/
def hidesString (m : Mode) : Bool := m.inComment && m.quote?.isSome

private theorem length_readPlain (m : Mode) (l : Language) (b : Option Char) (c : Char) :
    (m.readPlain l b c).length = 1 := by
  cases m with
  | code => by_cases hq : l.isQuote c = true <;> simp [readPlain, hq]
  | string | comment => rfl

/-- A comment starts only where no string is open, and a string only where there is no comment. -/
theorem hidesString_read (hm : m.hidesString = false) (b : Option Char) (c : Char) (s : Text) :
    (m.read l b c s).mode.hidesString = false := by
  unfold read
  split
  · rfl
  · cases m with
    | code => by_cases hq : l.isQuote c = true <;> simp [readPlain, hq, hidesString, inComment]
    | string q => by_cases he : endsString l q b c = true <;> simp [readPlain, he, hidesString, inComment]
    | comment q => exact hm

end Mode

namespace Scan

variable {l : Language} {t : Text} {m : Mode} {i : Nat} {r : Reading} {rs : List (Nat × Reading)}

/-! ### One reading -/

/-- The index behind a reading. -/
def stop (x : Nat × Reading) : Nat := x.1 + max x.2.length 1

private theorem exists_read_of_readAt (hi : i < t.length) (h : m.readAt l t i = some r) :
    ∃ c, t[i]? = some c ∧ r = m.read l (t.take i).getLast? c (t.drop (i + 1)) := by
  have hchar : t[i]? = some t[i] := List.getElem?_eq_getElem hi
  rw [readAt_of_char m hchar] at h
  exact ⟨_, hchar, (Option.some.inj h).symm⟩

theorem stop_le_of_readAt (hi : i < t.length) (h : m.readAt l t i = some r) : stop (i, r) ≤ t.length := by
  obtain ⟨c, hchar, rfl⟩ := exists_read_of_readAt hi h
  unfold stop Mode.read
  split
  · next hstarts =>
    -- all of the token stands in the line
    have htoken : l.TokenAt t i := by
      rw [← Language.startsComment_drop_iff, Text.drop_of_char hchar]
      exact (Bool.and_eq_true_iff.1 hstarts).2
    have hlen := htoken.2.length_le
    rw [List.length_drop] at hlen
    change i + max l.commentToken.length 1 ≤ t.length
    omega
  · rw [Mode.length_readPlain]
    omega

private theorem hidesString_of_readAt (hi : i < t.length) (h : m.readAt l t i = some r)
    (hm : m.hidesString = false) : r.mode.hidesString = false := by
  obtain ⟨c, -, rfl⟩ := exists_read_of_readAt hi h
  exact Mode.hidesString_read hm _ _ _

theorem readAt_inComment (hi : i < t.length) (h : m.readAt l t i = some r) (hm : m.inComment = true) :
    r.role = .comment ∧ r.mode = m := by
  obtain ⟨c, -, rfl⟩ := exists_read_of_readAt hi h
  exact read_inComment hm _ _ _ _

/-! ### All readings -/

/-- There are no more readings only at the end of the line. -/
theorem length_le_of_readings_nil (h : readings l t m i = some []) : t.length ≤ i := by
  rw [readings] at h
  split at h
  · obtain ⟨r, -, h⟩ := Option.bind_eq_some_iff.1 h
    obtain ⟨rest, -, h⟩ := Option.bind_eq_some_iff.1 h
    cases h
  · next hi => exact Nat.le_of_not_lt hi

/-- The first of the readings, and how they go on behind it. -/
theorem readings_cons {x : Nat × Reading} (h : readings l t m i = some (x :: rs)) :
    ∃ r, x = (i, r) ∧ i < t.length ∧ m.readAt l t i = some r ∧ readings l t r.mode (stop (i, r)) = some rs := by
  rw [readings] at h
  split at h
  · next hi =>
    obtain ⟨r, hr, h⟩ := Option.bind_eq_some_iff.1 h
    obtain ⟨rest, hrest, h⟩ := Option.bind_eq_some_iff.1 h
    cases h
    exact ⟨r, rfl, hi, hr, hrest⟩
  · cases h

/-- If every reading keeps a property of the mode, then each of the readings is made in a mode with that property.
-/
theorem readings_invariant {P : Mode → Prop}
    (hstep : ∀ {i m r}, i < t.length → m.readAt l t i = some r → P m → P r.mode)
    (h : readings l t m i = some rs) (hm : P m) :
    ∀ x ∈ rs, ∃ m', P m' ∧ x.1 < t.length ∧ m'.readAt l t x.1 = some x.2 := by
  induction rs generalizing m i with
  | nil => nofun
  | cons y rest ih =>
    obtain ⟨r, rfl, hi, hr, hrest⟩ := readings_cons h
    intro x hx
    rcases List.mem_cons.1 hx with rfl | hx
    · exact ⟨m, hm, hi, hr⟩
    · exact ih hrest (hstep hi hr hm) x hx

private theorem stop_le_length (h : readings l t m i = some rs) : ∀ x ∈ rs, stop x ≤ t.length := by
  intro x hx
  obtain ⟨m', -, hlt, hr⟩ := readings_invariant (P := fun _ => True) (fun _ _ _ => trivial) h trivial x hx
  exact stop_le_of_readAt hlt hr

/-- The last reading ends where the line does. -/
theorem getLastD_stop (h : readings l t m i = some rs) (hi : i ≤ t.length) :
    (rs.map stop).getLastD i = t.length := by
  induction rs generalizing m i with
  | nil => exact Nat.le_antisymm hi (length_le_of_readings_nil h)
  | cons y rest ih =>
    obtain ⟨r, rfl, hlt, hr, hrest⟩ := readings_cons h
    rw [List.map_cons, List.getLastD_cons]
    exact ih hrest (stop_le_of_readAt hlt hr)

private theorem hidesString_readings (h : readings l t m i = some rs) (hm : m.hidesString = false) :
    ∀ x ∈ rs, x.2.mode.hidesString = false := by
  intro x hx
  obtain ⟨m', hm', hlt, hr⟩ := readings_invariant hidesString_of_readAt h hm x hx
  exact hidesString_of_readAt hlt hr hm'

/-! ### Readings and scans -/

/-- The character of a reading that is code, with its column. -/
def codeChar? (t : Text) (x : Nat × Reading) : Option (Nat × Char) :=
  match x.2.role with
  | .code => t[x.1]?.map fun c => (x.1, c)
  | .string | .comment => none

/-- The code characters among the readings, and the mode behind the last one, where `m` is the mode before the
first. -/
def ofReadings (t : Text) (m : Mode) (rs : List (Nat × Reading)) : Scan :=
  ⟨rs.filterMap (codeChar? t), (rs.map fun x => x.2.mode).getLastD m⟩

private theorem ofReadings_cons (t : Text) (m : Mode) (x : Nat × Reading) (rs : List (Nat × Reading)) :
    ofReadings t m (x :: rs) =
      ⟨(codeChar? t x).toList ++ (ofReadings t x.2.mode rs).code, (ofReadings t x.2.mode rs).final⟩ := by
  simp only [ofReadings, List.map_cons, List.getLastD_cons]
  cases hx : codeChar? t x with
  | none => rw [List.filterMap_cons_none hx]; rfl
  | some y => rw [List.filterMap_cons_some hx]; rfl

/-- The readings from within a comment yield nothing and end in the same comment. -/
theorem ofReadings_inComment (h : readings l t m i = some rs) (hm : m.inComment = true) :
    ofReadings t m rs = ⟨[], m⟩ := by
  induction rs generalizing i with
  | nil => rfl
  | cons y rest ih =>
    obtain ⟨r, rfl, hi, hr, hrest⟩ := readings_cons h
    obtain ⟨hrole, hmode⟩ := readAt_inComment hi hr hm
    have hcode : codeChar? t (i, r) = none := by simp only [codeChar?, hrole]
    rw [hmode] at hrest
    rw [ofReadings_cons, hcode, hmode, ih hrest]
    rfl

/-- The scan by index, which stops at a comment, finds what all the readings say: by induction on the readings. -/
theorem walk_eq_ofReadings (h : readings l t m i = some rs) : walk l t m i = some (ofReadings t m rs) := by
  induction rs generalizing m i with
  | nil =>
    rw [walk, if_neg (Nat.not_lt.2 (length_le_of_readings_nil h))]
    rfl
  | cons y rest ih =>
    obtain ⟨r, rfl, hi, hr, hrest⟩ := readings_cons h
    by_cases hm : m.inComment = true
    · rw [ofReadings_inComment h hm, walk, if_pos hi, if_pos hm]
    · have hchar : t[i]? = some t[i] := List.getElem?_eq_getElem hi
      have htail : walk l t r.mode (i + max r.length 1) = some (ofReadings t r.mode rest) := ih hrest
      rw [walk, if_pos hi, if_neg hm, hr]
      simp only [Option.bind_eq_bind, Option.bind_some, htail, hchar]
      rw [ofReadings_cons]
      cases hrole : r.role <;> simp [codeChar?, hrole, hchar]

/-- Reading a line one reading behind the other, also within comments, always has an answer.  No reading goes
beyond the line, and the last one ends where the line does.  The readings that are code are the characters that the
scan yields, the mode behind the last one is the mode in which the scan ends, and the scan by index, which stops at
a comment, has the same answer.  No mode on the way is that of a comment and of an open string at once. -/
theorem readings_agree (l : Language) (t : Text) :
    ∃ rs, readings l t .code 0 = some rs ∧
      (∀ x ∈ rs, stop x ≤ t.length) ∧ (rs.map stop).getLastD 0 = t.length ∧
      rs.filterMap (codeChar? t) = (ofLine l t).code ∧
      (rs.map fun x => x.2.mode).getLastD .code = (ofLine l t).final ∧
      walk l t .code 0 = some (ofLine l t) ∧
      ∀ m ∈ Mode.code :: rs.map fun x => x.2.mode, m.hidesString = false := by
  obtain ⟨rs, hrs⟩ := exists_readings l t t.length .code 0 rfl
  have hwalk : walk l t .code 0 = some (ofLine l t) := walk_eq_run l t t.length 0 .code (Nat.zero_add _)
  have hscan : ofReadings t .code rs = ofLine l t := Option.some.inj ((walk_eq_ofReadings hrs).symm.trans hwalk)
  refine ⟨rs, hrs, stop_le_length hrs, getLastD_stop hrs (Nat.zero_le _), ?_, ?_, hwalk, ?_⟩
  · rw [← hscan, ofReadings]
  · rw [← hscan, ofReadings]
  · intro m hm
    rcases List.mem_cons.1 hm with rfl | hm
    · rfl
    · obtain ⟨x, hx, rfl⟩ := List.mem_map.1 hm
      exact hidesString_readings hrs rfl x hx

/-- Behind the first token the readings take a second one whole, which the scan does not look at. -/
example : readings .lua "(-----".toList .code 0 =
    some [(0, plainReading), (1, ⟨.comment, 2, .comment none⟩), (3, ⟨.comment, 2, .comment none⟩),
      (5, ⟨.comment, 1, .comment none⟩)] := by
  cbv

end Scan

end ScriptLint
