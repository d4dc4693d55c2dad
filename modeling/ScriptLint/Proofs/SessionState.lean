import ScriptLint.Editor.Session

/-!
# What a session shows

Whatever has been done to a session, and also after its panel was given other diagnostics from outside, an edit
makes it show the new text: its diagnostics, markers and summary are those of that text alone, and go on to be
those of the text last entered until the panel is given other diagnostics again (`after_edit_reflects`).

An edit leaves the panel as it is when it already lists the right diagnostics.  Then the selected place is kept
too, and rightly so, because a panel never selects a place that its list does not have (`Panel.InRange`).
-/

namespace ScriptLint

/-! ### Panels -/

namespace Panel

variable {p : Panel}

/-- Only a place that the list has is selected. -/
def InRange (p : Panel) : Prop := ∀ i ∈ p.selected, i < p.size

theorem inRange_ofDiagnostics (ds : List Diagnostic) : InRange { diagnostics := ds } := by
  intro i hi
  cases hi

private theorem size_pos (h : ¬p.isEmpty = true) : 0 < p.size :=
  List.length_pos_iff.2 (by simpa [isEmpty] using h)

theorem inRange_perform (h : p.InRange) (a : Action) : (p.perform a).InRange := by
  cases a with
  | select index =>
    show (p.select index).InRange
    unfold select
    split
    · rename_i hlt
      intro i hi
      obtain rfl := Option.mem_some.1 hi
      exact hlt
    · exact h
  | next =>
    show p.next.InRange
    unfold next
    split
    · exact h
    · rename_i hempty
      have hpos := size_pos hempty
      intro i hi
      obtain rfl := Option.mem_some.1 hi
      cases p.selected with
      | none => exact hpos
      | some j => exact Nat.mod_lt _ hpos
  | previous =>
    show p.previous.InRange
    unfold previous
    split
    · exact h
    · rename_i hempty
      have hpos := size_pos hempty
      intro i hi
      obtain rfl := Option.mem_some.1 hi
      show _ < p.size
      cases hsel : p.selected with
      | none => exact Nat.sub_lt hpos Nat.one_pos
      | some j =>
        have hj := h j hsel
        cases j with
        | zero => exact Nat.sub_lt hpos Nat.one_pos
        | succ j => exact Nat.lt_of_succ_lt hj
  | clear =>
    intro i hi
    cases hi
  | replace ds =>
    intro i hi
    exact of_decide_eq_true (Option.filter_eq_some_iff.1 hi).2

private theorem diagnostics_perform {a : Action} (h : ∀ ds, a ≠ .replace ds) :
    (p.perform a).diagnostics = p.diagnostics := by
  cases a with
  | select index =>
    simp only [perform, select]
    split <;> rfl
  | next =>
    simp only [perform, next]
    split <;> rfl
  | previous =>
    simp only [perform, previous]
    split <;> rfl
  | clear => rfl
  | replace ds => exact absurd rfl (h ds)

end Panel

/-! ### One action -/

namespace Session

variable {s : Session} {lt : Linter}

/-- An edit enters the text, and lists other diagnostics only if they are not listed already. -/
theorem edit_fst (s : Session) (t : Text) :
    (s.edit t).1 =
      if s.linter.lint t = s.panel.diagnostics then
        { s with text := t, table := .ofText t, version := s.version + 1 }
      else
        { s with
          text := t, table := .ofText t, version := s.version + 2, panel := s.panel.replace (s.linter.lint t) } := by
  simp only [edit]
  split <;> rfl

private theorem diagnostics_edit (s : Session) (t : Text) : (s.edit t).1.panel.diagnostics = s.linter.lint t := by
  rw [edit_fst]
  split
  · rename_i hsame
    exact hsame.symm
  · rfl

private theorem selected_edit (h : s.panel.InRange) (t : Text) :
    (s.edit t).1.panel.selected = s.panel.selected.filter (· < (s.linter.lint t).length) := by
  rw [edit_fst]
  split
  · rename_i hsame
    -- the list is as long as before, so the place is in it
    rw [hsame]
    cases hsel : s.panel.selected with
    | none => rfl
    | some i =>
      have hi : i < s.panel.diagnostics.length := h i hsel
      rw [Option.filter_some, if_pos (decide_eq_true hi)]
  · rfl

/-- What holds of a session with the linter `lt` at all times. -/
structure Sound (s : Session) (lt : Linter) : Prop where
  linter_eq : s.linter = lt
  table_eq : s.table = .ofText s.text
  inRange : s.panel.InRange

private theorem sound_ofText (lt : Linter) (t : Text) : (ofText lt t).Sound lt :=
  ⟨rfl, rfl, Panel.inRange_ofDiagnostics _⟩

theorem Sound.perform (h : s.Sound lt) (a : Action) : (s.perform a).1.Sound lt := by
  cases a with
  | edit t =>
    show (s.edit t).1.Sound lt
    rw [edit_fst]
    split
    · exact ⟨h.linter_eq, rfl, h.inRange⟩
    · exact ⟨h.linter_eq, rfl, Panel.inRange_perform h.inRange (.replace _)⟩
  | subscribe => exact ⟨h.linter_eq, h.table_eq, h.inRange⟩
  | panel a => exact ⟨h.linter_eq, h.table_eq, Panel.inRange_perform h.inRange a⟩

/-- The panel lists the diagnostics of the text. -/
def Fresh (s : Session) : Prop := s.panel.diagnostics = s.linter.lint s.text

private theorem fresh_edit (s : Session) (t : Text) : (s.edit t).1.Fresh := by
  rw [Fresh, diagnostics_edit, edit_fst]
  split <;> rfl

theorem Fresh.perform (h : s.Fresh) {a : Action} (ha : ∀ ds, a ≠ .panel (.replace ds)) :
    (s.perform a).1.Fresh := by
  cases a with
  | edit t => exact fresh_edit s t
  | subscribe => exact h
  | panel a =>
    have hkeep : ∀ ds, a ≠ .replace ds := fun ds heq => ha ds (by rw [heq])
    exact (Panel.diagnostics_perform hkeep).trans h

/-! ### Many actions -/

/-- The text last entered by some actions, if the text was `t` before. -/
def lastText (t : Text) : List Action → Text
  | [] => t
  | .edit t' :: rest => lastText t' rest
  | .subscribe :: rest | .panel _ :: rest => lastText t rest

private theorem text_run (s : Session) (acts : List Action) : (s.run acts).1.text = lastText s.text acts := by
  induction acts generalizing s with
  | nil => rfl
  | cons a rest ih =>
    rw [run, ih]
    cases a with
    | edit t =>
      show lastText (s.edit t).1.text rest = lastText t rest
      rw [edit_fst]
      split <;> rfl
    | subscribe | panel => rfl

theorem Sound.run (h : s.Sound lt) (acts : List Action) : (s.run acts).1.Sound lt := by
  induction acts generalizing s with
  | nil => exact h
  | cons a rest ih => exact ih (h.perform a)

theorem Fresh.run (h : s.Fresh) {acts : List Action} (ha : ∀ ds, .panel (.replace ds) ∉ acts) :
    (s.run acts).1.Fresh := by
  induction acts generalizing s with
  | nil => exact h
  | cons a rest ih =>
    refine ih (h.perform fun ds heq => ?_) fun ds hmem => ha ds (List.mem_cons_of_mem _ hmem)
    exact ha ds (by rw [heq]; exact List.mem_cons_self ..)

/-- The session of a text after some actions. -/
def after (lt : Linter) (t : Text) (acts : List Action) : Session := ((ofText lt t).run acts).1

theorem after_append (lt : Linter) (t : Text) (xs ys : List Action) :
    after lt t (xs ++ ys) = ((after lt t xs).run ys).1 := by
  rw [after, run_append]
  rfl

private theorem sound_after (lt : Linter) (t : Text) (acts : List Action) : (after lt t acts).Sound lt :=
  (sound_ofText lt t).run acts

/-- The session shows what its linter says about the text `t`. -/
structure Reflects (s : Session) (lt : Linter) (t : Text) : Prop where
  text_eq : s.text = t
  diagnostics_eq : s.diagnostics = lt.lint t
  markers_eq : s.markers = Marker.ofDiagnostics (.ofText t) (lt.lint t)
  summary_eq : s.summary = Summary.ofDiagnostics (lt.lint t)

private theorem Sound.reflects (h : s.Sound lt) (hfresh : s.Fresh) : s.Reflects lt s.text := by
  have hdiagnostics : s.diagnostics = lt.lint s.text := by rw [← h.linter_eq]; exact hfresh
  refine ⟨rfl, hdiagnostics, ?_, ?_⟩
  · rw [markers, h.table_eq, hdiagnostics]
  · rw [summary, hdiagnostics]

private theorem reflects_after_edit (lt : Linter) (t₀ : Text) (acts : List Action) (t : Text) {more : List Action}
    (hmore : ∀ ds, .panel (.replace ds) ∉ more) :
    (after lt t₀ (acts ++ .edit t :: more)).Reflects lt (lastText t more) := by
  have hfresh : (after lt t₀ (acts ++ .edit t :: more)).Fresh := by
    rw [after_append]
    exact (fresh_edit _ t).run hmore
  have htext : (after lt t₀ (acts ++ .edit t :: more)).text = lastText t more := by
    rw [after_append, text_run]
    rfl
  rw [← htext]
  exact (sound_after lt t₀ _).reflects hfresh

/-- After any actions the line table is that of the text and the summary counts the diagnostics in the panel.  An
edit makes the session show the new text, keeps the selected place if the new list has it, and the session goes on
to show the text last entered until its panel is given other diagnostics. -/
theorem after_edit_reflects (lt : Linter) (t₀ : Text) (acts : List Action) :
    (after lt t₀ acts).table = .ofText (after lt t₀ acts).text ∧
    (after lt t₀ acts).summary.errors = (after lt t₀ acts).panel.errorCount ∧
    (after lt t₀ acts).summary.warnings = (after lt t₀ acts).panel.warningCount ∧
    (after lt t₀ acts).summary.errors + (after lt t₀ acts).summary.warnings = (after lt t₀ acts).panel.size ∧
    ∀ t : Text,
      (after lt t₀ (acts ++ [.edit t])).Reflects lt t ∧
      (after lt t₀ (acts ++ [.edit t])).panel.selected =
        (after lt t₀ acts).panel.selected.filter (· < (lt.lint t).length) ∧
      ∀ more : List Action, (∀ ds, .panel (.replace ds) ∉ more) →
        (after lt t₀ (acts ++ .edit t :: more)).Reflects lt (lastText t more) := by
  have hsound := sound_after lt t₀ acts
  refine ⟨hsound.table_eq, ?_, ?_, Summary.total_ofDiagnostics _, ?_⟩
  · exact Summary.errors_ofDiagnostics _
  · exact Summary.warnings_ofDiagnostics _
  intro t
  refine ⟨reflects_after_edit lt t₀ acts t (by simp), ?_, fun more hmore => reflects_after_edit lt t₀ acts t hmore⟩
  have hselected := selected_edit hsound.inRange t
  rw [hsound.linter_eq] at hselected
  rw [after_append]
  exact hselected

/-- The panel was given diagnostics of another text, and its last one was selected; the edit is followed by actions
that leave the list alone. -/
theorem after_edit_reflects_replaced :
    (∀ ds, Action.panel (.replace ds) ∉ [Action.subscribe, .panel .next]) ∧
      (after .default [] ([.panel (.replace (Linter.default.lint "]\n)".toList)), .panel .previous] ++
        .edit ")".toList :: [.subscribe, .panel .next])).Reflects .default ")".toList :=
  ⟨by simp, ((after_edit_reflects .default [] _).2.2.2.2 _).2.2 _ (by simp)⟩

end Session

end ScriptLint
