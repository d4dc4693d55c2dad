import Mathlib.Data.List.Rotate
import ScriptLint.Proofs.SessionState

/-!
# Going round a panel

Whatever has been done to a panel, its selection is a place of its list, and going forwards and backwards goes
round that list (`Panel.navigation_cyclic`).

Both directions turn the selection: forwards by one place, backwards by all places but one.  Turns add up
(`Panel.turn_turn`) and a turn by the number of the places changes nothing (`Panel.turn_size`), which is all that
is needed about many steps and about steps that undo each other.
-/

namespace ScriptLint

namespace Panel

variable {p : Panel} {i : Nat}

/-! ### Reachable panels -/

/-- Do some actions lead to `p` from a panel with nothing selected? -/
def Reachable (p : Panel) : Prop :=
  ∃ (ds : List Diagnostic) (acts : List Action), acts.foldl perform { diagnostics := ds } = p

private theorem InRange.foldl_perform (h : p.InRange) (acts : List Action) : (acts.foldl perform p).InRange := by
  induction acts generalizing p with
  | nil => exact h
  | cons a rest ih => exact ih (inRange_perform h a)

theorem Reachable.inRange (h : p.Reachable) : p.InRange := by
  obtain ⟨ds, acts, rfl⟩ := h
  exact (inRange_ofDiagnostics ds).foldl_perform acts

private theorem isSome_selectedDiagnostic? (h : p.InRange) : p.selectedDiagnostic?.isSome = p.selected.isSome := by
  unfold selectedDiagnostic?
  cases hsel : p.selected with
  | none => rfl
  | some i =>
    have hi : i < p.diagnostics.length := h i hsel
    rw [Option.bind_some, List.getElem?_eq_getElem hi]
    rfl

/-! ### Turning -/

/-- The panel with its selection moved on by `m` places, round the list. -/
def turn (p : Panel) (m : Nat) : Panel := { p with selected := p.selected.map fun i => (i + m) % p.size }

private theorem size_turn (p : Panel) (m : Nat) : (p.turn m).size = p.size := rfl

private theorem selected_turn (h : p.selected = some i) (m : Nat) :
    (p.turn m).selected = some ((i + m) % p.size) := by
  rw [turn, h]
  rfl

private theorem turn_of_selected (h : p.selected = some i) (m : Nat) :
    p.turn m = { p with selected := some ((i + m) % p.size) } := by
  rw [turn, h]
  rfl

theorem turn_turn (p : Panel) (m n : Nat) : (p.turn m).turn n = p.turn (m + n) := by
  cases hsel : p.selected with
  | none => simp [turn, hsel]
  | some i =>
    have hplace : ((i + m) % p.size + n) % p.size = (i + (m + n)) % p.size := by
      rw [Nat.mod_add_mod, Nat.add_assoc]
    rw [turn_of_selected (selected_turn hsel m), size_turn, hplace, turn_of_selected hsel (m + n)]
    rfl

theorem turn_size (h : p.InRange) : p.turn p.size = p := by
  cases hsel : p.selected with
  | none => rw [turn, hsel, Option.map_none, ← hsel]
  | some i =>
    have hi : i < p.size := h i hsel
    rw [turn_of_selected hsel, Nat.add_mod_right, Nat.mod_eq_of_lt hi, ← hsel]

private theorem turn_zero (h : p.InRange) : p.turn 0 = p := by
  calc p.turn 0 = (p.turn p.size).turn 0 := by rw [turn_size h]
    _ = p.turn p.size := by rw [turn_turn, Nat.add_zero]
    _ = p := turn_size h

private theorem inRange_turn (h : p.InRange) (m : Nat) : (p.turn m).InRange := by
  intro j hj
  cases hsel : p.selected with
  | none => simp [turn, hsel] at hj
  | some i =>
    have hi : i < p.size := h i hsel
    rw [selected_turn hsel] at hj
    obtain rfl := Option.mem_some.1 hj
    exact Nat.mod_lt _ (by omega)

/-! ### Steps -/

private theorem not_isEmpty_of_size_pos (h : 0 < p.size) : ¬p.isEmpty = true := by
  intro hempty
  have hnil : p.diagnostics = [] := by simpa [isEmpty] using hempty
  rw [size, hnil] at h
  exact absurd h (Nat.lt_irrefl 0)

private theorem next_eq_turn (h : p.InRange) (hsel : p.selected = some i) : p.next = p.turn 1 := by
  have hi : i < p.size := h i hsel
  rw [next, if_neg (not_isEmpty_of_size_pos (by omega)), turn_of_selected hsel, hsel]
  rfl

private theorem previous_eq_turn (h : p.InRange) (hsel : p.selected = some i) :
    p.previous = p.turn (p.size - 1) := by
  have hi : i < p.size := h i hsel
  rw [previous, if_neg (not_isEmpty_of_size_pos (by omega)), turn_of_selected hsel, hsel]
  cases i with
  | zero =>
    have hlast : (0 + (p.size - 1)) % p.size = p.size - 1 := by
      rw [Nat.zero_add, Nat.mod_eq_of_lt (by omega)]
    rw [hlast]
  | succ j =>
    -- a turn by one place more would be a full one
    have hback : (j + 1 + (p.size - 1)) % p.size = j := by
      rw [show j + 1 + (p.size - 1) = j + p.size by omega, Nat.add_mod_right, Nat.mod_eq_of_lt (by omega)]
    rw [hback]

/-- Steps that turn a panel by `m` places wherever something is selected turn it by `m` places each. -/
private theorem iterate_eq_turn {f : Panel → Panel} {m : Nat} (h : p.InRange) (hsel : p.selected = some i)
    (hstep : ∀ (q : Panel) (j : Nat), q.InRange → q.selected = some j → q.size = p.size → f q = q.turn m) (k : Nat) :
    f^[k] p = p.turn (k * m) := by
  induction k with
  | zero => rw [Function.iterate_zero_apply, Nat.zero_mul, turn_zero h]
  | succ k ih =>
    rw [Function.iterate_succ_apply', ih,
      hstep _ _ (inRange_turn h _) (selected_turn hsel _) (size_turn p _), turn_turn, Nat.succ_mul]

private theorem iterate_next (h : p.InRange) (hsel : p.selected = some i) (k : Nat) : next^[k] p = p.turn k := by
  have hturn := iterate_eq_turn (f := next) (m := 1) h hsel (fun q j hq hj _ => next_eq_turn hq hj) k
  rwa [Nat.mul_one] at hturn

private theorem iterate_previous (h : p.InRange) (hsel : p.selected = some i) (k : Nat) :
    previous^[k] p = p.turn (k * (p.size - 1)) := by
  refine iterate_eq_turn h hsel (fun q j hq hj hsize => ?_) k
  rw [previous_eq_turn hq hj, hsize]

/-- Going back by `k` places is subtraction modulo the number of places. -/
theorem mod_turned_back {n : Nat} (hn : 0 < n) (i k : Nat) :
    (i + k * (n - 1)) % n = (((i : Int) - k) % n).toNat := by
  have hint : ((i + k * (n - 1) : Nat) : Int) = ((i : Int) - k) + k * n := by
    have hone : ((n - 1 : Nat) : Int) = n - 1 := by omega
    rw [Int.natCast_add, Int.natCast_mul, hone, Int.mul_sub, Int.mul_one]
    omega
  have hmod : (((i + k * (n - 1)) % n : Nat) : Int) = ((i : Int) - k) % n := by
    rw [Int.natCast_emod, hint, Int.add_mul_emod_self_right]
  rw [← hmod, Int.toNat_natCast]

private theorem next_previous (h : p.InRange) (hsel : p.selected = some i) : p.next.previous = p := by
  have hi : i < p.size := h i hsel
  rw [next_eq_turn h hsel, previous_eq_turn (inRange_turn h 1) (selected_turn hsel 1), size_turn, turn_turn,
    show 1 + (p.size - 1) = p.size by omega, turn_size h]

private theorem previous_next (h : p.InRange) (hsel : p.selected = some i) : p.previous.next = p := by
  have hi : i < p.size := h i hsel
  rw [previous_eq_turn h hsel, next_eq_turn (inRange_turn h _) (selected_turn hsel _), turn_turn,
    show p.size - 1 + 1 = p.size by omega, turn_size h]

/-! ### A whole round -/

theorem selectedDiagnostic?_turn (hsel : p.selected = some i) (m : Nat) :
    (p.turn m).selectedDiagnostic? = p.diagnostics[(i + m) % p.size]? := by
  rw [selectedDiagnostic?, selected_turn hsel]
  rfl

/-- One round shows the list, from the place behind the selected one on. -/
theorem round_eq_rotate (h : p.InRange) (hsel : p.selected = some i) :
    ((List.range p.size).map fun k => (next^[k + 1] p).selectedDiagnostic?) =
      (p.diagnostics.rotate (i + 1)).map some := by
  refine List.ext_getElem (by simp [size]) ?_
  intro k hk hk'
  have hpos : 0 < p.diagnostics.length := Nat.lt_of_le_of_lt (Nat.zero_le i) (h i hsel)
  have hplace : (i + (k + 1)) % p.size = (k + (i + 1)) % p.diagnostics.length := by
    rw [show i + (k + 1) = k + (i + 1) by omega, size]
  rw [List.getElem_map, List.getElem_map, List.getElem_range, List.getElem_rotate, iterate_next h hsel,
    selectedDiagnostic?_turn hsel, hplace, List.getElem?_eq_getElem (Nat.mod_lt _ hpos)]

/-- The selected place is one of the list, so a diagnostic is selected whenever a place is.  Steps forwards and
backwards add and subtract modulo the number of diagnostics and undo each other, and a whole round shows every
diagnostic once.  With nothing selected they start at either end, and on an empty panel they do nothing. -/
theorem navigation_cyclic (h : p.Reachable) :
    (∀ i, p.selected = some i → i < p.size) ∧
    p.selectedDiagnostic?.isSome = p.selected.isSome ∧ p.cursor?.isSome = p.selected.isSome ∧
    (∀ i, p.selected = some i →
      (∀ k, next^[k] p = { p with selected := some ((i + k) % p.size) }) ∧
      (∀ k : Nat, previous^[k] p = { p with selected := some (((i : Int) - k) % p.size).toNat }) ∧
      p.next.previous = p ∧ p.previous.next = p ∧
      ((List.range p.size).map fun k => (next^[k + 1] p).selectedDiagnostic?).Perm (p.diagnostics.map some)) ∧
    (p.selected = none → 0 < p.size →
      p.next = { p with selected := some 0 } ∧ p.previous = { p with selected := some (p.size - 1) }) ∧
    (p.size = 0 → p.next = p ∧ p.previous = p) := by
  have hrange := h.inRange
  have hshown := isSome_selectedDiagnostic? hrange
  refine ⟨hrange, hshown, ?_, ?_, ?_, ?_⟩
  · rw [cursor?, Option.isSome_map, hshown]
  · intro i hsel
    have hi : i < p.size := hrange i hsel
    refine ⟨?_, ?_, next_previous hrange hsel, previous_next hrange hsel, ?_⟩
    · intro k
      rw [iterate_next hrange hsel, turn_of_selected hsel]
    · intro k
      rw [iterate_previous hrange hsel, turn_of_selected hsel, mod_turned_back (by omega)]
    · rw [round_eq_rotate hrange hsel]
      exact (List.rotate_perm _ _).map some
  · intro hsel hpos
    have hempty := not_isEmpty_of_size_pos hpos
    constructor
    · rw [next, if_neg hempty, hsel]
      rfl
    · rw [previous, if_neg hempty, hsel]
  · intro hzero
    have hempty : p.isEmpty = true := by
      rw [isEmpty, List.isEmpty_iff]
      exact List.eq_nil_of_length_eq_zero hzero
    rw [next, if_pos hempty, previous, if_pos hempty]
    exact ⟨rfl, rfl⟩

/-- The selection is lost to a shorter list, and the first place of that list stays selected in a longer one. -/
theorem navigation_cyclic_shrunk :
    Reachable ⟨Linter.default.lint "end\nend\nend".toList, some 1⟩ ∧
      previous^[5] ⟨Linter.default.lint "end\nend\nend".toList, some 1⟩ =
        ⟨Linter.default.lint "end\nend\nend".toList, some 2⟩ := by
  have hreach : Reachable ⟨Linter.default.lint "end\nend\nend".toList, some 1⟩ :=
    ⟨Linter.default.lint "end\nend\nend".toList,
      [.select 2, .replace (Linter.default.lint "end".toList), .previous,
        .replace (Linter.default.lint "end\nend\nend".toList), .select 7, .next], by decide⟩
  exact ⟨hreach, (((navigation_cyclic hreach).2.2.2.1 1 rfl).2.1 5).trans (by decide)⟩

end Panel

end ScriptLint
