import ScriptLint.Proofs.SessionState

/-!
# What subscribers are told

The changes of a session are told without gaps (`run_notifies`).  An edit is one change of the document, and then
one of the diagnostics if the panel lists others; nothing else is a change (`changesOf`).  The version is the
number of changes so far.  Each change is told to everyone who has subscribed by then, in the order of subscription
and before the next change is told (`Change.tell`).  So the records of one subscriber lead from the version of its
subscription to the current version in steps of one (`Notification.Linked`).
-/

namespace ScriptLint

/-- One change, and how many subscribers there are when it happens. -/
structure Change where
  kind : ChangeKind
  subscribers : Nat
  deriving DecidableEq

namespace Change

/-- Tells changes, the first of which changes the given version, one after the other to their subscribers. -/
def tell (version : Nat) : List Change → List Notification
  | [] => []
  | c :: rest =>
    (List.range c.subscribers).map (fun i => ⟨i, c.kind, version, version + 1⟩) ++ tell (version + 1) rest

private theorem tell_append (version : Nat) (cs ds : List Change) :
    tell version (cs ++ ds) = tell version cs ++ tell (version + cs.length) ds := by
  induction cs generalizing version with
  | nil => rfl
  | cons c cs ih =>
    rw [List.cons_append, tell, tell, ih, List.length_cons, List.append_assoc,
      show version + 1 + cs.length = version + (cs.length + 1) by omega]

end Change

namespace Notification

/-- What the subscriber with the number `i` is told. -/
def toldTo (i : Nat) (ns : List Notification) : List Notification := ns.filter fun n => n.subscriber = i

/-- The records lead from the version `v` to the version `w` in steps of one. -/
def Linked (v : Nat) : List Notification → (w : Nat) → Prop
  | [], w => v = w
  | n :: rest, w => n.oldVersion = v ∧ n.newVersion = v + 1 ∧ Linked (v + 1) rest w

private theorem toldTo_append (i : Nat) (ns ms : List Notification) :
    toldTo i (ns ++ ms) = toldTo i ns ++ toldTo i ms :=
  List.filter_append ..

private theorem filter_range_eq (i n : Nat) :
    ((List.range n).filter fun k => k = i) = if i < n then [i] else [] := by
  rw [List.filter_eq, List.nodup_range.count]
  simp only [List.mem_range]
  split <;> rfl

/-- One change is told once to each of its subscribers, and to nobody else. -/
theorem toldTo_tell_cons (i version : Nat) (c : Change) (cs : List Change) :
    toldTo i (Change.tell version (c :: cs)) =
      (if i < c.subscribers then [⟨i, c.kind, version, version + 1⟩] else []) ++
        toldTo i (Change.tell (version + 1) cs) := by
  rw [Change.tell, toldTo_append]
  congr 1
  rw [toldTo, List.filter_map]
  have hrange := filter_range_eq i c.subscribers
  have hpred : ((fun n : Notification => decide (n.subscriber = i)) ∘
      fun k => ⟨k, c.kind, version, version + 1⟩) = fun k => decide (k = i) := rfl
  rw [hpred, hrange]
  split <;> rfl

private theorem toldTo_tell_eq_nil {i : Nat} {cs : List Change} (h : ∀ c ∈ cs, c.subscribers ≤ i) (version : Nat) :
    toldTo i (Change.tell version cs) = [] := by
  induction cs generalizing version with
  | nil => rfl
  | cons c cs ih =>
    have hc := h c (List.mem_cons_self ..)
    rw [toldTo_tell_cons, if_neg (by omega), List.nil_append]
    exact ih (fun d hd => h d (List.mem_cons_of_mem _ hd)) _

private theorem linked_toldTo_tell {i : Nat} {cs : List Change} (h : ∀ c ∈ cs, i < c.subscribers) (version : Nat) :
    Linked version (toldTo i (Change.tell version cs)) (version + cs.length) := by
  induction cs generalizing version with
  | nil => rfl
  | cons c cs ih =>
    have hrest := ih (fun d hd => h d (List.mem_cons_of_mem _ hd)) (version + 1)
    rw [toldTo_tell_cons, if_pos (h c (List.mem_cons_self ..)), List.length_cons]
    rw [show version + 1 + cs.length = version + (cs.length + 1) by omega] at hrest
    exact ⟨rfl, rfl, hrest⟩

end Notification

namespace Session

/-! ### One action -/

/-- The changes that an action makes. -/
def changesOf (s : Session) : Action → List Change
  | .edit t =>
    if s.linter.lint t = s.panel.diagnostics then [⟨.document, s.subscribers⟩]
    else [⟨.document, s.subscribers⟩, ⟨.diagnostics, s.subscribers⟩]
  | .subscribe | .panel _ => []

private theorem changesOf_eq_nil_iff (s : Session) (a : Action) : s.changesOf a = [] ↔ ∀ t, a ≠ .edit t := by
  cases a with
  | edit t =>
    simp only [changesOf]
    split <;> simp
  | subscribe | panel => simp [changesOf]

private theorem subscribers_of_mem_changesOf {s : Session} {a : Action} {c : Change} (hc : c ∈ s.changesOf a) :
    c.subscribers = s.subscribers := by
  cases a with
  | edit t =>
    simp only [changesOf] at hc
    split at hc
    · rw [List.mem_singleton.1 hc]
    · rcases List.mem_cons.1 hc with rfl | hc
      · rfl
      · rw [List.mem_singleton.1 hc]
  | subscribe | panel => cases hc

private theorem version_perform (s : Session) (a : Action) :
    (s.perform a).1.version = s.version + (s.changesOf a).length := by
  cases a with
  | edit t =>
    show (s.edit t).1.version = _
    rw [edit_fst, changesOf]
    split <;> rfl
  | subscribe | panel => rfl

private theorem notifications_perform (s : Session) (a : Action) :
    (s.perform a).2 = Change.tell s.version (s.changesOf a) := by
  cases a with
  | edit t =>
    simp only [perform, edit, changesOf]
    split <;> simp [Change.tell, announce]
  | subscribe | panel => rfl

private theorem subscribers_perform_le (s : Session) (a : Action) :
    s.subscribers ≤ (s.perform a).1.subscribers := by
  cases a with
  | edit t =>
    show s.subscribers ≤ (s.edit t).1.subscribers
    rw [edit_fst]
    split <;> exact Nat.le_refl _
  | subscribe => exact Nat.le_succ _
  | panel => exact Nat.le_refl _

/-! ### Many actions -/

/-- The changes that actions make, in order. -/
def changes (s : Session) : List Action → List Change
  | [] => []
  | a :: rest => s.changesOf a ++ (s.perform a).1.changes rest

private theorem changes_append (s : Session) (xs ys : List Action) :
    s.changes (xs ++ ys) = s.changes xs ++ (s.run xs).1.changes ys := by
  induction xs generalizing s with
  | nil => rfl
  | cons a xs ih =>
    rw [List.cons_append, changes, changes, ih, List.append_assoc]
    rfl

private theorem version_run (s : Session) (acts : List Action) :
    (s.run acts).1.version = s.version + (s.changes acts).length := by
  induction acts generalizing s with
  | nil => rfl
  | cons a rest ih =>
    rw [run, ih, version_perform, changes, List.length_append, Nat.add_assoc]

private theorem notifications_run (s : Session) (acts : List Action) :
    (s.run acts).2 = Change.tell s.version (s.changes acts) := by
  induction acts generalizing s with
  | nil => rfl
  | cons a rest ih =>
    rw [run, ih, notifications_perform, changes, Change.tell_append, version_perform]

/-- Changes are told to those who have subscribed before, and to no one who subscribes later. -/
theorem subscribers_of_mem_changes {s : Session} {acts : List Action} {c : Change} (hc : c ∈ s.changes acts) :
    s.subscribers ≤ c.subscribers ∧ c.subscribers ≤ (s.run acts).1.subscribers := by
  have hmono : ∀ (s : Session) (acts : List Action), s.subscribers ≤ (s.run acts).1.subscribers := by
    intro s acts
    induction acts generalizing s with
    | nil => exact Nat.le_refl _
    | cons a rest ih => exact Nat.le_trans (s.subscribers_perform_le a) (ih _)
  induction acts generalizing s with
  | nil => cases hc
  | cons a rest ih =>
    have hstep := s.subscribers_perform_le a
    rcases List.mem_append.1 hc with hc | hc
    · rw [subscribers_of_mem_changesOf hc]
      exact ⟨Nat.le_refl _, hmono s (a :: rest)⟩
    · obtain ⟨hle, hge⟩ := ih hc
      exact ⟨Nat.le_trans hstep hle, hge⟩

private theorem changes_eq_nil_iff (s : Session) (acts : List Action) :
    s.changes acts = [] ↔ ∀ t, .edit t ∉ acts := by
  induction acts generalizing s with
  | nil => simp [changes]
  | cons a rest ih =>
    rw [changes, List.append_eq_nil_iff, changesOf_eq_nil_iff, ih]
    constructor
    · rintro ⟨ha, hrest⟩ t hmem
      rcases List.mem_cons.1 hmem with heq | hmem
      · exact ha t heq.symm
      · exact hrest t hmem
    · intro h
      refine ⟨?_, fun t hmem => h t (List.mem_cons_of_mem _ hmem)⟩
      rintro t rfl
      exact h t (List.mem_cons_self ..)

private theorem isNewerThan_run_iff (s : Session) (acts : List Action) :
    (s.run acts).1.isNewerThan s.version = true ↔ ∃ t, .edit t ∈ acts := by
  have hlt : s.version < s.version + (s.changes acts).length ↔ s.changes acts ≠ [] := by
    rw [← List.length_pos_iff]
    omega
  rw [isNewerThan, decide_eq_true_iff, version_run, hlt, ne_eq, changes_eq_nil_iff, Classical.not_forall_not]

/-- The records of a subscriber lead from the version at which it subscribed to the current one. -/
theorem linked_toldTo_run (s : Session) (xs ys : List Action) :
    Notification.Linked (s.run xs).1.version
      (Notification.toldTo (s.run xs).1.subscribers (s.run (xs ++ .subscribe :: ys)).2)
      (s.run (xs ++ .subscribe :: ys)).1.version := by
  have hchanges : s.changes (xs ++ .subscribe :: ys) = s.changes xs ++ (s.run xs).1.subscribe.changes ys :=
    s.changes_append xs _
  have hbefore : ∀ c ∈ s.changes xs, c.subscribers ≤ (s.run xs).1.subscribers :=
    fun c hc => (subscribers_of_mem_changes hc).2
  have hsince : ∀ c ∈ (s.run xs).1.subscribe.changes ys, (s.run xs).1.subscribers < c.subscribers :=
    fun c hc => (subscribers_of_mem_changes hc).1
  rw [notifications_run, version_run s (xs ++ _), hchanges, Change.tell_append, Notification.toldTo_append,
    Notification.toldTo_tell_eq_nil hbefore, List.nil_append, List.length_append, ← Nat.add_assoc, ← version_run]
  exact Notification.linked_toldTo_tell hsince _

/-- After any actions, subscribers have been told the changes so far, and the version is their number.  One who
subscribes then is told of every change from there on, version by version up to the current one.  And the session
is newer than it was then exactly if there has been an edit since. -/
theorem run_notifies (lt : Linter) (t₀ : Text) (acts : List Action) :
    ((ofText lt t₀).run acts).2 = Change.tell 0 ((ofText lt t₀).changes acts) ∧
    (after lt t₀ acts).version = ((ofText lt t₀).changes acts).length ∧
    (∀ more : List Action,
      Notification.Linked (after lt t₀ acts).version
        (Notification.toldTo (after lt t₀ acts).subscribers ((ofText lt t₀).run (acts ++ .subscribe :: more)).2)
        (after lt t₀ (acts ++ .subscribe :: more)).version) ∧
    ∀ more : List Action,
      (after lt t₀ (acts ++ more)).isNewerThan (after lt t₀ acts).version = true ↔ ∃ t, .edit t ∈ more := by
  refine ⟨notifications_run _ _, ?_, fun more => linked_toldTo_run _ acts more, ?_⟩
  · rw [after, version_run]
    exact Nat.zero_add _
  · intro more
    rw [after_append]
    exact isNewerThan_run_iff _ more

end Session

end ScriptLint
