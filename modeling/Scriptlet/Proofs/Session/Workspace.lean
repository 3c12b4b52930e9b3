import Scriptlet.Proofs.Session.Editor

/-!
# Submissions that fail to be bound

Binding an input starts with parsing it, twice, and ends with the code of the last function, and it
can fail anywhere on the way. What a session answers later depends on a part of it that is called
its workspace here: the environment, the registry, the inputs that were accepted, and what the panes
show of the last one. A session answers as its workspace does, whatever was typed or recalled in
between, and a submission that fails to be bound leaves the workspace as it is. So it could as well
not have been made, as far as any later answer goes. What a registry remembers of earlier queries is
no part of the workspace, because no answer depends on it.
-/

namespace Scriptlet

/-- What the answers of a session depend on, and what its panes show of the last one. -/
structure Workspace where
  env : Environment
  registry : Registry
  accepted : List String
  tree : List TreeRow
  instructions : List String

namespace Session

/-- The workspace of a session. -/
def workspace (s : Session) : Workspace :=
  ⟨s.env, s.registry, s.accepted, s.tree, s.instructions⟩

/-- What a key submits, which is the line if the key is the enter key and the line is not blank. -/
def submitted (s : Session) (k : Key) : List (Mode × String) :=
  if k = .enter then (Text.input? s.line.chars).toList.map (s.mode, ·) else []

/-- What some keys submit, pressed one after another. -/
def submissions (s : Session) : List Key → List (Mode × String)
  | [] => []
  | k :: ks => s.submitted k ++ (s.press k).submissions ks

end Session

namespace Workspace

/-- A session with the workspace in which nothing else has happened. -/
def session (w : Workspace) : Session :=
  { Session.start w.env w.registry with
    accepted := w.accepted, tree := w.tree, instructions := w.instructions }

/-- Answers an input. -/
def take (w : Workspace) (submission : Mode × String) : Workspace × HistoryEntry :=
  let r := w.session.answer submission.1 submission.2
  (r.1.workspace, r.2)

/-- Answers some inputs one after another. -/
def run (w : Workspace) : List (Mode × String) → Workspace × List HistoryEntry
  | [] => (w, [])
  | x :: xs => (((w.take x).1.run xs).1, (w.take x).2 :: ((w.take x).1.run xs).2)

theorem run_append (w : Workspace) (xs ys : List (Mode × String)) :
    w.run (xs ++ ys) = (((w.run xs).1.run ys).1, (w.run xs).2 ++ ((w.run xs).1.run ys).2) := by
  induction xs generalizing w with
  | nil => rfl
  | cons x xs ih => rw [List.cons_append, run, ih, run, List.cons_append]

end Workspace

namespace Session

variable {s t : Session} {input : String} {entry : HistoryEntry}

/-! ## Sessions answer as their workspaces do -/

/-- Neither the line nor the history, nor anything else outside of the workspace, plays a part in an
answer. -/
theorem answer_eq_take (s : Session) (mode : Mode) (input : String) :
    ((s.answer mode input).1.workspace, (s.answer mode input).2) =
      s.workspace.take (mode, input) := by
  cases mode with
  | evaluate =>
    rw [Workspace.take, answer, answer, evaluateInput, evaluateInput]
    cases parseProgram input <;> rfl
  | bind =>
    have hbound : s.workspace.session.boundWith input = s.boundWith input := rfl
    rw [Workspace.take, answer, answer, bindInput, bindInput, hbound]
    cases s.boundWith input <;> rfl

theorem workspace_press_of_ne (s : Session) {k : Key} (hk : k ≠ .enter) :
    (s.press k).workspace = s.workspace :=
  (congrArg workspace (s.press_frame hk) :)

/-- What a key does to the workspace and adds to the history is what the workspace makes of what the
key submits. -/
theorem press_eq_run (s : Session) (k : Key) :
    (s.press k).workspace = (s.workspace.run (s.submitted k)).1 ∧
      (s.press k).history = s.history ++ (s.workspace.run (s.submitted k)).2 := by
  by_cases hk : k = .enter
  · subst hk
    rw [submitted, if_pos rfl, press]
    cases hinput : Text.input? s.line.chars with
    | none =>
      rw [submit_of_blank hinput]
      exact ⟨rfl, (List.append_nil _).symm⟩
    | some input =>
      have htake := s.cleared.answer_eq_take s.mode input
      rw [submit_of_input hinput]
      refine ⟨congrArg Prod.fst htake, ?_⟩
      rw [record, (s.cleared.answer_line s.mode input).2.2.1]
      exact congrArg (fun r ↦ s.history ++ [r.2]) htake
  · rw [submitted, if_neg hk, s.workspace_press_of_ne hk, s.history_press_of_ne hk]
    exact ⟨rfl, (List.append_nil _).symm⟩

theorem keys_eq_run (s : Session) (keys : List Key) :
    (keys.foldl press s).workspace = (s.workspace.run (s.submissions keys)).1 ∧
      (keys.foldl press s).history = s.history ++ (s.workspace.run (s.submissions keys)).2 := by
  induction keys generalizing s with
  | nil => exact ⟨rfl, (List.append_nil _).symm⟩
  | cons k keys ih =>
    obtain ⟨hworkspace, hhistory⟩ := s.press_eq_run k
    -- the other keys are answered in the workspace that the first one leaves
    obtain ⟨hrest, hadded⟩ := ih (s.press k)
    rw [List.foldl_cons, submissions, Workspace.run_append, hrest, hadded, hworkspace, hhistory,
      List.append_assoc]
    exact ⟨rfl, rfl⟩

/-- Sessions with one workspace to which the same is submitted give the same answers and have one
workspace again. -/
theorem answers_eq (h : s.workspace = t.workspace) {keys keys' : List Key}
    (hsame : s.submissions keys = t.submissions keys') :
    ∃ entries, (keys.foldl press s).history = s.history ++ entries ∧
      (keys'.foldl press t).history = t.history ++ entries ∧
      (keys.foldl press s).workspace = (keys'.foldl press t).workspace := by
  obtain ⟨hworkspace, hhistory⟩ := s.keys_eq_run keys
  obtain ⟨hworkspace', hhistory'⟩ := t.keys_eq_run keys'
  rw [h, hsame] at hworkspace hhistory
  exact ⟨_, hhistory, hhistory', hworkspace.trans hworkspace'.symm⟩

/-! ## Failures -/

/-- An input that fails to be bound fails when it is parsed, bound or emitted. -/
theorem stage_of_boundWith {e : ScriptError} (h : s.boundWith input = .error e) :
    (∃ p, e = .parse p) ∨ (∃ b, e = .bind b) ∨ ∃ m, e = .emit m := by
  rw [boundWith] at h
  rcases hown : parseProgram input with p | own
  · rw [hown] at h
    exact .inl ⟨p, (Except.error.inj h).symm⟩
  · rw [hown] at h
    rcases hall : parseProgram (";\n".intercalate (s.accepted ++ [input])) with p | all
    · rw [hall] at h
      exact .inl ⟨p, (Except.error.inj h).symm⟩
    · rw [hall] at h
      rcases hc : compile ⟨s.registry, none⟩ all with e' | c
      · simp only [hc, Except.mapError, bind, Except.bind] at h
        obtain rfl := Except.error.inj h
        rw [compile] at hc
        dsimp only at hc
        split at hc
        · exact .inr (.inl ⟨_, (Except.error.inj hc).symm⟩)
        · split at hc
          · exact .inr (.inr ⟨_, (Except.error.inj hc).symm⟩)
          · cases hc
      · simp only [hc, Except.mapError, bind, Except.bind] at h
        cases h

/-- The session after a submission that failed: the entry is shown at the end of the history, the
line is empty, and the status bar says that it failed. -/
def afterFailure (s : Session) (entry : HistoryEntry) : Session :=
  { s with
    history := s.history ++ [entry]
    line := .empty
    recalled := none
    scroll := { s.scroll with history := Scroll.greatest }
    status := "Failed"
    failed := true }

theorem submit_of_boundWith_error (hmode : s.mode = .bind)
    (hinput : Text.input? s.line.chars = some input) {e : ScriptError}
    (h : s.boundWith input = .error e) :
    s.submit = s.afterFailure ⟨.bind, input, [], .error e.text⟩ := by
  have hbound : s.cleared.boundWith input = .error e := h
  rw [submit_of_input hinput, hmode, answer, bindInput, hbound]
  rfl

/-- An input that is added to the history as one that failed is not blank and cannot be bound. -/
theorem boundWith_of_isError (hmode : s.mode = .bind)
    (hhistory : (s.press .enter).history = s.history ++ [entry]) (herror : entry.outcome.isError) :
    ∃ input e, Text.input? s.line.chars = some input ∧ s.boundWith input = .error e := by
  rw [press] at hhistory
  cases hinput : Text.input? s.line.chars with
  | none =>
    rw [submit_of_blank hinput] at hhistory
    exact absurd (List.self_eq_append_right.mp hhistory) (List.cons_ne_nil _ _)
  | some input =>
    have hbound : s.cleared.boundWith input = s.boundWith input := rfl
    rw [submit_of_input hinput, hmode, answer, bindInput, hbound] at hhistory
    cases h : s.boundWith input with
    | error e => exact ⟨input, e, rfl, h⟩
    | ok r =>
      rw [h] at hhistory
      obtain rfl := List.singleton_inj.mp (List.append_cancel_left hhistory)
      cases herror

/-- A submission that fails to be bound, at whatever stage, changes nothing but the history, the
line, what is recalled, the offset of the history and the status. Whatever is submitted later is
answered as in any other session with the workspace that there was before, such as one in which the
submission was not made. -/
theorem workspace_of_failure {s : Session} (hmode : s.mode = .bind) {entry : HistoryEntry}
    (hhistory : (s.press .enter).history = s.history ++ [entry]) (herror : entry.outcome.isError) :
    (∃ input e, Text.input? s.line.chars = some input ∧ s.boundWith input = .error e ∧
      entry = ⟨.bind, input, [], .error e.text⟩ ∧
      ((∃ p, e = .parse p) ∨ (∃ b, e = .bind b) ∨ ∃ m, e = .emit m)) ∧
      s.press .enter = s.afterFailure entry ∧
      (s.press .enter).workspace = s.workspace ∧
      ∀ t : Session, t.workspace = s.workspace → ∀ keys keys' : List Key,
        (s.press .enter).submissions keys = t.submissions keys' →
        ∃ entries,
          (keys.foldl press (s.press .enter)).history = (s.press .enter).history ++ entries ∧
          (keys'.foldl press t).history = t.history ++ entries ∧
          (keys.foldl press (s.press .enter)).workspace = (keys'.foldl press t).workspace := by
  obtain ⟨input, e, hinput, hbound⟩ := boundWith_of_isError hmode hhistory herror
  have hpress : s.press .enter = s.afterFailure ⟨.bind, input, [], .error e.text⟩ :=
    submit_of_boundWith_error hmode hinput hbound
  have hentry : entry = ⟨.bind, input, [], .error e.text⟩ := by
    rw [hpress] at hhistory
    exact (List.singleton_inj.mp (List.append_cancel_left hhistory)).symm
  rw [← hentry] at hpress
  have hworkspace : (s.press .enter).workspace = s.workspace := by
    rw [hpress]
    rfl
  exact ⟨⟨input, e, hinput, hbound, hentry, stage_of_boundWith hbound⟩, hpress, hworkspace,
    fun t ht _ _ hsame ↦ answers_eq (hworkspace.trans ht.symm) hsame⟩

/-- A variable that was never declared is used. An input that is submitted next is answered as if
this one had been taken back instead. -/
theorem workspace_of_failure_of_undeclared :
    let s := (.tab :: typing "var x = 2" ++ .enter :: typing "y * 2").foldl press
      (start .withBuiltins .primitive)
    let entry : HistoryEntry :=
      ⟨.bind, "y * 2", [], .error "bind error: Unbound identifier 'y' at 2:1"⟩
    let keys := typing "x * 2" ++ [.enter]
    let keys' := List.replicate 5 Key.backspace ++ keys
    s.accepted = ["var x = 2"] ∧ (s.press .enter).history = s.history ++ [entry] ∧
      s.press .enter = s.afterFailure entry ∧
      ∃ entries,
        (keys.foldl press (s.press .enter)).history = (s.press .enter).history ++ entries ∧
        (keys'.foldl press s).history = s.history ++ entries ∧
        (keys.foldl press (s.press .enter)).workspace = (keys'.foldl press s).workspace := by
  intro s entry keys keys'
  have hhistory : (s.press .enter).history = s.history ++ [entry] := by decide +kernel
  obtain ⟨-, hpress, -, hlater⟩ :=
    workspace_of_failure (s := s) (by decide +kernel) hhistory rfl
  have hsame : (s.press .enter).submissions keys = s.submissions keys' := by decide +kernel
  exact ⟨by decide +kernel, hhistory, hpress, hlater s rfl keys keys' hsame⟩

end Session

end Scriptlet
