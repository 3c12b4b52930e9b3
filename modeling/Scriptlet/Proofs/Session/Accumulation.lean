import Scriptlet.Session.Key
import Scriptlet.Proofs.Bind.Bare
import Scriptlet.Proofs.Code.Forward
import Scriptlet.Proofs.Parse.Sequel.Texts

/-!
# Inputs that are bound one after another

A session binds an input together with all inputs that it accepted before, in one text with a
semicolon and a newline between each and the next. Each of them is a program in itself, for nothing
else is accepted. So as long as none of them ends inside a comment, the text is read as the programs
one after the other: the statements that are shown are those of the new input, and the type is that
of its last expression. A comment at the end of an accepted input takes in the semicolon behind it,
and then two inputs can be read as one statement.
-/

namespace Scriptlet.Session

/-! ## Accepted inputs -/

/-- All accepted inputs are programs. -/
def Sound (s : Session) : Prop := ∀ text ∈ s.accepted, ∃ p, parseProgram text = .ok p

variable {s s' : Session} {input : String}

theorem Sound.of_accepted (hs : s.Sound) (h : s'.accepted = s.accepted) : s'.Sound := by
  rw [Sound, h]
  exact hs

theorem sound_start (env : Environment) (registry : Registry) : (start env registry).Sound :=
  fun _ h ↦ absurd h List.not_mem_nil

theorem Sound.bindInput (hs : s.Sound) (input : String) : (s.bindInput input).1.Sound := by
  rcases h : s.boundWith input with e | ⟨own, c⟩
  · rw [Session.bindInput, h]
    exact hs
  · rcases hp : parseProgram input with e | p
    · rw [boundWith, hp] at h
      cases h
    · rw [Session.bindInput, h]
      exact List.forall_mem_append.mpr ⟨hs, by simpa using ⟨p, hp⟩⟩

theorem accepted_evaluateInput (s : Session) (input : String) :
    (s.evaluateInput input).1.accepted = s.accepted := by
  rw [evaluateInput]
  cases parseProgram input <;> rfl

/-- The session with nothing in its line. -/
def cleared (s : Session) : Session := { s with line := .empty, recalled := none }

/-- An input that is submitted: it is evaluated or bound, and what comes of it is recorded. -/
theorem submit_eq (s : Session) :
    s.submit = if (Text.trim s.line.chars).isEmpty then s.cleared else
      match s.mode with
      | .evaluate =>
        let r := s.cleared.evaluateInput (String.ofList (Text.trim s.line.chars))
        r.1.record r.2
      | .bind =>
        let r := s.cleared.bindInput (String.ofList (Text.trim s.line.chars))
        r.1.record r.2 := by
  rw [submit]
  dsimp only
  split
  · rfl
  · unfold cleared
    cases s.mode <;> rfl

theorem Sound.submit (hs : s.Sound) : s.submit.Sound := by
  have hcleared : s.cleared.Sound := hs
  rw [submit_eq]
  split
  · exact hcleared
  · cases s.mode with
    | evaluate => exact hcleared.of_accepted (accepted_evaluateInput _ _)
    | bind => exact (hcleared.bindInput _).of_accepted rfl

/-- The session with the line and the looks of another one. -/
def withLooksOf (s t : Session) : Session :=
  { s with mode := t.mode, line := t.line, recalled := t.recalled, scroll := t.scroll,
           quit := t.quit, status := t.status, failed := t.failed }

theorem showEntry_frame (s : Session) (i : Nat) : (s.showEntry i).withLooksOf s = s := by
  rw [showEntry]
  split <;> rfl

/-- No key but the enter key goes beyond the line, what is recalled, and how the session looks. -/
theorem press_frame (s : Session) {k : Key} (hk : k ≠ .enter) : (s.press k).withLooksOf s = s := by
  cases k with
  | enter => exact absurd rfl hk
  | control c =>
    rw [press]
    split <;> rfl
  | up =>
    rw [press, recallPrevious]
    cases s.recalled <;> exact s.showEntry_frame _
  | down =>
    rw [press, recallNext]
    cases s.recalled with
    | none => rfl
    | some i =>
      dsimp only
      split
      · exact s.showEntry_frame _
      · rfl
  | _ => rfl

/-- No key makes a session accept anything but a program. -/
theorem Sound.press (hs : s.Sound) (key : Key) : (s.press key).Sound := by
  by_cases hkey : key = .enter
  · rw [hkey]
    exact hs.submit
  · exact hs.of_accepted (congrArg accepted (s.press_frame hkey) :)

theorem Sound.keys (hs : s.Sound) (keys : List Key) : (keys.foldl Session.press s).Sound := by
  induction keys generalizing s with
  | nil => exact hs
  | cons key keys ih => exact ih (hs.press key)

theorem Sound.exists_parts (hs : s.Sound) :
    ∃ parts, List.Forall₂ (fun text p ↦ parseProgram text = .ok p) s.accepted parts := by
  have htexts : ∀ texts : List String, (∀ text ∈ texts, ∃ p, parseProgram text = .ok p) →
      ∃ parts, List.Forall₂ (fun text p ↦ parseProgram text = .ok p) texts parts := by
    intro texts h
    induction texts with
    | nil => exact ⟨[], .nil⟩
    | cons text texts ih =>
      obtain ⟨⟨p, hp⟩, h⟩ := List.forall_mem_cons.mp h
      obtain ⟨parts, hparts⟩ := ih h
      exact ⟨p :: parts, .cons hp hparts⟩
  exact htexts s.accepted hs

/-! ## Submitting an input to be bound -/

theorem submit_of_bind (hmode : s.mode = .bind)
    (hinput : input = String.ofList (Text.trim s.line.chars)) (hne : input ≠ "") :
    s.submit = (s.cleared.bindInput input).1.record (s.cleared.bindInput input).2 := by
  have hnonempty : ¬(Text.trim s.line.chars).isEmpty := by
    rw [List.isEmpty_iff]
    intro hnil
    exact hne (hinput.trans (congrArg String.ofList hnil))
  rw [submit_eq, if_neg hnonempty, hmode, hinput]

/-- What is bound and compiled is the text of all inputs, if the last one is a program by itself. -/
theorem boundWith_eq {own all : Program} (hown : parseProgram input = .ok own)
    (hall : parseProgram (";\n".intercalate (s.accepted ++ [input])) = .ok all) :
    s.boundWith input = (compile ⟨s.registry, none⟩ all).map fun c ↦ (own.length, c) := by
  simp only [boundWith, hown, hall, Except.mapError, bind, Except.bind]
  cases compile ⟨s.registry, none⟩ all <;> rfl

/-- What comes of an input with the statements `own`, by what compiling gave. After a failure only
the history has changed. Otherwise the input is accepted, the rows of the tree pane are those of
statements that are the input's own up to places and to what binding has filled in, and the type
that is reported is that of the expression that ends them. -/
def Answers (s s' : Session) (input : String) (own : Program) : Except ScriptError Compiled → Prop
  | .error e =>
    s'.history = s.history ++ [⟨.bind, input, [], .error e.text⟩] ∧ s'.accepted = s.accepted ∧
      s'.tree = s.tree
  | .ok c =>
    s'.history = s.history ++ [⟨.bind, input, [], .type c.ty.text⟩] ∧
      s'.accepted = s.accepted ++ [input] ∧
      ∃ earlier shown, c.tree = earlier ++ shown ∧ s'.tree = TreeRow.program shown ∧
        statementsWithoutPlaces (statementsBare shown) = statementsWithoutPlaces own ∧
        (own ≠ [] → c.ty = trailingTy shown)

theorem trailingTy_append (earlier : Program) {shown : Program} (h : shown ≠ []) :
    trailingTy (earlier ++ shown) = trailingTy shown := by
  rw [trailingTy, trailingTy, List.getLast?_append_of_ne_nil _ h]

/-- The statements at the end of a compiled tree are those that the text has at its end, and the
type is the type of the last of them. -/
theorem shown_of_compile {c : BindContext} {source : String} {all before own : Program}
    {out : Compiled} (hall : parseProgram source = .ok all)
    (hsame : statementsWithoutPlaces all = statementsWithoutPlaces (before ++ own))
    (h : compile c all = .ok out) :
    let shown := out.tree.drop (out.tree.length - own.length)
    statementsWithoutPlaces (statementsBare shown) = statementsWithoutPlaces own ∧
      (own ≠ [] → out.ty = trailingTy shown) := by
  obtain ⟨hanswer, htree, -⟩ := of_compile h
  have hbare : statementsBare out.tree = all := by
    rw [htree, BindContext.bare_bindProgram, bare_of_parseProgram hall]
  simp only [statementsBare_eq_map, statementsWithoutPlaces_eq_map, List.map_append]
    at hbare hsame ⊢
  -- binding keeps the number of statements, so that the end of the tree begins where the text does
  have hlen : out.tree.length - own.length = before.length := by
    have hlen := congrArg List.length hsame
    rw [← hbare] at hlen
    simp only [List.length_map, List.length_append] at hlen
    omega
  have hown : ((out.tree.drop before.length).map Statement.bare).map Statement.withoutPlaces
      = own.map Statement.withoutPlaces := by
    rw [List.map_drop, List.map_drop, hbare, hsame]
    exact List.drop_left' (by rw [List.length_map])
  rw [hlen]
  refine ⟨hown, fun hne ↦ ?_⟩
  have hshown : out.tree.drop before.length ≠ [] := by
    intro hnil
    rw [hnil] at hown
    exact hne (List.map_eq_nil_iff.mp hown.symm)
  have hty : out.ty = trailingTy out.tree := by
    rw [htree]
    exact (BindContext.typedProgram_of_gives (written_of_parseProgram hall)
      (BindContext.gives_bindProgram hanswer)).2
  rw [hty, ← trailingTy_append (out.tree.take before.length) hshown, List.take_append_drop]

/-- Whatever was typed in a session before, an input that is a program by itself is bound together
with the inputs that were accepted, each of which is a program by itself, and if none of these ends
inside a comment then what is compiled is, up to places, their statements and then those of the
input. -/
theorem accumulates {env : Environment} {registry : Registry} {keys : List Key} {s : Session}
    (hs : s = keys.foldl press (start env registry)) (hmode : s.mode = .bind) {input : String}
    (hinput : input = String.ofList (Text.trim s.line.chars)) (hne : input ≠ "") {own : Program}
    (hown : parseProgram input = .ok own)
    (hcomment : ∀ text ∈ s.accepted, endsInComment text = false) :
    ∃ parts all, List.Forall₂ (fun text p ↦ parseProgram text = .ok p) s.accepted parts ∧
      parseProgram (";\n".intercalate (s.accepted ++ [input])) = .ok all ∧
      statementsWithoutPlaces all = statementsWithoutPlaces (parts.flatten ++ own) ∧
      s.Answers (s.press .enter) input own (compile ⟨s.registry, none⟩ all) := by
  have hsound : s.Sound := hs ▸ (sound_start env registry).keys keys
  obtain ⟨parts, hparts⟩ := hsound.exists_parts
  obtain ⟨all, hall, hsame⟩ := parseProgram_intercalate hparts hcomment hown
  refine ⟨parts, all, hparts, hall, hsame, ?_⟩
  have hbound : s.cleared.boundWith input = _ := boundWith_eq (s := s.cleared) hown hall
  rw [press, submit_of_bind hmode hinput hne, bindInput, hbound]
  rw [show s.cleared.registry = s.registry from rfl]
  rcases hc : compile ⟨s.registry, none⟩ all with e | c
  · exact ⟨rfl, rfl, rfl⟩
  · obtain ⟨hshown, hty⟩ := shown_of_compile hall hsame hc
    exact ⟨rfl, rfl, _, _, (List.take_append_drop _ c.tree).symm, rfl, hshown, hty⟩

/-- The keys that type a text. -/
def typing (text : String) : List Key := text.toList.map .char

/-- A variable of one input is used in the next one. -/
theorem accumulates_of_variable :
    let s := (.tab :: typing "var x = 1" ++ .enter :: typing "x + 1").foldl press
      (start .withBuiltins .primitive)
    s.accepted = ["var x = 1"] ∧
      ∃ own parts all, parseProgram "x + 1" = .ok own ∧
        List.Forall₂ (fun text p ↦ parseProgram text = .ok p) s.accepted parts ∧
        parseProgram (";\n".intercalate (s.accepted ++ ["x + 1"])) = .ok all ∧
        statementsWithoutPlaces all = statementsWithoutPlaces (parts.flatten ++ own) ∧
        s.Answers (s.press .enter) "x + 1" own (compile ⟨s.registry, none⟩ all) := by
  intro s
  have haccepted : s.accepted = ["var x = 1"] := by decide +kernel
  have hown : (parseProgram "x + 1").toOption.isSome := by decide +kernel
  obtain ⟨own, hown⟩ := Option.isSome_iff_exists.mp hown
  refine ⟨haccepted, own, ?_⟩
  have hinput : "x + 1" = String.ofList (Text.trim s.line.chars) := by decide +kernel
  obtain ⟨parts, all, h⟩ := accumulates (s := s) rfl (by decide +kernel) hinput (by decide)
    (ok_of_toOption hown) (by rw [haccepted]; decide +kernel)
  exact ⟨parts, all, ok_of_toOption hown, h⟩

/-- A comment at the end of an input takes the semicolon in: two inputs of one statement each are
read as one statement, and all of it is shown as the second input. -/
theorem not_accumulates_of_comment :
    let s := (.tab :: typing "1 // c" ++ .enter :: typing "-2").foldl press
      (start .withBuiltins .primitive)
    s.accepted = ["1 // c"] ∧
      (∃ first own all, parseProgram "1 // c" = .ok first ∧ parseProgram "-2" = .ok own ∧
        parseProgram (";\n".intercalate (s.accepted ++ ["-2"])) = .ok all ∧
        statementsWithoutPlaces all ≠ statementsWithoutPlaces (first ++ own)) ∧
      (s.press .enter).tree.map TreeRow.label = ["binary -", "1", "2"] := by
  intro s
  have hone : ∀ source : String, ((parseProgram source).toOption.map List.length) = some 1 →
      ∃ p, parseProgram source = .ok p ∧ p.length = 1 := by
    intro source h
    obtain ⟨p, hp, hlen⟩ := Option.map_eq_some_iff.mp h
    exact ⟨p, ok_of_toOption hp, hlen⟩
  obtain ⟨first, hfirst, hfirst1⟩ := hone "1 // c" (by decide +kernel)
  obtain ⟨own, hown, hown1⟩ := hone "-2" (by decide +kernel)
  obtain ⟨all, hall, hall1⟩ := hone (";\n".intercalate (s.accepted ++ ["-2"])) (by decide +kernel)
  refine ⟨by decide +kernel, ⟨first, own, all, hfirst, hown, hall, fun hsame ↦ ?_⟩,
    by decide +kernel⟩
  rw [statementsWithoutPlaces_eq_map, statementsWithoutPlaces_eq_map] at hsame
  have hlen := congrArg List.length hsame
  rw [List.length_map, List.length_map, List.length_append, hfirst1, hown1, hall1] at hlen
  cases hlen

end Scriptlet.Session
