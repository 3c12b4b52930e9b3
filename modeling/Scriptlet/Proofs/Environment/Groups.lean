import Scriptlet.Proofs.Environment.Operation
import Scriptlet.Proofs.Tree.Groups

/-!
# Environments without parentheses

An environment holds trees: the bodies of the functions that a script defined. Taking the
parentheses out of all of these goes together with every operation and every question, so an
environment without parentheses is read and written like the environment itself, except that the
parts which calls reach have lost their parentheses.
-/

namespace Scriptlet

/-- The part with the groups taken out of its body. -/
def Part.withoutGroups (part : Part) : Part :=
  match part.body with
  | .script params body => { part with body := .script params (statementsWithoutGroups body) }
  | .native _ => part

theorem Part.arity_withoutGroups (part : Part) : part.withoutGroups.arity = part.arity := by
  rw [withoutGroups]
  split <;> rfl

theorem Part.scope_withoutGroups (part : Part) : part.withoutGroups.scope = part.scope := by
  rw [withoutGroups]
  split <;> rfl

/-- The table with all of its values mapped. -/
def Table.mapValues {α β : Type} (f : α → β) (t : Table α) : Table β :=
  t.map fun p ↦ (p.1, f p.2)

namespace Table

variable {α β : Type} (f : α → β)

theorem get?_mapValues (t : Table α) (x : String) :
    (t.mapValues f).get? x = (t.get? x).map f := by
  induction t with
  | nil => rfl
  | cons p t ih =>
    obtain ⟨n, a⟩ := p
    have hcons : mapValues f ((n, a) :: t) = (n, f a) :: mapValues f t := rfl
    rw [hcons, get?_cons, get?_cons, ih]
    split <;> rfl

theorem mapValues_put (t : Table α) (x : String) (a : α) :
    (t.put x a).mapValues f = (t.mapValues f).put x (f a) := by
  induction t with
  | nil => rfl
  | cons p t ih =>
    obtain ⟨n, b⟩ := p
    have hcons : mapValues f ((n, b) :: t) = (n, f b) :: mapValues f t := rfl
    rw [hcons, put, put]
    split
    · rfl
    · rw [← ih]
      rfl

theorem has_mapValues (t : Table α) (x : String) : (t.mapValues f).has x = t.has x := by
  rw [has, has, get?_mapValues, Option.isSome_map]

end Table

/-- The frame with the groups taken out of all bodies. -/
def Frame.withoutGroups (f : Frame) : Frame :=
  { f with functions := f.functions.mapValues (List.map Part.withoutGroups) }

namespace Environment

/-- The environment with the groups taken out of all bodies. -/
def withoutGroups (env : Environment) : Environment :=
  ⟨env.inner.map Frame.withoutGroups, env.global.withoutGroups, env.output⟩

variable {env : Environment}

/-! ## Operations -/

theorem push_withoutGroups (env : Environment) (kind : FrameKind) :
    (env.push kind).withoutGroups = env.withoutGroups.push kind := rfl

theorem pop_withoutGroups (env : Environment) :
    env.pop.withoutGroups = env.withoutGroups.pop := by
  simp only [pop, withoutGroups, List.map_tail]

theorem print_withoutGroups (env : Environment) (line : String) :
    (env.print line).withoutGroups = env.withoutGroups.print line := rfl

theorem changeInnermost_withoutGroups {f f' : Frame → Frame}
    (hf : ∀ g, (f g).withoutGroups = f' g.withoutGroups) (env : Environment) :
    (env.changeInnermost f).withoutGroups = env.withoutGroups.changeInnermost f' := by
  obtain ⟨inner, global, output⟩ := env
  cases inner with
  | nil => simp only [changeInnermost, withoutGroups, List.map_nil, hf]
  | cons g gs => simp only [changeInnermost, withoutGroups, List.map_cons, hf]

theorem upToFunction_withoutGroups (fs : List Frame) :
    upToFunction (fs.map Frame.withoutGroups) = (upToFunction fs).map Frame.withoutGroups := by
  induction fs with
  | nil => rfl
  | cons f fs ih =>
    have hkind : f.withoutGroups.kind = f.kind := rfl
    rw [List.map_cons, upToFunction, upToFunction, hkind, ih]
    split <;> rfl

theorem visible_withoutGroups (env : Environment) :
    env.withoutGroups.visible = env.visible.map Frame.withoutGroups := by
  rw [visible, visible, List.map_append, ← upToFunction_withoutGroups]
  rfl

theorem changeUpToFunction_withoutGroups {p : Frame → Bool} {f : Frame → Frame}
    (hp : ∀ g, p g.withoutGroups = p g) (hf : ∀ g, (f g).withoutGroups = f g.withoutGroups)
    (fs : List Frame) :
    changeUpToFunction p f (fs.map Frame.withoutGroups)
      = (changeUpToFunction p f fs).map (List.map Frame.withoutGroups) := by
  induction fs with
  | nil => rfl
  | cons g gs ih =>
    have hkind : g.withoutGroups.kind = g.kind := rfl
    rw [List.map_cons, changeUpToFunction, changeUpToFunction, hp, hkind, ih]
    by_cases hpg : p g
    · simp only [hpg, if_true, Option.map_some, List.map_cons, hf]
    · simp only [hpg, Bool.false_eq_true, if_false]
      split
      · rfl
      · cases changeUpToFunction p f gs with
        | none => rfl
        | some gs' => rfl

theorem changeVisible?_withoutGroups {p : Frame → Bool} {f : Frame → Frame}
    (hp : ∀ g, p g.withoutGroups = p g) (hf : ∀ g, (f g).withoutGroups = f g.withoutGroups)
    (env : Environment) :
    env.withoutGroups.changeVisible? p f = (env.changeVisible? p f).map withoutGroups := by
  obtain ⟨inner, global, output⟩ := env
  have hinner := changeUpToFunction_withoutGroups hp hf inner
  have hglobal := hp global
  simp only [changeVisible?, withoutGroups]
  rw [hinner]
  cases changeUpToFunction p f inner with
  | some inner => rfl
  | none =>
    by_cases hpg : p global
    · simp only [hpg, hglobal, if_true, Option.map_none, Option.map_some, ← hf, withoutGroups]
    · simp only [hpg, hglobal, Bool.false_eq_true, if_false, Option.map_none]

theorem setVariable_withoutGroups (x : String) (v : Value) (g : Frame) :
    (setVariable x v g).withoutGroups = setVariable x v g.withoutGroups := rfl

theorem putConstant_withoutGroups (x : String) (v : Value) (g : Frame) :
    (putConstant x v g).withoutGroups = putConstant x v g.withoutGroups := rfl

theorem define_withoutGroups (env : Environment) (x : String) (v : Value) :
    (env.define x v).withoutGroups = env.withoutGroups.define x v :=
  changeInnermost_withoutGroups (setVariable_withoutGroups x v) env

theorem assign_withoutGroups (env : Environment) (x : String) (v : Value) :
    (env.assign x v).withoutGroups = env.withoutGroups.assign x v := by
  rw [assign, assign, changeVisible?_withoutGroups (p := fun f ↦ f.vars.has x) (fun _ ↦ rfl)
    (setVariable_withoutGroups x v), ← define_withoutGroups]
  cases env.changeVisible? (fun f ↦ f.vars.has x) (setVariable x v) with
  | none => rfl
  | some env' => rfl

theorem defineFunction_withoutGroups (env : Environment) (name : String) (part : Part) :
    (env.defineFunction name part).withoutGroups
      = env.withoutGroups.defineFunction name part.withoutGroups := by
  refine changeInnermost_withoutGroups (fun g ↦ ?_) env
  simp only [addPart, Frame.withoutGroups, Table.mapValues_put, Table.get?_mapValues,
    List.map_append, List.map_cons, List.map_nil]
  cases g.functions.get? name with
  | none => rfl
  | some parts => rfl

/-! ## Questions -/

theorem findSome?_visible_withoutGroups {β : Type} {f : Frame → Option β}
    (hf : ∀ g, f g.withoutGroups = f g) (env : Environment) :
    env.withoutGroups.visible.findSome? f = env.visible.findSome? f := by
  rw [visible_withoutGroups, List.findSome?_map]
  exact congrArg (fun k ↦ List.findSome? k env.visible) (funext hf)

theorem valueOf?_withoutGroups (env : Environment) (x : String) :
    env.withoutGroups.valueOf? x = env.valueOf? x :=
  findSome?_visible_withoutGroups (fun _ ↦ rfl) env

theorem constant?_withoutGroups (env : Environment) (x : String) :
    env.withoutGroups.constant? x = env.constant? x :=
  findSome?_visible_withoutGroups (fun _ ↦ rfl) env

theorem callScope_withoutGroups (env : Environment) :
    env.withoutGroups.callScope = env.callScope := by
  rw [callScope, callScope, withoutGroups, List.any_map]
  rfl

theorem setConstant_withoutGroups (env : Environment) (x : String) (v : Value) (l : Location) :
    env.withoutGroups.setConstant x v l = (env.setConstant x v l).map withoutGroups := by
  rw [setConstant, setConstant, constant?_withoutGroups]
  cases env.constant? x with
  | none =>
    rw [Except.map, changeInnermost_withoutGroups (putConstant_withoutGroups x v)]
  | some old =>
    by_cases hnull : old.isNull
    · simp only [hnull, if_true, Except.map]
      rw [changeVisible?_withoutGroups (p := fun f ↦ f.constants.has x) (fun _ ↦ rfl)
        (putConstant_withoutGroups x v)]
      cases env.changeVisible? (fun f ↦ f.constants.has x) (putConstant x v) with
      | none => rfl
      | some env' => rfl
    · simp only [hnull, Bool.false_eq_true, if_false, Except.map]

/-! ## Parts -/

theorem newest?_withoutGroups (parts : List Part) (arity : Arity) (scope : Scope) :
    Part.newest? (parts.map Part.withoutGroups) arity scope
      = (Part.newest? parts arity scope).map Part.withoutGroups := by
  rw [Part.newest?, Part.newest?, ← List.map_reverse, List.find?_map]
  have hsame : (fun p : Part ↦ p.arity == arity && p.scope == scope) ∘ Part.withoutGroups
      = fun p ↦ p.arity == arity && p.scope == scope := by
    funext p
    simp only [Function.comp_apply, Part.arity_withoutGroups, Part.scope_withoutGroups]
  rw [hsame]

theorem select?_withoutGroups (parts : List Part) (arity : Nat) (scope : Scope) :
    Part.select? (parts.map Part.withoutGroups) arity scope
      = (Part.select? parts arity scope).map Part.withoutGroups := by
  simp only [Part.select?, newest?_withoutGroups, Option.orElse_eq_or, Option.map_or]

theorem hasFunction_withoutGroups (env : Environment) (name : String) :
    env.withoutGroups.hasFunction name = env.hasFunction name := by
  rw [hasFunction, hasFunction, visible_withoutGroups, List.any_map]
  refine congrArg env.visible.any (funext fun f ↦ ?_)
  exact Table.has_mapValues _ f.functions name

theorem part_withoutGroups (env : Environment) (name : String) (arity : Nat) (scope : Scope)
    (l : Location) :
    env.withoutGroups.part name arity scope l
      = (env.part name arity scope l).map Part.withoutGroups := by
  have hfound : (env.withoutGroups.visible.findSome? fun f ↦
        (f.functions.get? name).bind (Part.select? · arity scope))
      = (env.visible.findSome? fun f ↦
        (f.functions.get? name).bind (Part.select? · arity scope)).map Part.withoutGroups := by
    rw [visible_withoutGroups, List.findSome?_map, List.map_findSome?]
    refine congrArg (fun k ↦ List.findSome? k env.visible) (funext fun f ↦ ?_)
    simp only [Function.comp_apply, Frame.withoutGroups, Table.get?_mapValues]
    cases f.functions.get? name with
    | none => rfl
    | some parts => exact select?_withoutGroups parts arity scope
  rw [part, part, hfound, hasFunction_withoutGroups]
  cases env.visible.findSome? fun f ↦
      (f.functions.get? name).bind (Part.select? · arity scope) with
  | some q => rfl
  | none =>
    simp only [Option.map_none]
    split <;> rfl

end Environment

end Scriptlet
