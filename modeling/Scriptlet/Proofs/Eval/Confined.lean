import Scriptlet.Eval.Call
import Scriptlet.Proofs.Tree.Induction

/-!
# What a function's body can reach

Inside the frame of a function nothing below that frame is visible, and nothing but the innermost
frames and the global one is ever written. A computation with this property is called confined: it
treats the frames around a function as if they were not there. Every expression and statement is
confined if calls are, and so is a call, since it runs a body in a frame of its own. The caller of a
function therefore cannot tell its frames to the function, nor find them changed.
-/

namespace Scriptlet

/-! ## Frames behind a function's frame -/

/-- One of the frames is that of a function, so that frames behind them are out of sight. -/
def Closed (top : List Frame) : Prop := ∃ f ∈ top, f.kind = .function

theorem Closed.of_kinds {top top' : List Frame} (h : Closed top)
    (hk : top'.map Frame.kind = top.map Frame.kind) : Closed top' := by
  obtain ⟨f, hf, hkind⟩ := h
  have hmem : FrameKind.function ∈ top'.map Frame.kind := by
    rw [hk, ← hkind]
    exact List.mem_map_of_mem hf
  obtain ⟨g, hg, hgk⟩ := List.mem_map.mp hmem
  exact ⟨g, hg, hgk⟩

theorem Closed.cons {top : List Frame} (h : Closed top) (f : Frame) : Closed (f :: top) := by
  obtain ⟨g, hg, hk⟩ := h
  exact ⟨g, List.mem_cons_of_mem _ hg, hk⟩

theorem Closed.ne_nil {top : List Frame} (h : Closed top) : top ≠ [] := by
  rintro rfl
  obtain ⟨f, hf, -⟩ := h
  cases hf

theorem closed_cons_iff {f : Frame} {top : List Frame} :
    Closed (f :: top) ↔ f.kind = .function ∨ Closed top := by
  simp [Closed]

namespace Environment

variable {top : List Frame} {base : List Frame} {global : Frame} {out : List String}

theorem upToFunction_append (h : Closed top) :
    upToFunction (top ++ base) = upToFunction top := by
  induction top with
  | nil => exact absurd rfl h.ne_nil
  | cons f top ih =>
    rw [List.cons_append, upToFunction, upToFunction]
    by_cases hf : f.kind = .function
    · rw [if_pos hf, if_pos hf]
    · rw [if_neg hf, if_neg hf, ih ((closed_cons_iff.mp h).resolve_left hf)]

theorem visible_append (h : Closed top) :
    (⟨top ++ base, global, out⟩ : Environment).visible = upToFunction top ++ [global] := by
  rw [visible, upToFunction_append h]

theorem callScope_append (h : Closed top) :
    (⟨top ++ base, global, out⟩ : Environment).callScope = .local := by
  obtain ⟨f, hf, hk⟩ := h
  have hany : ((top ++ base).any fun f ↦ f.kind == .function) = true :=
    List.any_eq_true.mpr ⟨f, List.mem_append_left _ hf, by simp [hk]⟩
  rw [callScope, if_pos hany]

theorem changeUpToFunction_append {p : Frame → Bool} {f : Frame → Frame} (h : Closed top) :
    changeUpToFunction p f (top ++ base) = (changeUpToFunction p f top).map (· ++ base) := by
  induction top with
  | nil => exact absurd rfl h.ne_nil
  | cons g top ih =>
    rw [List.cons_append, changeUpToFunction, changeUpToFunction]
    by_cases hp : p g
    · rw [if_pos hp, if_pos hp, Option.map_some, List.cons_append]
    · rw [if_neg hp, if_neg hp]
      by_cases hg : g.kind = .function
      · rw [if_pos hg, if_pos hg, Option.map_none]
      · rw [if_neg hg, if_neg hg, ih ((closed_cons_iff.mp h).resolve_left hg), Option.map_map,
          Option.map_map]
        rfl

theorem kinds_of_changeUpToFunction {p : Frame → Bool} {f : Frame → Frame}
    (hf : ∀ g, (f g).kind = g.kind) {top' : List Frame}
    (h : changeUpToFunction p f top = some top') :
    top'.map Frame.kind = top.map Frame.kind := by
  induction top generalizing top' with
  | nil => cases h
  | cons g top ih =>
    rw [changeUpToFunction] at h
    split at h
    · obtain rfl := Option.some.inj h
      rw [List.map_cons, List.map_cons, hf]
    · split at h
      · cases h
      · obtain ⟨top₁, htop₁, rfl⟩ := Option.map_eq_some_iff.mp h
        rw [List.map_cons, List.map_cons, ih htop₁]

/-! ## Reading and writing -/

/-- What is read does not depend on the frames behind a function's frame. -/
def Sees {α : Type} (f : Environment → α) : Prop :=
  ∀ top global, Closed top → ∃ a, ∀ base out, f ⟨top ++ base, global, out⟩ = a

/-- What is written leaves the frames behind a function's frame as they are, does not depend on them
and keeps all kinds. -/
def Writes (f : Environment → Environment) : Prop :=
  ∀ top global, Closed top → ∃ top' global', top'.map Frame.kind = top.map Frame.kind ∧
    ∀ base out, f ⟨top ++ base, global, out⟩ = ⟨top' ++ base, global', out⟩

theorem Sees.of_visible {α : Type} {f : Environment → α}
    (hf : ∀ env env' : Environment, env.visible = env'.visible → f env = f env') : Sees f :=
  fun top global h ↦ ⟨f ⟨top ++ [], global, []⟩, fun _ _ ↦
    hf _ _ ((visible_append h).trans (visible_append h).symm)⟩

theorem sees_valueOf? (name : String) : Sees fun env ↦ env.valueOf? name :=
  .of_visible fun env env' h ↦ by rw [valueOf?, valueOf?, h]

theorem sees_constant? (name : String) : Sees fun env ↦ env.constant? name :=
  .of_visible fun env env' h ↦ by rw [constant?, constant?, h]

/-- The part that a call reaches from where it stands. -/
theorem sees_part (name : String) (arity : Nat) (l : Location) :
    Sees fun env ↦ env.part name arity env.callScope l := by
  intro top global h
  have hpart : Sees fun env ↦ env.part name arity .local l :=
    .of_visible fun env env' h ↦ by rw [part, part, hasFunction, hasFunction, h]
  obtain ⟨a, ha⟩ := hpart top global h
  refine ⟨a, fun base out ↦ ?_⟩
  rw [← ha base out]
  simp only [callScope_append h]

theorem Writes.changeInnermost {f : Frame → Frame} (hf : ∀ g, (f g).kind = g.kind) :
    Writes fun env ↦ env.changeInnermost f := by
  intro top global h
  obtain ⟨g, gs, rfl⟩ := List.exists_cons_of_ne_nil h.ne_nil
  exact ⟨f g :: gs, global, by rw [List.map_cons, List.map_cons, hf], fun _ _ ↦ rfl⟩

/-- A change of the first visible frame with a property, or else another change. -/
theorem Writes.changeVisible? {p : Frame → Bool} {f : Frame → Frame}
    {other : Environment → Environment}
    (hf : ∀ g, (f g).kind = g.kind) (hother : Writes other) :
    Writes fun env ↦ (env.changeVisible? p f).getD (other env) := by
  intro top global h
  rcases hc : changeUpToFunction p f top with _ | top₁
  · by_cases hp : p global
    · refine ⟨top, f global, rfl, fun base out ↦ ?_⟩
      simp [Environment.changeVisible?, changeUpToFunction_append h, hc, hp]
    · obtain ⟨top', global', hk, hw⟩ := hother top global h
      refine ⟨top', global', hk, fun base out ↦ ?_⟩
      simp [Environment.changeVisible?, changeUpToFunction_append h, hc, hp, hw]
  · refine ⟨top₁, global, kinds_of_changeUpToFunction hf hc, fun base out ↦ ?_⟩
    simp [Environment.changeVisible?, changeUpToFunction_append h, hc]

theorem Writes.define (name : String) (v : Value) : Writes fun env ↦ env.define name v :=
  .changeInnermost fun _ ↦ rfl

theorem Writes.assign (name : String) (v : Value) : Writes fun env ↦ env.assign name v :=
  .changeVisible? (fun _ ↦ rfl) (.define name v)

theorem Writes.id : Writes fun env ↦ env :=
  fun top global _ ↦ ⟨top, global, rfl, fun _ _ ↦ rfl⟩

theorem Writes.comp {f g : Environment → Environment} (hf : Writes f) (hg : Writes g) :
    Writes fun env ↦ g (f env) := by
  intro top global h
  obtain ⟨top₁, global₁, hk₁, hw₁⟩ := hf top global h
  obtain ⟨top₂, global₂, hk₂, hw₂⟩ := hg top₁ global₁ (h.of_kinds hk₁)
  refine ⟨top₂, global₂, hk₂.trans hk₁, fun base out ↦ ?_⟩
  rw [← hw₂, ← hw₁]

/-- The parameters of a function, defined one after another. -/
theorem Writes.defineAll (ps : List (String × Value)) :
    Writes fun env ↦ ps.foldl (fun env p ↦ env.define p.1 p.2) env := by
  induction ps with
  | nil => exact .id
  | cons p ps ih => exact (Writes.define p.1 p.2).comp ih

end Environment

/-! ## Confined computations -/

namespace Eval

variable {α β : Type}

/-- Inside a function the computation does not depend on the frames behind that of the function, and
leaves them as they are. -/
def Confined (m : Eval α) : Prop :=
  ∀ top global, Closed top → ∃ r top' global' lines, top'.map Frame.kind = top.map Frame.kind ∧
    ∀ base out, m ⟨top ++ base, global, out⟩ = (r, ⟨top' ++ base, global', out ++ lines⟩)

/-- The computation does not depend on any frame but the global one, and leaves all others as they
are. -/
def Detached (m : Eval α) : Prop :=
  ∀ global, ∃ r global' lines,
    ∀ inner out, m ⟨inner, global, out⟩ = (r, ⟨inner, global', out ++ lines⟩)

theorem Detached.confined {m : Eval α} (h : m.Detached) : m.Confined := by
  intro top global _
  obtain ⟨r, global', lines, hm⟩ := h global
  exact ⟨r, top, global', lines, rfl, fun base out ↦ hm _ _⟩

theorem Confined.lift (r : Except EvalError α) : (lift r).Confined :=
  fun top global _ ↦ ⟨r, top, global, [], rfl, fun _ _ ↦ by rw [List.append_nil]; rfl⟩

theorem Confined.pure (a : α) : (Pure.pure a : Eval α).Confined := .lift (.ok a)

theorem Confined.fail (e : EvalError) : (fail e : Eval α).Confined := .lift (.error e)

theorem Confined.ask {f : Environment → α} (hf : Environment.Sees f) : (ask f).Confined := by
  intro top global h
  obtain ⟨a, ha⟩ := hf top global h
  refine ⟨.ok a, top, global, [], rfl, fun base out ↦ ?_⟩
  rw [Eval.ask, ha, List.append_nil]

theorem Confined.change {f : Environment → Environment} (hf : Environment.Writes f) :
    (change f).Confined := by
  intro top global h
  obtain ⟨top', global', hk, hw⟩ := hf top global h
  refine ⟨.ok (), top', global', [], hk, fun base out ↦ ?_⟩
  rw [Eval.change, hw, List.append_nil]

theorem Confined.print (line : String) : (Eval.change fun env ↦ env.print line).Confined :=
  fun top global _ ↦ ⟨.ok (), top, global, [line], rfl, fun _ _ ↦ rfl⟩

theorem Confined.bind {m : Eval α} {k : α → Eval β} (hm : m.Confined)
    (hk : ∀ a, (k a).Confined) : (m >>= k).Confined := by
  intro top global h
  obtain ⟨r, top₁, global₁, lines₁, hk₁, hm₁⟩ := hm top global h
  cases r with
  | error e =>
    refine ⟨.error e, top₁, global₁, lines₁, hk₁, fun base out ↦ ?_⟩
    simp only [Bind.bind, Eval.bind, hm₁]
  | ok a =>
    obtain ⟨r, top₂, global₂, lines₂, hk₂, hm₂⟩ := hk a top₁ global₁ (h.of_kinds hk₁)
    refine ⟨r, top₂, global₂, lines₁ ++ lines₂, hk₂.trans hk₁, fun base out ↦ ?_⟩
    simp only [Bind.bind, Eval.bind, hm₁, hm₂, List.append_assoc]

theorem Confined.ite {p : Prop} [Decidable p] {m m' : Eval α} (hm : m.Confined)
    (hm' : m'.Confined) : (if p then m else m').Confined := by
  split
  · exact hm
  · exact hm'

/-- A frame that is pushed and popped again. -/
theorem Confined.inFrame {m : Eval α} (kind : FrameKind) (hm : m.Confined) :
    (inFrame kind m).Confined := by
  intro top global h
  obtain ⟨r, top', global', lines, hk, hrun⟩ := hm (.empty kind :: top) global (h.cons _)
  obtain ⟨f, fs, rfl⟩ : ∃ f fs, top' = f :: fs := by
    cases top' with
    | nil => cases hk
    | cons f fs => exact ⟨f, fs, rfl⟩
  refine ⟨r, fs, global', lines, (List.cons.inj hk).2, fun base out ↦ ?_⟩
  have hpush : m ((⟨top ++ base, global, out⟩ : Environment).push kind)
      = (r, ⟨f :: fs ++ base, global', out ++ lines⟩) := hrun base out
  rw [Eval.inFrame, hpush]
  rfl

/-- In the frame of a function a confined computation is detached from its surroundings. -/
theorem Confined.detached {m : Eval α} (hm : m.Confined) : (Eval.inFrame .function m).Detached := by
  intro global
  obtain ⟨r, top', global', lines, hk, hrun⟩ :=
    hm [.empty .function] global ⟨_, List.mem_singleton_self _, rfl⟩
  obtain ⟨f, rfl⟩ : ∃ f, top' = [f] := by
    rw [← List.length_eq_one_iff, ← List.length_map Frame.kind, hk]
    rfl
  refine ⟨r, global', lines, fun inner out ↦ ?_⟩
  have hpush : m ((⟨inner, global, out⟩ : Environment).push .function)
      = (r, ⟨[f] ++ inner, global', out ++ lines⟩) := hrun inner out
  rw [Eval.inFrame, hpush]
  rfl

/-- It is enough to be the same as a confined computation, which may depend on what is visible. -/
theorem Confined.of_visible {m : Eval α}
    (h : ∀ top global, Closed top → ∃ m' : Eval α, m'.Confined ∧
      ∀ base out, m ⟨top ++ base, global, out⟩ = m' ⟨top ++ base, global, out⟩) :
    m.Confined := by
  intro top global hclosed
  obtain ⟨m', hm', heq⟩ := h top global hclosed
  obtain ⟨r, top', global', lines, hk, hrun⟩ := hm' top global hclosed
  exact ⟨r, top', global', lines, hk, fun base out ↦ (heq base out).trans (hrun base out)⟩

/-! ## Names -/

theorem confined_lookupName (name : String) (l : Location) : (lookupName name l).Confined := by
  refine .of_visible fun top global h ↦ ?_
  obtain ⟨v, hv⟩ := Environment.sees_valueOf? name top global h
  obtain ⟨c, hc⟩ := Environment.sees_constant? name top global h
  dsimp only at hv hc
  refine ⟨(v.or c).elim (fail (.unboundIdentifier name l)) Pure.pure, ?_, fun base out ↦ ?_⟩
  · cases v.or c with
    | none => exact .fail _
    | some v => exact .pure v
  · rw [lookupName, hv, hc]
    cases v with
    | some v => rfl
    | none => cases c <;> rfl

theorem confined_setConstant (name : String) (v : Value) (l : Location) :
    (tryChange fun env ↦ env.setConstant name v l).Confined := by
  refine .of_visible fun top global h ↦ ?_
  obtain ⟨c, hc⟩ := Environment.sees_constant? name top global h
  dsimp only at hc
  cases c with
  | none =>
    refine ⟨change fun env ↦ env.changeInnermost (Environment.putConstant name v),
      .change (.changeInnermost fun _ ↦ rfl), fun base out ↦ ?_⟩
    simp only [tryChange, Environment.setConstant, hc, change]
  | some old =>
    by_cases hnull : old.isNull
    · refine ⟨change fun env ↦ (env.changeVisible? (fun f ↦ f.constants.has name)
          (Environment.putConstant name v)).getD env,
        .change (.changeVisible? (fun _ ↦ rfl) .id), fun base out ↦ ?_⟩
      simp only [tryChange, Environment.setConstant, hc, hnull, if_true, change]
    · refine ⟨fail (.constantReassignment name l), .fail _, fun base out ↦ ?_⟩
      simp only [tryChange, Environment.setConstant, hc, hnull, Bool.false_eq_true, if_false, fail]

theorem confined_assignName (name : String) (v : Value) (l : Location) :
    (assignName name v l).Confined := by
  refine .of_visible fun top global h ↦ ?_
  obtain ⟨w, hw⟩ := Environment.sees_valueOf? name top global h
  obtain ⟨c, hc⟩ := Environment.sees_constant? name top global h
  dsimp only at hw hc
  by_cases hconst : w.isNone && c.isSome
  · refine ⟨_, confined_setConstant name v l, fun base out ↦ ?_⟩
    rw [assignName, hw, hc, if_pos hconst]
  · refine ⟨_, .change (.assign name v), fun base out ↦ ?_⟩
    rw [assignName, hw, hc, if_neg hconst]

/-- Inside a function every definition is local. -/
theorem confined_defineFunction (name : String) (params : List String) (body : List Statement) :
    (change fun env ↦ env.defineFunction name
      (.ofScript params body (scopeOfDefinition env))).Confined := by
  refine .change fun top global h ↦ ?_
  obtain ⟨top', global', hk, hw⟩ := Environment.Writes.changeInnermost
    (fun _ ↦ rfl : ∀ g, (Environment.addPart name (.ofScript params body .local) g).kind = g.kind)
    top global h
  refine ⟨top', global', hk, fun base out ↦ ?_⟩
  rw [← hw base out, scopeOfDefinition, Environment.callScope_append h]
  rfl

theorem confined_fit (kind : Option Kind) (v : Value) (op : String) (l : Location) :
    (fit kind v op l).Confined := by
  unfold fit
  split
  · exact .pure v
  · split
    · exact .pure v
    · split
      · exact .pure _
      · exact .fail _

/-! ## Trees -/

section Trees

variable {invoke : String → List Value → Location → Eval Value}

attribute [local simp] expr exprs items initial indexArg callee assign statement statements
  optionalStatement optionalExpr lastOf

variable (invoke) in
/-- The expression is confined as a value, as a target of an assignment and in front of
arguments. -/
structure ExprConfined (e : Expr) : Prop where
  value : (expr invoke e).Confined
  target : ∀ v l, (assign invoke e v l).Confined
  called : ∀ args l, args.Confined → (callee invoke e args l).Confined

variable (invoke) in
/-- The statement is confined. -/
def StatementConfined (st : Statement) : Prop := (statement invoke st).Confined

theorem confined_exprs {es : List Expr} (hes : ∀ e ∈ es, ExprConfined invoke e) :
    (exprs invoke es).Confined := by
  induction es with
  | nil => exact .pure _
  | cons e es ih =>
    obtain ⟨he, hes⟩ := List.forall_mem_cons.mp hes
    exact he.value.bind fun v ↦ (ih hes).bind fun vs ↦ .pure _

theorem confined_items {kind : Option Kind} {es : List Expr}
    (hes : ∀ e ∈ es, ExprConfined invoke e) : (items invoke kind es).Confined := by
  induction es with
  | nil => exact .pure _
  | cons e es ih =>
    obtain ⟨he, hes⟩ := List.forall_mem_cons.mp hes
    exact he.value.bind fun v ↦ (confined_fit _ _ _ _).bind fun w ↦ (ih hes).bind fun ws ↦ .pure _

theorem confined_lastOf {last : Value} {es : List Expr}
    (hes : ∀ e ∈ es, ExprConfined invoke e) : (lastOf invoke last es).Confined := by
  induction es generalizing last with
  | nil => exact .pure _
  | cons e es ih =>
    obtain ⟨he, hes⟩ := List.forall_mem_cons.mp hes
    exact he.value.bind fun v ↦ ih hes

theorem confined_initial {kind : Option Kind} {l : Location} {o : Option Expr}
    (ho : ∀ e ∈ o, ExprConfined invoke e) : (initial invoke kind l o).Confined := by
  cases o with
  | none => exact .pure _
  | some e => exact (ho e rfl).value.bind fun v ↦ confined_fit _ _ _ _

theorem confined_optionalExpr {o : Option Expr} (ho : ∀ e ∈ o, ExprConfined invoke e) :
    (optionalExpr invoke o).Confined := by
  cases o with
  | none => exact .pure _
  | some e => exact (ho e rfl).value

theorem confined_indexArg {es : List Expr} (l : Location)
    (hes : ∀ e ∈ es, ExprConfined invoke e) : (indexArg invoke es l).Confined := by
  match es, hes with
  | [], _ => exact .fail _
  | [e], hes => exact (hes e List.mem_cons_self).value.bind fun v ↦ .lift _
  | _ :: _ :: _, _ => exact .fail _

theorem confined_statements {last : Value} {sts : List Statement}
    (hsts : ∀ st ∈ sts, StatementConfined invoke st) : (statements invoke last sts).Confined := by
  induction sts generalizing last with
  | nil => exact .pure _
  | cons st sts ih =>
    obtain ⟨hst, hsts⟩ := List.forall_mem_cons.mp hsts
    refine Confined.bind hst fun flow ↦ ?_
    cases flow with
    | normal v => exact ih hsts
    | returning v => exact .pure _

theorem confined_optionalStatement {o : Option Statement}
    (ho : ∀ st ∈ o, StatementConfined invoke st) : (optionalStatement invoke o).Confined := by
  cases o with
  | none => exact .pure _
  | some st => exact ho st rfl

/-- Most forms are neither assigned to nor called. -/
theorem ExprConfined.of_value {e : Expr} (value : (expr invoke e).Confined)
    (target : ∀ v l, assign invoke e v l = fail (.invalidTarget l))
    (called : ∀ args l, callee invoke e args l = fail (.notImplemented .computedCall l)) :
    ExprConfined invoke e where
  value := value
  target v l := target v l ▸ .fail _
  called args l _ := called args l ▸ .fail _

theorem confined_unary {n : Node} {op : UnaryOp} {e : Expr} {t : Option OperatorTarget}
    (ih : ExprConfined invoke e) : ExprConfined invoke (.unary n op e t) where
  value := ih.value.bind fun v ↦ (Confined.lift _).bind fun w ↦
    .ite ((ih.target w n.location).bind fun _ ↦ .pure _) (.pure _)
  target v l := by
    cases op with
    | group => exact ih.target v l
    | _ => exact .fail _
  called args l hargs := by
    cases op with
    | group => exact ih.called args l hargs
    | _ => exact .fail _

theorem confined_index {n : Node} {target : Expr} {args : List Expr} {t : Option CallTarget}
    (ih : ExprConfined invoke target) (ihs : ∀ e ∈ args, ExprConfined invoke e) :
    ExprConfined invoke (.index n target args t) where
  value := ih.value.bind fun _ ↦ (confined_indexArg _ ihs).bind fun _ ↦ .lift _
  target _ l := ih.value.bind fun _ ↦ (confined_indexArg l ihs).bind fun _ ↦
    (Confined.lift _).bind fun updated ↦ ih.target updated l
  called _ _ _ := .fail _

/-- Every form is confined if its parts and all calls are. -/
theorem tree_confined (hinvoke : ∀ f vs l, (invoke f vs l).Confined) :
    Tree.Cases (ExprConfined invoke) (StatementConfined invoke) where
  literal n v := .of_value (.pure _) (fun _ _ ↦ rfl) fun _ _ ↦ rfl
  null n := .of_value (.pure _) (fun _ _ ↦ rfl) fun _ _ ↦ rfl
  empty n := .of_value (.pure _) (fun _ _ ↦ rfl) fun _ _ ↦ rfl
  this n := .of_value (.fail _) (fun _ _ ↦ rfl) fun _ _ ↦ rfl
  lambda n params body _ := .of_value (.fail _) (fun _ _ ↦ rfl) fun _ _ ↦ rfl
  new n target args t _ _ := .of_value (.fail _) (fun _ _ ↦ rfl) fun _ _ ↦ rfl
  name n x :=
    { value := confined_lookupName x _
      target := fun v l ↦ confined_assignName x v l
      called := fun args l hargs ↦ hargs.bind fun vs ↦ hinvoke x vs l }
  variableRef n x :=
    { value := .ask fun top global h ↦ by
        obtain ⟨v, hv⟩ := Environment.sees_valueOf? x top global h
        exact ⟨v.getD .null, fun base out ↦ congrArg (·.getD .null) (hv base out)⟩
      target := fun v l ↦ .change (.assign x v)
      called := fun _ _ _ ↦ .fail _ }
  constantRef n x :=
    { value := .ask fun top global h ↦ by
        obtain ⟨v, hv⟩ := Environment.sees_constant? x top global h
        exact ⟨v.getD .null, fun base out ↦ congrArg (·.getD .null) (hv base out)⟩
      target := fun v l ↦ confined_setConstant x v l
      called := fun _ _ _ ↦ .fail _ }
  unary n op e t ih := confined_unary ih
  binary n op a b t iha ihb := .of_value
    (iha.value.bind fun v ↦ .ite (.pure _) (.ite (.pure _) (ihb.value.bind fun w ↦ .lift _)))
    (fun _ _ ↦ rfl) fun _ _ ↦ rfl
  coalesce n a b iha ihb := .of_value
    (iha.value.bind fun v ↦ .ite (ihb.value.bind fun w ↦
      .ite ((iha.target w n.location).bind fun _ ↦ .pure w) (.pure w)) (.pure v))
    (fun _ _ ↦ rfl) fun _ _ ↦ rfl
  ternary n x a b v ihx iha ihb := .of_value
    (ihx.value.bind fun v ↦ .ite iha.value ihb.value) (fun _ _ ↦ rfl) fun _ _ ↦ rfl
  assign n target v k iht ihv := .of_value
    (ihv.value.bind fun v ↦ (iht.target v _).bind fun _ ↦ .pure _) (fun _ _ ↦ rfl) fun _ _ ↦ rfl
  call n target args t ih ihs := .of_value
    (ih.called _ _ (confined_exprs ihs)) (fun _ _ ↦ rfl) fun _ _ ↦ rfl
  index n target args t ih ihs := confined_index ih ihs
  member n target x ih :=
    { value := ih.value.bind fun v ↦ .lift _
      target := fun _ _ ↦ .fail _
      called := fun args l hargs ↦ ih.value.bind fun v ↦ hargs.bind fun vs ↦ .lift _ }
  declare n x ty init k ih := .of_value
    ((confined_initial ih).bind fun v ↦ (Confined.change (.define x v)).bind fun _ ↦ .pure _)
    (fun _ _ ↦ rfl) fun _ _ ↦ rfl
  array n ty items cs ih := .of_value
    ((confined_items ih).bind fun vs ↦ .pure _) (fun _ _ ↦ rfl) fun _ _ ↦ rfl
  block n body ih := .of_value
    (.inFrame .block ((confined_statements ih).bind fun flow ↦ .pure _))
    (fun _ _ ↦ rfl) fun _ _ ↦ rfl
  exprStatement e ih := ih.value.bind fun v ↦ .pure _
  blockStatement l body ih := .inFrame .block (confined_statements ih)
  cond l x a b ihx iha ihb := ihx.value.bind fun v ↦ .ite iha (confined_optionalStatement ihb)
  ret l value k ih := (confined_optionalExpr ih).bind fun v ↦ .pure _
  throw l value ih := (confined_optionalExpr ih).bind fun v ↦ .fail _
  vars l declarations ih := (confined_lastOf ih).bind fun v ↦ .pure _
  function l signature body _ := (confined_defineFunction _ _ _).bind fun _ ↦ .pure _

end Trees

/-! ## Calls -/

theorem confined_host {invoke : String → List Value → Location → Eval Value}
    (hinvoke : ∀ f vs l, (invoke f vs l).Confined) (act : HostAction) :
    (host invoke act).Confined := by
  induction act with
  | done r => exact .lift r
  | print line next ih => exact (Confined.print line).bind fun _ ↦ ih
  | call name args l next ih =>
    intro top global h
    obtain ⟨r, top₁, global₁, lines₁, hk₁, hrun₁⟩ := hinvoke name args l top global h
    obtain ⟨r₂, top₂, global₂, lines₂, hk₂, hrun₂⟩ := ih r top₁ global₁ (h.of_kinds hk₁)
    refine ⟨r₂, top₂, global₂, lines₁ ++ lines₂, hk₂.trans hk₁, fun base out ↦ ?_⟩
    simp only [host, hrun₁, hrun₂, List.append_assoc]

/-- The body of a script's part is detached from its caller, if calls inside it are confined. -/
theorem detached_script {invoke : String → List Value → Location → Eval Value}
    (hinvoke : ∀ f vs l, (invoke f vs l).Confined) (params : List String)
    (stmts : List Statement) (args : List Value) (l : Location) :
    (body invoke (.script params stmts) args l).Detached := by
  refine Confined.detached ((Confined.change (.defineAll _)).bind fun _ ↦ ?_)
  refine (confined_statements fun st _ ↦ (tree_confined hinvoke).statement st).bind fun flow ↦ ?_
  cases flow with
  | normal v => exact .pure _
  | returning v => exact .pure _

theorem confined_call (limit budget : Nat) (name : String) (args : List Value) (l : Location) :
    (call limit budget name args l).Confined := by
  induction budget generalizing name args l with
  | zero =>
    exact (Confined.ask (Environment.sees_part name args.length l)).bind fun selected ↦
      (Confined.lift _).bind fun part ↦ .fail _
  | succ budget ih =>
    refine (Confined.ask (Environment.sees_part name args.length l)).bind fun selected ↦
      (Confined.lift _).bind fun part ↦ ?_
    rcases part.body with act | ⟨params, stmts⟩
    · exact confined_host ih (act args l)
    · exact (detached_script ih params stmts args l).confined

/-- The body of a script's part, run with any budget of further calls, is opaque to its caller. In
two environments with the same global frame, whatever frames stand above it, it ends in the same
way, prints the same lines and leaves the same global frame; and in each of them it leaves the
frames above as they were. -/
theorem body_opaque (limit budget : Nat) (params : List String) (stmts : List Statement)
    (args : List Value) (l : Location) {env₁ env₂ : Environment}
    (hglobal : env₁.global = env₂.global) :
    let run := body (call limit budget) (.script params stmts) args l
    (run env₁).1 = (run env₂).1 ∧ (run env₁).2.global = (run env₂).2.global ∧
      (∃ lines, (run env₁).2.output = env₁.output ++ lines ∧
        (run env₂).2.output = env₂.output ++ lines) ∧
      (run env₁).2.inner = env₁.inner ∧ (run env₂).2.inner = env₂.inner := by
  obtain ⟨r, global', lines, hrun⟩ :=
    detached_script (confined_call limit budget) params stmts args l env₁.global
  have hrun₁ := hrun env₁.inner env₁.output
  have hrun₂ := hrun env₂.inner env₂.output
  rw [hglobal] at hrun₂
  intro run
  have h₁ : run env₁ = (r, ⟨env₁.inner, global', env₁.output ++ lines⟩) := hrun₁
  have h₂ : run env₂ = (r, ⟨env₂.inner, global', env₂.output ++ lines⟩) := hrun₂
  rw [h₁, h₂]
  exact ⟨rfl, rfl, ⟨lines, rfl, rfl⟩, rfl, rfl⟩

/-- A body that asks for a variable of its caller fails alike, be the caller a block or a
function. -/
theorem body_opaque_of_callers_variable :
    let block : Environment := ⟨[⟨.block, [("x", .int 1)], [], []⟩], .empty .global, []⟩
    let function : Environment :=
      ⟨[⟨.function, [("x", .null)], [], []⟩, .empty .block], .empty .global, ["line"]⟩
    let run := body (call 8 4)
      (.script ["a"] [.ret .start (some (.name (.at .start) "x")) none]) [.null] .start
    block.global = function.global ∧ (run block).1 = (run function).1 ∧
      (run block).1 = .error (.unboundIdentifier "x" .start) ∧
      (run block).2.inner = block.inner ∧ (run function).2.inner = function.inner := by
  intro block function run
  have hglobal : block.global = function.global := rfl
  obtain ⟨hsame, -, -, hinner₁, hinner₂⟩ := body_opaque 8 4 ["a"]
    [.ret .start (some (.name (.at .start) "x")) none] [.null] .start hglobal
  exact ⟨hglobal, hsame, rfl, hinner₁, hinner₂⟩

end Eval

end Scriptlet
