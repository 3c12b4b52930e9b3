import Scriptlet.Eval.Call
import Scriptlet.Proofs.Bind.Roles
import Scriptlet.Proofs.Bind.Sound
import Scriptlet.Proofs.Code.Pieces

/-!
# In which order an element is written

An assignment to an element has three parts: the container, the index and the value. A run evaluates
the value first, and then the container and the index to reach the element. The code for a stack
machine has the container and the index on the stack before the value, since the instruction that
stores takes them from there. Where the parts have side effects on one another the two are different
programs.
-/

namespace Scriptlet

/-! ## Evaluation -/

instance : LawfulMonad Eval := LawfulMonad.mk' Eval
  (fun m ↦ by
    funext env
    change Eval.bind m _ env = _
    rw [Eval.bind]
    rcases m env with ⟨_ | a, env₁⟩ <;> rfl)
  (fun _ _ ↦ rfl)
  (fun m k k' ↦ by
    funext env
    change Eval.bind (Eval.bind m k) k' env = Eval.bind m (fun a ↦ Eval.bind (k a) k') env
    rw [Eval.bind, Eval.bind, Eval.bind]
    rcases m env with ⟨_ | a, env₁⟩ <;> rfl)

namespace Eval

variable {invoke : String → List Value → Location → Eval Value}

/-- Evaluating the expression begins with evaluating these, one after another. -/
def Begins (invoke : String → List Value → Location → Eval Value) (e : Expr) (es : List Expr) :
    Prop :=
  ∃ rest : List Value → Eval Value, expr invoke e = exprs invoke es >>= rest

/-- The error that the run fails with, if it does. -/
def failure? (m : Eval Value) (env : Environment) : Option EvalError :=
  match (m env).1 with
  | .error err => some err
  | .ok _ => none

theorem failure?_eq_some_iff {m : Eval Value} {env : Environment} {err : EvalError} :
    failure? m env = some err ↔ ∃ env', m env = (.error err, env') := by
  rw [failure?]
  rcases m env with ⟨_ | _, _⟩ <;> simp

/-- If the first of these fails, the expression fails with the same error. -/
theorem Begins.failure?_eq {e d : Expr} {es : List Expr} {env : Environment} {err : EvalError}
    (h : Begins invoke e (d :: es)) (hd : failure? (expr invoke d) env = some err) :
    failure? (expr invoke e) env = some err := by
  obtain ⟨env', hd⟩ := failure?_eq_some_iff.mp hd
  obtain ⟨rest, hrest⟩ := h
  refine failure?_eq_some_iff.mpr ⟨env', ?_⟩
  rw [hrest, exprs]
  change Eval.bind (Eval.bind (expr invoke d) _) rest env = _
  rw [Eval.bind, Eval.bind, hd]

theorem assign_ungrouped (e : Expr) (v : Value) (l : Location) :
    assign invoke e v l = assign invoke e.ungrouped v l := by
  fun_induction Expr.ungrouped e with
  | case1 n e t ih =>
    rw [assign]
    exact ih
  | case2 e hne => rfl

/-- Writes an element, given the value, the container and the index. -/
def writeElement (invoke : String → List Value → Location → Eval Value) (container : Expr)
    (l : Location) : List Value → Eval Value
  | [w, u, j] => do
    let j ← lift (j.intArg "[]" l)
    let updated ← lift (u.setElement j w l)
    assign invoke container updated l
    return w
  | _ => fail (.invalidTarget l)

theorem begins_assign_index {n m : Node} {target container i v : Expr}
    {k : Option (Option Conversion)} {t : Option CallTarget}
    (h : target.ungrouped = .index m container [i] t) :
    Begins invoke (.assign n target v k) [v, container, i] := by
  refine ⟨writeElement invoke container n.location, ?_⟩
  simp only [expr, exprs, assign_ungrouped target, h, assign, indexArg, bind_assoc, pure_bind,
    writeElement]

end Eval

/-! ## Code -/

namespace Code

theorem assign_ungrouped (r : Registry) (l : Location) (value : Emit) (e : Expr) :
    assign r l value e = assign r l value e.ungrouped := by
  fun_induction Expr.ungrouped e with
  | case1 n e t ih =>
    rw [assign]
    exact ih
  | case2 e hne => rfl

theorem expr_assign_index {r : Registry} {n m : Node} {target container i v : Expr} {ty : Ty}
    {c : Option Conversion} {k : Option (Option Conversion)}
    (h : target.ungrouped = .index m container [i] (some ⟨.arrayElement, ty, [c]⟩)) :
    expr r (.assign n target v k) =
      expr r container ++ (expr r i ++ .conversion? c) ++ (expr r v ++ .conversion? k.join)
        ++ .put (.dupUnder 2) ++ .put .storeElement := by
  rw [expr, assign_ungrouped, h, assign, Emit.require_some, arguments, arguments]
  simp [Emit.argConversion, Emit.append_nothing]

end Code

/-! ## Bound programs -/

namespace Tables

variable {Γ : Tables} {b : Body}

/-- What is assigned to between brackets is an element of an array, at one index. -/
theorem Typed.index_of_isAssignable {e container : Expr} {ty : Ty} {m : Node} {args : List Expr}
    {t : Option CallTarget} (ht : Γ.Typed b e ty) (hset : e.isAssignable)
    (h : e.ungrouped = .index m container args t) :
    ∃ i element c, args = [i] ∧ t = some ⟨.arrayElement, element, [c]⟩ := by
  fun_induction Expr.ungrouped e with
  | case1 n e t ih =>
    cases ht with
    | group he hn => exact ih he hset h
    | unary he ht hn =>
      cases ht with
      | method hop _ _ _ => cases hop
  | case2 e hne =>
    subst h
    cases ht with
    | index hc hargs hm hn =>
      cases hm with
      | indexer hm hstatic hfit => cases hset
      | @element elem cs harray hfit =>
        cases hfit with
        | @cons _ _ types _ c cs hfit hnil =>
          cases hnil
          obtain ⟨i, rfl⟩ := List.length_eq_one_iff.mp hargs.length_eq
          exact ⟨i, elem, c, rfl, rfl⟩

end Tables

/-- The container of the element that the expression is, if it is one of an array. -/
def Expr.container? : Expr → Option Expr
  | .index _ container [_] (some ⟨.arrayElement, _, [_]⟩) => some container
  | _ => none

/-- The container of the element that the expression assigns to. -/
def Expr.assignedContainer? : Expr → Option Expr
  | .assign _ target _ _ => target.ungrouped.container?
  | _ => none

theorem Expr.of_assignedContainer? {e container : Expr}
    (h : e.assignedContainer? = some container) :
    ∃ n target v k m i ty c, e = .assign n target v k ∧
      target.ungrouped = .index m container [i] (some ⟨.arrayElement, ty, [c]⟩) := by
  cases e with
  | assign n target v k =>
    rw [assignedContainer?, container?.eq_def] at h
    split at h
    · rename_i htarget
      obtain rfl := Option.some.inj h
      exact ⟨n, target, v, k, _, _, _, _, rfl, htarget⟩
    · cases h
  | _ => cases h

/-- A program with an assignment whose index steps the variable that is its value. Without its two
variables evaluating the container fails, and evaluating the assignment fails with another error. -/
theorem exists_assignment_of_counter :
    ∃ p, parseProgram "var n = 0; var a = [10, 20]; a[n++] = n; a" = .ok p ∧
      (bindProgram ⟨.primitive, none⟩ p).answer = .ok (.array .int) ∧
      ∃ q ∈ statementsRoles (bindProgram ⟨.primitive, none⟩ p).tree, ∃ container err,
        q.2.assignedContainer? = some container ∧
        Eval.failure? (Eval.expr (Eval.callFunction 8) container) .empty = some err ∧
        Eval.failure? (Eval.expr (Eval.callFunction 8) q.2) .empty ≠ some err := by
  have hrun : (parseProgram "var n = 0; var a = [10, 20]; a[n++] = n; a").toOption.any (fun p ↦
      (bindProgram ⟨.primitive, none⟩ p).answer.toOption == some (.array .int) &&
      (statementsRoles (bindProgram ⟨.primitive, none⟩ p).tree).any fun q ↦
        q.2.assignedContainer?.any fun container ↦
          (Eval.failure? (Eval.expr (Eval.callFunction 8) container) .empty).any fun err ↦
            Eval.failure? (Eval.expr (Eval.callFunction 8) q.2) .empty != some err) = true := by
    decide +kernel
  obtain ⟨p, hp, hrun⟩ := (Option.any_eq_true _ _).mp hrun
  rw [Bool.and_eq_true, beq_iff_eq, List.any_eq_true] at hrun
  obtain ⟨hty, q, hq, hrun⟩ := hrun
  obtain ⟨container, hcontainer, hrun⟩ := (Option.any_eq_true _ _).mp hrun
  obtain ⟨err, herr, hne⟩ := (Option.any_eq_true _ _).mp hrun
  exact ⟨p, ok_of_toOption hp, ok_of_toOption hty, q, hq, container, err, hcontainer, herr,
    bne_iff_ne.mp hne⟩

/-- **Which part of an element's assignment comes first.** For every assignment `c[i] = v` of a
bound program: evaluating it begins with the value, then the container, then the index; its code is
that of the container, that of the index and that of the value, the last two with their conversions,
and then the store. -/
theorem index_assignment_order (c : BindContext) {source : String} {p : Program} {ty : Ty}
    (hparse : parseProgram source = .ok p) (hbind : (bindProgram c p).answer = .ok ty) :
    ∀ q ∈ statementsRoles (bindProgram c p).tree, ∀ n target v k m container args t,
      q.2 = .assign n target v k → target.ungrouped = .index m container args t →
      ∃ i c₁ c₂, args = [i] ∧
        (∀ invoke, Eval.Begins invoke q.2 [v, container, i]) ∧
        Code.expr c.registry q.2 =
          Code.expr c.registry container ++ (Code.expr c.registry i ++ .conversion? c₁)
            ++ (Code.expr c.registry v ++ .conversion? c₂)
            ++ .put (.dupUnder 2) ++ .put .storeElement := by
  intro q hq n target v k m container args t hassign htarget
  obtain ⟨htyped, -⟩ := BindContext.typedProgram_of_gives (written_of_parseProgram hparse)
    (BindContext.gives_bindProgram hbind)
  have hfits := htyped.fits q hq
  obtain ⟨role, e⟩ := q
  obtain rfl : e = .assign n target v k := hassign
  cases hfits with
  | value ht =>
    cases ht with
    | assign ht hv hset hc hn =>
      obtain ⟨i, element, c₁, rfl, rfl⟩ := ht.index_of_isAssignable hset htarget
      exact ⟨i, c₁, _, rfl, fun invoke ↦ Eval.begins_assign_index htarget,
        Code.expr_assign_index htarget⟩
  | declaration ht => cases ht
  | typeName ht => cases ht
  | bareName ht => cases ht
  | owned ht => cases ht
  | bareChain ht => cases ht

/-- The parts of `a[n++] = n`: evaluation begins with `n`, the code with `a`. -/
theorem index_assignment_order_of_counter :
    ∃ p, parseProgram "var n = 0; var a = [10, 20]; a[n++] = n; a" = .ok p ∧
      ∃ q ∈ statementsRoles (bindProgram ⟨.primitive, none⟩ p).tree,
        ∃ n target v k m container i t c₁ c₂, q.2 = .assign n target v k ∧
          target.ungrouped = .index m container [i] t ∧
          (∀ invoke, Eval.Begins invoke q.2 [v, container, i]) ∧
          Code.expr .primitive q.2 =
            Code.expr .primitive container ++ (Code.expr .primitive i ++ .conversion? c₁)
              ++ (Code.expr .primitive v ++ .conversion? c₂)
              ++ .put (.dupUnder 2) ++ .put .storeElement := by
  obtain ⟨p, hparse, hbind, q, hq, container, -, hcontainer, -, -⟩ := exists_assignment_of_counter
  obtain ⟨n, target, v, k, m, i, ty, c, hassign, htarget⟩ :=
    Expr.of_assignedContainer? hcontainer
  obtain ⟨_, c₁, c₂, hi, hbegins, hcode⟩ := index_assignment_order ⟨.primitive, none⟩ hparse hbind
    q hq n target v k m container [i] _ hassign htarget
  cases hi
  exact ⟨p, hparse, q, hq, n, target, v, k, m, container, i, _, c₁, c₂, hassign, htarget, hbegins,
    hcode⟩

/-- Evaluating that assignment does not begin with its container, which its code does. -/
theorem index_assignment_order_differs :
    ∃ p, parseProgram "var n = 0; var a = [10, 20]; a[n++] = n; a" = .ok p ∧
      (bindProgram ⟨.primitive, none⟩ p).answer = .ok (.array .int) ∧
      ∃ q ∈ statementsRoles (bindProgram ⟨.primitive, none⟩ p).tree,
        ∃ n target v k m container i t, q.2 = .assign n target v k ∧
          target.ungrouped = .index m container [i] t ∧
          (∃ c₁ c₂, Code.expr .primitive q.2 =
            Code.expr .primitive container ++ (Code.expr .primitive i ++ .conversion? c₁)
              ++ (Code.expr .primitive v ++ .conversion? c₂)
              ++ .put (.dupUnder 2) ++ .put .storeElement) ∧
          ¬Eval.Begins (Eval.callFunction 8) q.2 [container, i, v] := by
  obtain ⟨p, hparse, hbind, ⟨role, e⟩, hq, container, err, hcontainer, herr, hne⟩ :=
    exists_assignment_of_counter
  obtain ⟨n, target, v, k, m, i, ty, c, rfl, htarget⟩ := Expr.of_assignedContainer? hcontainer
  exact ⟨p, hparse, hbind, (role, _), hq, n, target, v, k, m, container, i, _, rfl, htarget,
    ⟨c, _, Code.expr_assign_index htarget⟩, fun hbegins ↦ hne (hbegins.failure?_eq herr)⟩

end Scriptlet
