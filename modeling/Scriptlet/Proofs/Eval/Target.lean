import Mathlib.Data.List.Induction
import Scriptlet.Proofs.Eval.Path

/-!
# Elements as targets

An element `c[i₁]…[iₖ]` is written back through its containers: the innermost one is read, changed
and assigned in its turn, which reads the next one, until the outermost is assigned to its variable.
Every such reading evaluates the container and the indices up to it anew. An increment or decrement
reads the element first, so it evaluates the whole target once more.

The theory here says this exactly, and says when nothing comes of it. What a target *locates* is
found by evaluating its container and its indices once, from left to right; it is *settled* if
evaluating them again would find the same and change nothing. A target whose repeated parts are
settled when they are repeated is written as if it had been evaluated once. With side effects
between the brackets it is not, as soon as anything is repeated.
-/

namespace Scriptlet

/-- The expression is `c`, which is no index itself, with brackets behind it, each around one
expression, and perhaps with parentheses around any part from `c` on. -/
inductive Expr.Bracketed (c : Expr) : Expr → List Expr → Prop where
  | container (hc : ∀ n e args t, c.ungrouped ≠ .index n e args t) : Bracketed c c []
  | group {n : Node} {e : Expr} {is : List Expr} {t : Option OperatorTarget}
      (h : Bracketed c e is) : Bracketed c (.unary n .group e t) is
  | index {n : Node} {e i : Expr} {is : List Expr} {t : Option CallTarget}
      (h : Bracketed c e is) : Bracketed c (.index n e [i] t) (is ++ [i])

namespace Eval

variable {invoke : String → List Value → Location → Eval Value} {c e i target : Expr}
  {is : List Expr} {env env₁ env' : Environment} {v w root : Value} {path : List Nat} {k : Nat}
  {l : Location}

/-! ## Locating an element -/

theorem exprs_append_singleton {es : List Expr} {vs : List Value} :
    exprs invoke (es ++ [e]) env = (.ok vs, env') ↔ ∃ us w env₁,
      exprs invoke es env = (.ok us, env₁) ∧ expr invoke e env₁ = (.ok w, env') ∧
        vs = us ++ [w] := by
  induction es generalizing env env' vs with
  | nil =>
    simp only [List.nil_append, exprs, bind_eq_ok_iff, pure_eq_ok_iff]
    constructor
    · rintro ⟨w, _, hw, _, _, ⟨rfl, rfl⟩, rfl, rfl⟩
      exact ⟨[], w, env, ⟨rfl, rfl⟩, hw, rfl⟩
    · rintro ⟨_, w, _, ⟨rfl, rfl⟩, hw, rfl⟩
      exact ⟨w, env', hw, [], env', ⟨rfl, rfl⟩, rfl, rfl⟩
  | cons d es ih =>
    simp only [List.cons_append, exprs, bind_eq_ok_iff, pure_eq_ok_iff, ih]
    constructor
    · rintro ⟨u, env₁, hu, _, _, ⟨us, w, env₂, hus, hw, rfl⟩, rfl, rfl⟩
      exact ⟨u :: us, w, env₂, ⟨u, env₁, hu, us, env₂, hus, rfl, rfl⟩, hw, rfl⟩
    · rintro ⟨_, w, _, ⟨u, env₁, hu, us, env₂, hus, rfl, rfl⟩, hw, rfl⟩
      exact ⟨u, env₁, hu, us ++ [w], env', ⟨us, w, _, hus, hw, rfl⟩, rfl, rfl⟩

/-- Evaluating the container and then the indices, each of them once, gives this root and values
that stand for these positions. -/
def Locates (invoke : String → List Value → Location → Eval Value) (c : Expr) (is : List Expr)
    (env : Environment) (root : Value) (path : List Nat) (env' : Environment) : Prop :=
  ∃ env₁ ws, expr invoke c env = (.ok root, env₁) ∧ exprs invoke is env₁ = (.ok ws, env') ∧
    List.Forall₂ Value.IsIndex ws path

theorem locates_nil :
    Locates invoke c [] env root path env' ↔ path = [] ∧ expr invoke c env = (.ok root, env') := by
  simp only [Locates, exprs, pure_eq_ok_iff]
  constructor
  · rintro ⟨_, _, hroot, ⟨rfl, rfl⟩, hpath⟩
    exact ⟨List.forall₂_nil_left_iff.mp hpath, hroot⟩
  · rintro ⟨rfl, hroot⟩
    exact ⟨env', [], hroot, ⟨rfl, rfl⟩, .nil⟩

theorem locates_append_singleton :
    Locates invoke c (is ++ [i]) env root path env' ↔ ∃ path' k w env₁, path = path' ++ [k] ∧
      Locates invoke c is env root path' env₁ ∧ expr invoke i env₁ = (.ok w, env') ∧
        w.IsIndex k := by
  simp only [Locates, exprs_append_singleton]
  constructor
  · rintro ⟨env₀, _, hroot, ⟨us, w, env₁, hus, hw, rfl⟩, hpath⟩
    obtain ⟨path', k, hpath', hk, rfl⟩ := forall₂_append_singleton.mp hpath
    exact ⟨path', k, w, env₁, rfl, ⟨env₀, us, hroot, hus, hpath'⟩, hw, hk⟩
  · rintro ⟨path', k, w, env₁, rfl, ⟨env₀, us, hroot, hus, hpath'⟩, hw, hk⟩
    exact ⟨env₀, us ++ [w], hroot, ⟨us, w, env₁, hus, hw, rfl⟩,
      forall₂_append_singleton.mpr ⟨path', k, hpath', hk, rfl⟩⟩

theorem indexArg_eq_ok_iff {j : Int64} :
    indexArg invoke [i] l env = (.ok j, env') ↔
      ∃ w, expr invoke i env = (.ok w, env') ∧ w.intArg "[]" l = .ok j := by
  simp only [indexArg, bind_eq_ok_iff, lift_eq_ok_iff]
  constructor
  · rintro ⟨w, _, hw, hj, rfl⟩
    exact ⟨w, hw, hj⟩
  · rintro ⟨w, hw, hj⟩
    exact ⟨w, env', hw, hj, rfl⟩

theorem expr_bracketed (h : c.Bracketed target is) :
    expr invoke target env = (.ok w, env') ↔
      ∃ root path, Locates invoke c is env root path env' ∧ root.at? path = some w := by
  induction h generalizing w env' with
  | container hc => simp [locates_nil, Value.at?]
  | group h ih =>
    rw [expr, ← ih, bind_eq_ok_iff]
    simp [bind_eq_ok_iff, lift_eq_ok_iff, pure_eq_ok_iff, Value.unary, UnaryOp.isMutating]
  | @index n e i is t h ih =>
    simp only [expr, bind_eq_ok_iff, lift_eq_ok_iff, indexArg_eq_ok_iff, ih,
      locates_append_singleton]
    constructor
    · rintro ⟨u, env₁, ⟨root, path, hroot, hu⟩, j, _, ⟨w', hw', hj⟩, hw, rfl⟩
      obtain ⟨k, hk, hw⟩ := Value.element_eq_ok_iff.mp hw
      refine ⟨root, path ++ [k], ⟨path, k, w', env₁, rfl, hroot, hw',
        Value.isIndex_iff.mpr ⟨j, hj, hk⟩⟩, ?_⟩
      rw [Value.at?_append_singleton, hu, Option.bind_some, hw]
    · rintro ⟨root, _, ⟨path, k, w', env₁, rfl, hroot, hw', hk⟩, hw⟩
      rw [Value.at?_append_singleton] at hw
      obtain ⟨u, hu, hw⟩ := Option.bind_eq_some_iff.mp hw
      obtain ⟨j, hj, hjk⟩ := Value.isIndex_iff.mp hk
      exact ⟨u, env₁, ⟨root, path, hroot, hu⟩, j, env', ⟨w', hw', hj⟩,
        Value.element_eq_ok_iff.mpr ⟨k, hjk, hw⟩, rfl⟩

/-! ## Writing back -/

/-- Writing a value to the container with these brackets behind it, from the last pair of brackets
to the first. For each pair the container and all indices up to it are evaluated; the value goes
into the innermost container so found, and this, changed, is written to the rest. -/
inductive WritesBack (invoke : String → List Value → Location → Eval Value) (c : Expr)
    (l : Location) : List Expr → Value → Environment → Environment → Prop where
  | container {v : Value} {env env' : Environment}
      (h : assign invoke c v l env = (.ok (), env')) : WritesBack invoke c l [] v env env'
  | element {is : List Expr} {i : Expr} {v w root : Value} {path : List Nat} {k : Nat}
      {env env₁ env' : Environment}
      (hlocates : Locates invoke c (is ++ [i]) env root (path ++ [k]) env₁)
      (hw : root.at? path = some w) (hv : v.GoesInto w [k])
      (h : WritesBack invoke c l is (v.putInto w [k]) env₁ env') :
      WritesBack invoke c l (is ++ [i]) v env env'

theorem writesBack_nil :
    WritesBack invoke c l [] v env env' ↔ assign invoke c v l env = (.ok (), env') := by
  refine ⟨fun h ↦ ?_, .container⟩
  generalize his : ([] : List Expr) = is at h
  cases h with
  | container h => exact h
  | element => simp at his

theorem writesBack_append_singleton :
    WritesBack invoke c l (is ++ [i]) v env env' ↔ ∃ root path k w env₁,
      Locates invoke c (is ++ [i]) env root (path ++ [k]) env₁ ∧ root.at? path = some w ∧
        v.GoesInto w [k] ∧ WritesBack invoke c l is (v.putInto w [k]) env₁ env' := by
  constructor
  · intro h
    generalize his : is ++ [i] = js at h
    cases h with
    | container h => simp at his
    | element hlocates hw hv h =>
      obtain ⟨rfl, rfl⟩ := List.append_singleton_inj.mp his
      exact ⟨_, _, _, _, _, hlocates, hw, hv, h⟩
  · rintro ⟨root, path, k, w, env₁, hlocates, hw, hv, h⟩
    exact .element hlocates hw hv h

theorem assign_bracketed (h : c.Bracketed target is) :
    assign invoke target v l env = (.ok (), env') ↔ WritesBack invoke c l is v env env' := by
  induction h generalizing v env with
  | container hc => exact writesBack_nil.symm
  | group h ih =>
    rw [assign]
    exact ih
  | @index n e i is t h ih =>
    simp only [assign, bind_eq_ok_iff, lift_eq_ok_iff, indexArg_eq_ok_iff, expr_bracketed h, ih,
      writesBack_append_singleton, locates_append_singleton]
    constructor
    · rintro ⟨u, env₁, ⟨root, path, hroot, hu⟩, j, env₂, ⟨w, hw, hj⟩, _, _, ⟨hset, rfl⟩, hback⟩
      obtain ⟨k, hk, hv, rfl⟩ := Value.setElement_eq_ok_iff.mp hset
      exact ⟨root, path, k, u, _, ⟨path, k, w, env₁, rfl, hroot, hw,
        Value.isIndex_iff.mpr ⟨j, hj, hk⟩⟩, hu, hv, hback⟩
    · rintro ⟨root, path, k, u, env₂, ⟨path', k', w, env₁, hpath, hroot, hw, hk⟩, hu, hv, hback⟩
      obtain ⟨rfl, rfl⟩ := List.append_singleton_inj.mp hpath
      obtain ⟨j, hj, hjk⟩ := Value.isIndex_iff.mp hk
      exact ⟨u, env₁, ⟨root, path, hroot, hu⟩, j, _, ⟨w, hw, hj⟩, _, _,
        ⟨Value.setElement_eq_ok_iff.mpr ⟨k, hjk, hv, rfl⟩, rfl⟩, hback⟩

/-! ## Evaluating a target once -/

/-- The container and the indices are evaluated once, and the value is written to the element of the
root that they locate. -/
def WritesOnce (invoke : String → List Value → Location → Eval Value) (c : Expr) (l : Location)
    (is : List Expr) (v : Value) (env env' : Environment) : Prop :=
  ∃ root path env₁, Locates invoke c is env root path env₁ ∧ v.GoesInto root path ∧
    assign invoke c (v.putInto root path) l env₁ = (.ok (), env')

/-- The container and each index still have the root for a value and stand for the positions, and
evaluating them changes nothing. -/
def Settled (invoke : String → List Value → Location → Eval Value) (c : Expr) (is : List Expr)
    (env : Environment) (root : Value) (path : List Nat) : Prop :=
  expr invoke c env = (.ok root, env) ∧
    List.Forall₂ (fun i k ↦ ∃ w, expr invoke i env = (.ok w, env) ∧ w.IsIndex k) is path

theorem settled_append_singleton :
    Settled invoke c (is ++ [i]) env root path ↔ ∃ path' k, path = path' ++ [k] ∧
      Settled invoke c is env root path' ∧ ∃ w, expr invoke i env = (.ok w, env) ∧ w.IsIndex k := by
  rw [Settled, forall₂_append_singleton]
  constructor
  · rintro ⟨hc, path', k, his, hi, rfl⟩
    exact ⟨path', k, rfl, ⟨hc, his⟩, hi⟩
  · rintro ⟨path', k, rfl, ⟨hc, his⟩, hi⟩
    exact ⟨hc, path', k, his, hi, rfl⟩

theorem Settled.locates (h : Settled invoke c is env root path) :
    Locates invoke c is env root path env := by
  induction is using List.reverseRecOn generalizing path with
  | nil => exact locates_nil.mpr ⟨List.forall₂_nil_left_iff.mp h.2, h.1⟩
  | append_singleton is i ih =>
    obtain ⟨path', k, rfl, his, w, hw, hk⟩ := settled_append_singleton.mp h
    exact locates_append_singleton.mpr ⟨path', k, w, env, rfl, ih his, hw, hk⟩

theorem Locates.eq_nil (h : Locates invoke c is env root [] env') : is = [] := by
  rcases List.eq_nil_or_concat' is with rfl | ⟨is, i, rfl⟩
  · rfl
  · obtain ⟨path, k, _, _, hpath, -⟩ := locates_append_singleton.mp h
    simp at hpath

theorem isIndex_unique {k' : Nat} (h : w.IsIndex k) (h' : w.IsIndex k') : k = k' := by
  cases h with
  | int hk =>
    cases h' with
    | int hk' => exact Int.ofNat.inj (hk.symm.trans hk')
  | char c =>
    cases h' with
    | char _ => rfl

/-- What the container and the indices locate, and where evaluating them leads, is determined. -/
theorem Locates.unique {root' : Value} {path' : List Nat} {env₂ : Environment}
    (h : Locates invoke c is env root path env₁) (h' : Locates invoke c is env root' path' env₂) :
    root = root' ∧ path = path' ∧ env₁ = env₂ := by
  obtain ⟨env₀, ws, hroot, hws, hpath⟩ := h
  obtain ⟨_, ws', hroot', hws', hpath'⟩ := h'
  obtain ⟨hvalue, rfl⟩ := Prod.mk.inj (hroot.symm.trans hroot')
  obtain rfl := Except.ok.inj hvalue
  obtain ⟨hvalues, rfl⟩ := Prod.mk.inj (hws.symm.trans hws')
  obtain rfl := Except.ok.inj hvalues
  have hunique : Relator.RightUnique Value.IsIndex := fun _ _ _ h h' ↦ isIndex_unique h h'
  exact ⟨rfl, hunique.forall₂ hpath hpath', rfl⟩

theorem Settled.writesBack_iff (h : Settled invoke c is env root path) :
    WritesBack invoke c l is v env env' ↔ (is ≠ [] → v.GoesInto root path) ∧
      assign invoke c (v.putInto root path) l env = (.ok (), env') := by
  induction is using List.reverseRecOn generalizing path v with
  | nil =>
    obtain rfl := List.forall₂_nil_left_iff.mp h.2
    simp [writesBack_nil, Value.putInto]
  | append_singleton is i ih =>
    obtain ⟨path, k, rfl, his, -⟩ := settled_append_singleton.mp h
    rw [writesBack_append_singleton]
    constructor
    · rintro ⟨root', path', k', w, env₁, hlocates, hw, hv, hback⟩
      obtain ⟨rfl, hpath, rfl⟩ := h.locates.unique hlocates
      obtain ⟨rfl, rfl⟩ := List.append_singleton_inj.mp hpath
      obtain ⟨-, hassign⟩ := (ih his).mp hback
      rw [Value.putInto_append_singleton hw hv]
      exact ⟨fun _ ↦ Value.goesInto_append_singleton.mpr ⟨w, hw, hv⟩, hassign⟩
    · rintro ⟨hinto, hassign⟩
      obtain ⟨w, hw, hv⟩ := Value.goesInto_append_singleton.mp (hinto (by simp))
      rw [Value.putInto_append_singleton hw hv] at hassign
      refine ⟨root, path, k, w, env, h.locates, hw, hv, (ih his).mpr ⟨fun hne ↦ ?_, hassign⟩⟩
      refine Value.goesInto_of_at? hw hv ?_
      rintro rfl
      exact hne (List.forall₂_nil_right_iff.mp his.2)

/-- If no index is evaluated again, or all that are evaluated again are settled then, writing back
is writing once. -/
theorem writesBack_iff_writesOnce
    (hagain : ∀ root path k env₁, Locates invoke c (is ++ [i]) env root (path ++ [k]) env₁ →
      is = [] ∨ Settled invoke c is env₁ root path) :
    WritesBack invoke c l (is ++ [i]) v env env' ↔
      WritesOnce invoke c l (is ++ [i]) v env env' := by
  -- a container with the new element goes back to where it was read
  have hback : ∀ {root path k env₁} (u : Value),
      Locates invoke c (is ++ [i]) env root (path ++ [k]) env₁ →
      (WritesBack invoke c l is u env₁ env' ↔ (is ≠ [] → u.GoesInto root path) ∧
        assign invoke c (u.putInto root path) l env₁ = (.ok (), env')) := by
    intro root path k env₁ u hlocates
    rcases hagain _ _ _ _ hlocates with rfl | hsettled
    · obtain ⟨path', _, _, _, hpath, hroot, -⟩ := locates_append_singleton.mp hlocates
      obtain ⟨rfl, -⟩ := List.append_singleton_inj.mp hpath
      obtain ⟨rfl, -⟩ := locates_nil.mp hroot
      simp [writesBack_nil, Value.putInto]
    · exact hsettled.writesBack_iff
  constructor
  · intro h
    obtain ⟨root, path, k, w, env₁, hlocates, hw, hv, h⟩ := writesBack_append_singleton.mp h
    obtain ⟨-, hassign⟩ := (hback _ hlocates).mp h
    rw [← Value.putInto_append_singleton hw hv] at hassign
    exact ⟨root, path ++ [k], env₁, hlocates, Value.goesInto_append_singleton.mpr ⟨w, hw, hv⟩,
      hassign⟩
  · rintro ⟨root, _, env₁, hlocates, hinto, hassign⟩
    obtain ⟨path, k, _, _, rfl, hroot, -⟩ := locates_append_singleton.mp hlocates
    obtain ⟨w, hw, hv⟩ := Value.goesInto_append_singleton.mp hinto
    rw [Value.putInto_append_singleton hw hv] at hassign
    refine .element hlocates hw hv ((hback _ hlocates).mpr ⟨fun hne ↦ ?_, hassign⟩)
    refine Value.goesInto_of_at? hw hv ?_
    rintro rfl
    exact hne hroot.eq_nil

/-! ## Assignments and steps -/

/-- The value is that of the expression, and it is written to an element by evaluating the container
and the indices once. -/
def AssignsOnce (invoke : String → List Value → Location → Eval Value) (c : Expr) (l : Location)
    (is : List Expr) (e : Expr) (v : Value) (env env' : Environment) : Prop :=
  ∃ env₀, expr invoke e env = (.ok v, env₀) ∧ WritesOnce invoke c l is v env₀ env'

/-- The container and the indices are evaluated once; the element that they locate is stepped and
written in its place, and the value is the old or the new one. -/
def StepsOnce (invoke : String → List Value → Location → Eval Value) (c : Expr) (l : Location)
    (is : List Expr) (op : UnaryOp) (v : Value) (env env' : Environment) : Prop :=
  ∃ root path u w env₁, Locates invoke c is env root path env₁ ∧ root.at? path = some u ∧
    u.unary op l = .ok w ∧ v = (if op = .postInc ∨ op = .postDec then u else w) ∧
      w.GoesInto root path ∧ assign invoke c (w.putInto root path) l env₁ = (.ok (), env')

theorem expr_assign_bracketed {n : Node} {t : Option (Option Conversion)}
    (h : c.Bracketed target is) :
    expr invoke (.assign n target e t) env = (.ok v, env') ↔
      ∃ env₀, expr invoke e env = (.ok v, env₀) ∧
        WritesBack invoke c n.location is v env₀ env' := by
  simp only [expr, bind_eq_ok_iff, pure_eq_ok_iff]
  constructor
  · rintro ⟨u, env₀, hu, _, _, hassign, rfl, rfl⟩
    exact ⟨env₀, hu, (assign_bracketed h).mp hassign⟩
  · rintro ⟨env₀, hu, hback⟩
    exact ⟨v, env₀, hu, (), env', (assign_bracketed h).mpr hback, rfl, rfl⟩

theorem expr_step_bracketed {n : Node} {op : UnaryOp} {t : Option OperatorTarget}
    (hop : op.isMutating) (h : c.Bracketed target is) :
    expr invoke (.unary n op target t) env = (.ok v, env') ↔
      ∃ root path u w env₁, Locates invoke c is env root path env₁ ∧ root.at? path = some u ∧
        u.unary op n.location = .ok w ∧ v = (if op = .postInc ∨ op = .postDec then u else w) ∧
          WritesBack invoke c n.location is w env₁ env' := by
  simp only [expr, bind_eq_ok_iff, lift_eq_ok_iff, expr_bracketed h, hop, if_true, pure_eq_ok_iff]
  constructor
  · rintro ⟨u, env₁, ⟨root, path, hroot, hu⟩, w, _, ⟨hw, rfl⟩, _, _, hassign, rfl, rfl⟩
    exact ⟨root, path, u, w, _, hroot, hu, hw, rfl, (assign_bracketed h).mp hassign⟩
  · rintro ⟨root, path, u, w, env₁, hroot, hu, hw, rfl, hback⟩
    exact ⟨u, env₁, ⟨root, path, hroot, hu⟩, w, env₁, ⟨hw, rfl⟩, (), env',
      (assign_bracketed h).mpr hback, rfl, rfl⟩

/-- **What an element's target is evaluated for.** An assignment to `c[i₁]…[iₖ]` evaluates the value
and then, for each pair of brackets from the last to the first, the container and all indices up to
it; an increment or decrement evaluates the container and all indices once more before. So with one
pair of brackets an assignment evaluates its target once. With more, or for an increment or
decrement, it is as if the target were evaluated once if what is evaluated again is settled then. -/
theorem index_target_evaluated (invoke : String → List Value → Location → Eval Value)
    {c i target : Expr} {is : List Expr} (h : c.Bracketed target (is ++ [i]))
    (env env' : Environment) (v : Value) (n : Node) :
    (∀ e t, expr invoke (.assign n target e t) env = (.ok v, env') ↔
      ∃ env₀, expr invoke e env = (.ok v, env₀) ∧
        WritesBack invoke c n.location (is ++ [i]) v env₀ env') ∧
    (∀ op t, op.isMutating → (expr invoke (.unary n op target t) env = (.ok v, env') ↔
      ∃ root path u w env₁, Locates invoke c (is ++ [i]) env root path env₁ ∧
        root.at? path = some u ∧ u.unary op n.location = .ok w ∧
        v = (if op = .postInc ∨ op = .postDec then u else w) ∧
        WritesBack invoke c n.location (is ++ [i]) w env₁ env')) ∧
    (∀ e t, (∀ env₀ root path k env₁, expr invoke e env = (.ok v, env₀) →
        Locates invoke c (is ++ [i]) env₀ root (path ++ [k]) env₁ →
          is = [] ∨ Settled invoke c is env₁ root path) →
      (expr invoke (.assign n target e t) env = (.ok v, env') ↔
        AssignsOnce invoke c n.location (is ++ [i]) e v env env')) ∧
    (∀ op t, op.isMutating → (∀ root path env₁, Locates invoke c (is ++ [i]) env root path env₁ →
        Settled invoke c (is ++ [i]) env₁ root path) →
      (expr invoke (.unary n op target t) env = (.ok v, env') ↔
        StepsOnce invoke c n.location (is ++ [i]) op v env env')) := by
  refine ⟨fun e t ↦ expr_assign_bracketed h, fun op t hop ↦ expr_step_bracketed hop h,
    fun e t hsettled ↦ ?_, fun op t hop hsettled ↦ ?_⟩
  · rw [expr_assign_bracketed h, AssignsOnce]
    refine exists_congr fun env₀ ↦ and_congr_right fun hv ↦ writesBack_iff_writesOnce ?_
    exact fun root path k env₁ ↦ hsettled env₀ root path k env₁ hv
  · rw [expr_step_bracketed hop h, StepsOnce]
    refine exists_congr fun root ↦ exists_congr fun path ↦ exists_congr fun u ↦
      exists_congr fun w ↦ exists_congr fun env₁ ↦ and_congr_right fun hlocates ↦ ?_
    rw [(hsettled root path env₁ hlocates).writesBack_iff]
    simp

/-- In `a[n++] = 5` the counter is stepped once, and the row that it stood for is written. -/
theorem index_target_evaluated_of_counter :
    let rows := [.array [.int 10, .int 20], .array [.int 1, .int 2]]
    let env := (Environment.empty.define "n" (.int 0)).define "a" (.array rows)
    let a := Expr.name (.at .start) "a"
    let counter := Expr.unary (.at .start) .postInc (.name (.at .start) "n") none
    let five := Expr.literal (.at .start) (.int 5)
    let assignment := Expr.assign (.at .start) (.index (.at .start) a [counter] none) five none
    ∃ env', expr (callFunction 8) assignment env = (.ok (.int 5), env') ∧
      AssignsOnce (callFunction 8) a .start [counter] five (.int 5) env env' ∧
      env'.valueOf? "n" = some (.int 1) ∧
      env'.valueOf? "a" = some (.array [.int 5, .array [.int 1, .int 2]]) := by
  intro rows env a counter five assignment
  have hbracketed : a.Bracketed (.index (.at .start) a [counter] none) ([] ++ [counter]) :=
    .index (.container fun _ _ _ _ h ↦ by cases h)
  have hrun : expr (callFunction 8) assignment env = (.ok (.int 5), _) := rfl
  obtain ⟨-, -, honce, -⟩ := index_target_evaluated (callFunction 8) hbracketed env
    (expr (callFunction 8) assignment env).2 (.int 5) (.at .start)
  exact ⟨_, hrun, (honce five none fun _ _ _ _ _ _ _ ↦ .inl rfl).mp hrun, by decide +kernel,
    by decide +kernel⟩

/-- In `a[n++][0] = 5` the row is located again before it is written back, so the counter is stepped
twice and the changed row takes the place of the next one. In `a[n++]++` the row that is written is
not the one that was read. -/
theorem index_target_evaluated_again :
    let env := (Environment.empty.define "n" (.int 0)).define "a"
      (.array [.array [.int 10, .int 20], .array [.int 1, .int 2]])
    let counts := (Environment.empty.define "n" (.int 0)).define "a" (.array [.int 10, .int 20])
    let a := Expr.name (.at .start) "a"
    let counter := Expr.unary (.at .start) .postInc (.name (.at .start) "n") none
    let zero := Expr.literal (.at .start) (.int 0)
    let five := Expr.literal (.at .start) (.int 5)
    let row := Expr.index (.at .start) a [counter] none
    (∃ env', expr (callFunction 8) (.assign (.at .start) (.index (.at .start) row [zero] none) five
          none) env = (.ok (.int 5), env') ∧
        env'.valueOf? "a" = some (.array [.array [.int 10, .int 20], .array [.int 5, .int 20]]) ∧
        ¬AssignsOnce (callFunction 8) a .start [counter, zero] five (.int 5) env env') ∧
      ∃ env', expr (callFunction 8) (.unary (.at .start) .postInc row none) counts
          = (.ok (.int 10), env') ∧
        env'.valueOf? "a" = some (.array [.int 10, .int 11]) ∧
        ¬StepsOnce (callFunction 8) a .start [counter] .postInc (.int 10) counts env' := by
  intro env counts a counter zero five row
  refine ⟨⟨_, rfl, by decide +kernel, ?_⟩, _, rfl, by decide +kernel, ?_⟩
  · rintro ⟨env₀, hfive, root, path, env₁, hlocates, -, hassign⟩
    obtain ⟨-, rfl⟩ := Prod.mk.inj hfive
    have hfirst : Locates (callFunction 8) a [counter, zero] env _ [0, 0] _ :=
      ⟨_, [.int 0, .int 0], rfl, rfl, .cons (.int rfl) (.cons (.int rfl) .nil)⟩
    obtain ⟨rfl, rfl, rfl⟩ := hfirst.unique hlocates
    exact absurd (congrArg (fun r ↦ r.2.valueOf? "n") hassign) (by decide +kernel)
  · rintro ⟨root, path, u, w, env₁, hlocates, hu, hw, -, -, hassign⟩
    have hfirst : Locates (callFunction 8) a [counter] counts _ [0] _ :=
      ⟨_, [.int 0], rfl, rfl, .cons (.int rfl) .nil⟩
    obtain ⟨rfl, rfl, rfl⟩ := hfirst.unique hlocates
    obtain rfl : Value.int 10 = u := Option.some.inj hu
    obtain rfl : Value.int 11 = w := Except.ok.inj hw
    exact absurd (congrArg (fun r ↦ r.2.valueOf? "n") hassign) (by decide +kernel)

end Eval

end Scriptlet
