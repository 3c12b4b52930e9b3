import Mathlib.Data.List.Forall2
import Scriptlet.Eval.Call
import Scriptlet.Proofs.Environment.Rewrite
import Scriptlet.Proofs.Tree.Everywhere
import Scriptlet.Proofs.Value.Path

/-!
# Assignments at paths

An element of an array in an array is written from the inside out: its container is read, changed
and written in its turn, and for each container the path to it is evaluated again. If the
expressions between the brackets change nothing, then each evaluation of the path finds the same
containers and the same positions, and no write happens but the last one, to the variable. So the
whole is one replacement in the value of the variable, and a failure comes before any write.
-/

namespace Scriptlet

/-! ## Expressions that change nothing -/

/-- The expression has a form that can change an environment. -/
def Expr.acts : Expr → Bool
  | .call .. | .assign .. | .coalesce .. | .declare .. | .block .. => true
  | .unary _ op _ _ => op.isMutating
  | _ => false

/-- Nothing in the expression has a form that can change an environment. -/
def Expr.IsQuiet (e : Expr) : Prop := e.Everywhere (fun e ↦ e.acts = false) fun _ ↦ True

instance : DecidablePred Expr.IsQuiet := fun e ↦
  e.decideEverywhere (fun e ↦ e.acts = false) fun _ ↦ True

namespace Eval

variable {α β : Type}

/-- The computation changes nothing. -/
def Quiet (m : Eval α) : Prop := ∀ env, (m env).2 = env

namespace Quiet

theorem lift (r : Except EvalError α) : Quiet (lift r) := fun _ ↦ rfl

theorem pure (a : α) : Quiet (Pure.pure a) := fun _ ↦ rfl

theorem fail (e : EvalError) : Quiet (α := α) (Eval.fail e) := fun _ ↦ rfl

theorem ask (f : Environment → α) : Quiet (ask f) := fun _ ↦ rfl

/-- A computation that changes nothing is followed by another one where it began. -/
theorem bind_apply {m : Eval α} (hm : Quiet m) (k : α → Eval β) (env : Environment) :
    (m >>= k) env = match (m env).1 with
      | .ok a => k a env
      | .error e => (.error e, env) := by
  obtain ⟨r, hr⟩ : ∃ r, m env = (r, env) := ⟨(m env).1, Prod.ext rfl (hm env)⟩
  rw [show (m >>= k) env = Eval.bind m k env from rfl, Eval.bind, hr]
  cases r <;> rfl

theorem bind {m : Eval α} {k : α → Eval β} (hm : Quiet m) (hk : ∀ a, Quiet (k a)) :
    Quiet (m >>= k) := by
  intro env
  rw [hm.bind_apply]
  split
  · exact hk _ env
  · rfl

theorem bind_eq_ok_iff {m : Eval α} (hm : Quiet m) {k : α → Eval β} {env : Environment} {b : β} :
    ((m >>= k) env).1 = .ok b ↔ ∃ a, (m env).1 = .ok a ∧ (k a env).1 = .ok b := by
  rw [hm.bind_apply]
  cases (m env).1 with
  | ok a => simp
  | error e => simp

theorem ite {p : Prop} [Decidable p] {m m' : Eval α} (hm : Quiet m) (hm' : Quiet m') :
    Quiet (if p then m else m') := by
  split
  · exact hm
  · exact hm'

end Quiet

theorem quiet_lookupName (x : String) (l : Location) : Quiet (lookupName x l) := by
  intro env
  rw [lookupName]
  split <;> rfl

theorem quiet_fit (kind : Option Kind) (v : Value) (op : String) (l : Location) :
    Quiet (fit kind v op l) := by
  unfold fit
  split
  · exact .pure v
  · refine .ite (.pure v) ?_
    split
    · exact .pure _
    · exact .fail _

variable {invoke : String → List Value → Location → Eval Value}

theorem quiet_items {kind : Option Kind} {es : List Expr} (hes : ∀ e ∈ es, Quiet (expr invoke e)) :
    Quiet (items invoke kind es) := by
  induction es with
  | nil =>
    rw [items]
    exact .pure []
  | cons e es ih =>
    obtain ⟨he, hes⟩ := List.forall_mem_cons.mp hes
    rw [items]
    exact he.bind fun v ↦ (quiet_fit kind v _ _).bind fun w ↦ (ih hes).bind fun ws ↦ .pure _

theorem quiet_indexArg {args : List Expr} (hargs : ∀ e ∈ args, Quiet (expr invoke e))
    (l : Location) : Quiet (indexArg invoke args l) := by
  unfold indexArg
  split
  · exact (hargs _ List.mem_cons_self).bind fun v ↦ .lift _
  · exact .fail _

/-- An expression without forms that can change an environment changes none. -/
theorem tree_quiet (invoke : String → List Value → Location → Eval Value) :
    Tree.Cases (fun e ↦ e.IsQuiet → Quiet (expr invoke e)) fun _ ↦ True where
  literal n v _ := by rw [expr]; exact .pure _
  null n _ := by rw [expr]; exact .pure _
  empty n _ := by rw [expr]; exact .pure _
  name n x _ := by rw [expr]; exact quiet_lookupName x _
  variableRef n x _ := by rw [expr]; exact .ask _
  constantRef n x _ := by rw [expr]; exact .ask _
  lambda n params body _ _ := by rw [expr]; exact .fail _
  this n _ := by rw [expr]; exact .fail _
  unary n op e t ih h := by
    rw [expr]
    refine (ih h.2).bind fun v ↦ (Quiet.lift _).bind fun w ↦ ?_
    rw [if_neg (by simpa [Expr.acts] using h.1)]
    exact .pure w
  binary n op a b t iha ihb h := by
    rw [expr]
    refine (iha h.2.1).bind fun v ↦ .ite (.pure _) (.ite (.pure _) ?_)
    exact (ihb h.2.2).bind fun w ↦ .lift _
  ternary n x a b v ihx iha ihb h := by
    rw [expr]
    exact (ihx h.2.1).bind fun w ↦ .ite (iha h.2.2.1) (ihb h.2.2.2)
  member n target x ih h := by
    rw [expr]
    exact (ih h.2).bind fun v ↦ .lift _
  index n target args t ih ihs h := by
    rw [expr]
    have hargs := exprsEverywhere_iff.mp h.2.2
    have harg := quiet_indexArg (fun e he ↦ ihs e he (hargs e he)) n.location
    exact (ih h.2.1).bind fun v ↦ harg.bind fun i ↦ .lift _
  array n ty items cs ih h := by
    rw [expr]
    have hitems := exprsEverywhere_iff.mp h.2
    exact (quiet_items fun e he ↦ ih e he (hitems e he)).bind fun vs ↦ .pure _
  new n target args t _ _ _ := by rw [expr]; exact .fail _
  coalesce n a b _ _ h := nomatch h.here
  assign n target v k _ _ h := nomatch h.here
  call n target args t _ _ h := nomatch h.here
  declare n x ty init k _ h := nomatch h.here
  block n body _ h := nomatch h.here
  exprStatement _ _ := trivial
  blockStatement _ _ _ := trivial
  cond _ _ _ _ _ _ _ := trivial
  ret _ _ _ _ := trivial
  throw _ _ _ := trivial
  vars _ _ _ := trivial
  function _ _ _ _ := trivial

theorem quiet_expr {e : Expr} (h : e.IsQuiet) : Quiet (expr invoke e) :=
  (tree_quiet invoke).expr e h

end Eval

/-! ## Paths -/

/-- The expression is a variable with brackets behind it, each around one expression, and perhaps
with parentheses around any part from the variable on. -/
inductive Expr.IsPath (x : String) : Expr → List Expr → Prop where
  | name (n : Node) : IsPath x (.name n x) []
  | variableRef (n : Node) : IsPath x (.variableRef n x) []
  | group {n : Node} {e : Expr} {is : List Expr} {t : Option OperatorTarget} (h : IsPath x e is) :
      IsPath x (.unary n .group e t) is
  | index {n : Node} {e i : Expr} {is : List Expr} {t : Option CallTarget} (h : IsPath x e is) :
      IsPath x (.index n e [i] t) (is ++ [i])

namespace Eval

variable {invoke : String → List Value → Location → Eval Value} {env : Environment} {x : String}
  {target e : Expr} {is : List Expr} {path : List Nat} {k : Nat} {v w root : Value} {l : Location}

variable (invoke env) in
/-- The value of the expression stands for a position. -/
def Indexes (e : Expr) (k : Nat) : Prop := ∃ w, (expr invoke e env).1 = .ok w ∧ w.IsIndex k

theorem indexes_iff (he : e.IsQuiet) :
    Indexes invoke env e k ↔ ∃ j, (indexArg invoke [e] l env).1 = .ok j ∧ j.toInt = k := by
  have hj : ∀ j, (indexArg invoke [e] l env).1 = .ok j ↔
      ∃ w, (expr invoke e env).1 = .ok w ∧ w.intArg "[]" l = .ok j := by
    intro j
    rw [indexArg]
    exact (quiet_expr he).bind_eq_ok_iff
  constructor
  · rintro ⟨w, hw, hk⟩
    obtain ⟨j, hwj, hjk⟩ := Value.isIndex_iff.mp hk
    exact ⟨j, (hj j).mpr ⟨w, hw, hwj⟩, hjk⟩
  · rintro ⟨j, h, hjk⟩
    obtain ⟨w, hw, hwj⟩ := (hj j).mp h
    exact ⟨w, hw, Value.isIndex_iff.mpr ⟨j, hwj, hjk⟩⟩

theorem forall₂_append_singleton {α β : Type} {R : α → β → Prop} {as : List α} {a : α}
    {bs : List β} :
    List.Forall₂ R (as ++ [a]) bs ↔ ∃ bs' b, List.Forall₂ R as bs' ∧ R a b ∧ bs = bs' ++ [b] := by
  induction as generalizing bs with
  | nil => simp [List.forall₂_cons_left_iff, and_comm]
  | cons c as ih =>
    rw [List.cons_append, List.forall₂_cons_left_iff]
    constructor
    · rintro ⟨b', u, hc, hu, rfl⟩
      obtain ⟨bs', b, hbs', hb, rfl⟩ := ih.mp hu
      exact ⟨b' :: bs', b, .cons hc hbs', hb, rfl⟩
    · rintro ⟨_, b, hbs', hb, rfl⟩
      cases hbs' with
      | @cons _ b' _ bs' hc hbs' => exact ⟨b', bs' ++ [b], hc, ih.mpr ⟨bs', b, hbs', hb, rfl⟩, rfl⟩

theorem quiet_path (hpath : target.IsPath x is) (hquiet : ∀ i ∈ is, i.IsQuiet) :
    target.IsQuiet := by
  induction hpath with
  | name n => exact rfl
  | variableRef n => exact rfl
  | group h ih => exact ⟨rfl, ih hquiet⟩
  | index h ih =>
    obtain ⟨his, hi⟩ := List.forall_mem_append.mp hquiet
    exact ⟨rfl, ih his, hi _ List.mem_cons_self, trivial⟩

/-- A path has a value exactly if its indices stand for positions that lead to an element, and then
it has the value of that element. -/
theorem expr_path (hpath : target.IsPath x is) (hquiet : ∀ i ∈ is, i.IsQuiet)
    (hx : env.valueOf? x = some root) :
    (expr invoke target env).1 = .ok w ↔
      ∃ path, List.Forall₂ (Indexes invoke env) is path ∧ root.at? path = some w := by
  induction hpath generalizing w with
  | name n => simp [expr, lookupName, hx, Value.at?]
  | variableRef n => simp [expr, ask, hx, Value.at?]
  | @group n e is t h ih =>
    rw [expr, (quiet_expr (quiet_path h hquiet)).bind_eq_ok_iff, ← ih hquiet]
    simp [Value.unary, UnaryOp.isMutating, (Quiet.lift _).bind_eq_ok_iff, lift, pure, Eval.pure]
  | @index n e i is t h ih =>
    obtain ⟨his, hi⟩ := List.forall_mem_append.mp hquiet
    have hi := hi i List.mem_cons_self
    have harg : Quiet (indexArg invoke [i] n.location) :=
      quiet_indexArg (List.forall_mem_singleton.mpr (quiet_expr hi)) _
    rw [expr, (quiet_expr (quiet_path h his)).bind_eq_ok_iff]
    constructor
    · rintro ⟨c, hc, hw⟩
      obtain ⟨path, hpath, hc⟩ := (ih his).mp hc
      obtain ⟨j, hj, hw⟩ := harg.bind_eq_ok_iff.mp hw
      obtain ⟨k, hk, hw⟩ := Value.element_eq_ok_iff.mp hw
      refine ⟨path ++ [k], forall₂_append_singleton.mpr ⟨path, k, hpath, ?_, rfl⟩, ?_⟩
      · exact (indexes_iff hi).mpr ⟨j, hj, hk⟩
      · rw [Value.at?_append_singleton, hc, Option.bind_some, hw]
    · rintro ⟨_, hpath, hw⟩
      obtain ⟨path', k, hpath', hk, rfl⟩ := forall₂_append_singleton.mp hpath
      obtain ⟨c, hc, hw⟩ := Option.bind_eq_some_iff.mp (Value.at?_append_singleton.symm.trans hw)
      obtain ⟨j, hj, hk⟩ := (indexes_iff hi).mp hk
      refine ⟨c, (ih his).mpr ⟨path', hpath', hc⟩, harg.bind_eq_ok_iff.mpr ⟨j, hj, ?_⟩⟩
      exact Value.element_eq_ok_iff.mpr ⟨k, hk, hw⟩

/-! ## Assignments -/

theorem assignName_of_valueOf? (hx : env.valueOf? x = some root) :
    assignName x v l env = (.ok (), env.assign x v) := by
  simp [assignName, hx, change]

/-- An element is written by three steps that change nothing and the writing of its container. -/
theorem assign_index_apply {n : Node} {i : Expr} {t : Option CallTarget} (he : e.IsQuiet)
    (hi : i.IsQuiet) :
    assign invoke (.index n e [i] t) v l env =
      match (do
        let c ← (expr invoke e env).1
        let j ← (indexArg invoke [i] l env).1
        c.setElement j v l) with
      | .ok u => assign invoke e u l env
      | .error err => (.error err, env) := by
  have harg : Quiet (indexArg invoke [i] l) :=
    quiet_indexArg (List.forall_mem_singleton.mpr (quiet_expr hi)) _
  rw [assign, (quiet_expr he).bind_apply]
  cases (expr invoke e env).1 with
  | error err => rfl
  | ok c =>
    change (indexArg invoke [i] l >>= _) env = _
    rw [harg.bind_apply]
    cases (indexArg invoke [i] l env).1 with
    | error err => rfl
    | ok j =>
      change (lift (c.setElement j v l) >>= _) env = _
      rw [(Quiet.lift _).bind_apply, lift]
      cases hu : c.setElement j v l <;> simp only [bind, Except.bind, hu]

/-- What can be put at the positions that the indices stand for is written there, all at once. -/
theorem assign_eq_of_goesInto (hpath : target.IsPath x is) (hquiet : ∀ i ∈ is, i.IsQuiet)
    (hx : env.valueOf? x = some root) (his : List.Forall₂ (Indexes invoke env) is path)
    (hv : path ≠ [] → v.GoesInto root path) :
    assign invoke target v l env = (.ok (), env.assign x (v.putInto root path)) := by
  -- The container is written like the element, at a shorter path and with another value.
  induction hpath generalizing v path with
  | name n =>
    obtain rfl := List.forall₂_nil_left_iff.mp his
    rw [assign, assignName_of_valueOf? hx, Value.putInto]
  | variableRef n =>
    obtain rfl := List.forall₂_nil_left_iff.mp his
    rw [assign, change, Value.putInto]
  | group h ih =>
    rw [assign]
    exact ih hquiet his hv
  | @index n e i is t h ih =>
    obtain ⟨hquiet, hi⟩ := List.forall_mem_append.mp hquiet
    have hi := hi i List.mem_cons_self
    obtain ⟨path', k, his', hk, rfl⟩ := forall₂_append_singleton.mp his
    obtain ⟨c, hc, hvc⟩ := Value.goesInto_append_singleton.mp (hv (by simp))
    obtain ⟨j, hj, hjk⟩ := (indexes_iff hi).mp hk
    have hset : c.setElement j v l = .ok (v.putInto c [k]) :=
      Value.setElement_eq_ok_iff.mpr ⟨k, hjk, hvc, rfl⟩
    rw [assign_index_apply (quiet_path h hquiet) hi, hj,
      (expr_path h hquiet hx).mpr ⟨path', his', hc⟩, Value.putInto_append_singleton hc hvc,
      ← ih hquiet his' (Value.goesInto_of_at? hc hvc)]
    simp only [bind, Except.bind, hset]

/-- What cannot be put at the positions that the indices stand for is not written at all. -/
theorem assign_eq_error (hpath : target.IsPath x is) (hne : is ≠ [])
    (hquiet : ∀ i ∈ is, i.IsQuiet) (hx : env.valueOf? x = some root)
    (hv : ¬∃ path, List.Forall₂ (Indexes invoke env) is path ∧ v.GoesInto root path) :
    ∃ err, assign invoke target v l env = (.error err, env) := by
  induction hpath with
  | name n => exact absurd rfl hne
  | variableRef n => exact absurd rfl hne
  | group h ih =>
    rw [assign]
    exact ih hne hquiet hv
  | @index n e i is t h ih =>
    obtain ⟨hquiet, hi⟩ := List.forall_mem_append.mp hquiet
    have hi := hi i List.mem_cons_self
    rw [assign_index_apply (quiet_path h hquiet) hi]
    cases hc : (expr invoke e env).1 with
    | error err => exact ⟨err, rfl⟩
    | ok c =>
      cases hj : (indexArg invoke [i] l env).1 with
      | error err => exact ⟨err, rfl⟩
      | ok j =>
        cases hu : c.setElement j v l with
        | error err => exact ⟨err, by simp only [bind, Except.bind, hu]⟩
        | ok u =>
          obtain ⟨path, his, hc⟩ := (expr_path h hquiet hx).mp hc
          obtain ⟨k, hk, hvc, -⟩ := Value.setElement_eq_ok_iff.mp hu
          refine absurd ⟨path ++ [k], ?_, ?_⟩ hv
          · exact forall₂_append_singleton.mpr ⟨path, k, his, (indexes_iff hi).mpr ⟨j, hj, hk⟩, rfl⟩
          · exact Value.goesInto_append_singleton.mpr ⟨c, hc, hvc⟩

/-- **An assignment at a path is a replacement in the value of its variable.** Suppose that nothing
in the indices has a form that can change an environment. The assignment succeeds exactly if the
indices stand for positions that the value can be put at. Then the variable is written where it is,
to its old value with the new one at that path, and all else stays as it is, the elements of the old
value at other paths included. If the assignment fails, the environment stays as it is. -/
theorem assign_path (invoke : String → List Value → Location → Eval Value)
    (hpath : target.IsPath x is) (hne : is ≠ []) (hquiet : ∀ i ∈ is, i.IsQuiet)
    (hx : env.valueOf? x = some root) (v : Value) (l : Location) :
    ((assign invoke target v l env).1 = .ok () ↔
      ∃ path, List.Forall₂ (Indexes invoke env) is path ∧ v.GoesInto root path) ∧
    (∀ path, List.Forall₂ (Indexes invoke env) is path → v.GoesInto root path →
      env.Rewrites x (v.putInto root path) (assign invoke target v l env).2 ∧
      (v.putInto root path).at? path = some v ∧
      ∀ path', ¬path <+: path' → ¬path' <+: path →
        (v.putInto root path).at? path' = root.at? path') ∧
    ((assign invoke target v l env).1 ≠ .ok () → (assign invoke target v l env).2 = env) := by
  have hwrite : ∀ path, List.Forall₂ (Indexes invoke env) is path → v.GoesInto root path →
      assign invoke target v l env = (.ok (), env.assign x (v.putInto root path)) :=
    fun path his hv ↦ assign_eq_of_goesInto hpath hquiet hx his fun _ ↦ hv
  have hfail : (¬∃ path, List.Forall₂ (Indexes invoke env) is path ∧ v.GoesInto root path) →
      ∃ err, assign invoke target v l env = (.error err, env) :=
    assign_eq_error hpath hne hquiet hx
  refine ⟨⟨fun hok ↦ ?_, fun ⟨path, his, hv⟩ ↦ ?_⟩, fun path his hv ↦ ?_, fun hnot ↦ ?_⟩
  · by_contra hnone
    obtain ⟨err, herr⟩ := hfail hnone
    rw [herr] at hok
    cases hok
  · rw [hwrite path his hv]
  · rw [hwrite path his hv]
    have hrewrites := env.rewrites_assign (x := x) (by rw [hx, Option.isSome_some])
    exact ⟨hrewrites _, Value.at?_putInto hv, fun _ ↦ Value.at?_putInto_of_ne hv⟩
  · by_cases hsome : ∃ path, List.Forall₂ (Indexes invoke env) is path ∧ v.GoesInto root path
    · obtain ⟨path, his, hv⟩ := hsome
      rw [hwrite path his hv] at hnot
      exact absurd rfl hnot
    · obtain ⟨err, herr⟩ := hfail hsome
      rw [herr]

/-- In `x[x[0][0]][0] = 'z'`, an index is read from the variable that is written, and what is
written is a character of a text in an array. -/
theorem assign_path_of_own_index :
    let env := Environment.empty.define "x" (.array [.array [.int 1, .int 2], .str "ab"])
    let name := Expr.name (.at .start) "x"
    let first := fun e ↦ Expr.index (.at .start) e [.literal (.at .start) (.int 0)] none
    let target := first (.index (.at .start) name [first (first name)] none)
    (assign (callFunction 8) target (.char 'z') .start env).1 = .ok () ∧
      env.Rewrites "x" (.array [.array [.int 1, .int 2], .str "zb"])
        (assign (callFunction 8) target (.char 'z') .start env).2 := by
  intro env name first target
  have hpath : target.IsPath "x" [first (first name), .literal (.at .start) (.int 0)] :=
    .index (.index (.name _))
  have hquiet : ∀ i ∈ [first (first name), .literal (.at .start) (.int 0)], i.IsQuiet := by decide
  have hx : env.valueOf? "x" = some (.array [.array [.int 1, .int 2], .str "ab"]) := rfl
  obtain ⟨hok, hrewrites, -⟩ :=
    assign_path (callFunction 8) hpath (by simp) hquiet hx (.char 'z') .start
  have his : List.Forall₂ (Indexes (callFunction 8) env)
      [first (first name), .literal (.at .start) (.int 0)] [1, 0] :=
    .cons ⟨.int 1, rfl, .int rfl⟩ (.cons ⟨.int 0, rfl, .int rfl⟩ .nil)
  have hv : (Value.char 'z').GoesInto (.array [.array [.int 1, .int 2], .str "ab"]) [1, 0] :=
    .inside rfl (.character rfl (by decide))
  exact ⟨hok.mpr ⟨_, his, hv⟩, (hrewrites _ his hv).1⟩

end Eval

end Scriptlet
