import Scriptlet.Proofs.Code.Closed
import Scriptlet.Proofs.Code.Exits

/-!
# How functions end

In the code of a function with a result, each return of a statement stands behind the code of a
value of the function's type, converted where it has to be, and control only comes to it through
that code. The return that is added to a body is another matter: nothing asks whether the end of the
body can be reached, and control comes to the added return exactly if it can.
-/

namespace Scriptlet

/-! ## Well typed returns -/

namespace Tables

variable {Γ : Tables} {b : Body}

/-- The statement returns what the body has to return. -/
inductive TypedReturn (Γ : Tables) (b : Body) : Statement → Prop where
  | ret {l value ty c} (hv : Γ.TypedOption b value ty)
      (hc : Γ.registry.Returns b.ret.ty (ty.getD .void) c) : TypedReturn Γ b (.ret l value (some c))

/-- If the expression is well typed in a body, its code returns what the body has to return: as a
value, as a declaration, as what a method is called on, and as what is assigned to. -/
structure ReturnsTyped (Γ : Tables) (e : Expr) : Prop where
  typed : ∀ {b ty}, Γ.Typed b e ty → ∀ st ∈ (Code.exits Γ.registry e).returned, Γ.TypedReturn b st
  declared : ∀ {b}, Γ.TypedDeclaration b e →
    ∀ st ∈ (Code.exits Γ.registry e).returned, Γ.TypedReturn b st
  owned : ∀ {b x owner isType}, Γ.TypedOwner b e x owner isType →
    ∀ st ∈ (Code.ownerExits Γ.registry e).returned, Γ.TypedReturn b st
  target : ∀ {b ty}, Γ.Typed b e ty →
    ∀ st ∈ (Code.targetExits Γ.registry e).returned, Γ.TypedReturn b st

/-- The same of a statement. -/
def StatementReturnsTyped (Γ : Tables) (st : Statement) : Prop :=
  ∀ {b}, Γ.TypedStatement b st →
    ∀ st' ∈ (Code.statementExits Γ.registry st).returned, Γ.TypedReturn b st'

/-- A form that is no declaration, that no method is called on by its name, and that is assigned to
through its storage. -/
theorem ReturnsTyped.of_typed {e : Expr}
    (typed : ∀ {b ty}, Γ.Typed b e ty →
      ∀ st ∈ (Code.exits Γ.registry e).returned, Γ.TypedReturn b st)
    (hdeclare : ∀ {b}, ¬Γ.TypedDeclaration b e)
    (howner : ∀ {b x owner isType}, ¬Γ.TypedOwner b e x owner isType)
    (htarget : Code.targetExits Γ.registry e = .through) : ReturnsTyped Γ e where
  typed := typed
  declared h := absurd h hdeclare
  owned h := absurd h howner
  target _ := by
    rw [htarget]
    exact nofun

theorem TypedAll.returns {es : List Expr} {tys : List Ty} (h : Γ.TypedAll b es tys)
    (hes : ∀ e ∈ es, ReturnsTyped Γ e) :
    ∀ st ∈ (Code.exprsExits Γ.registry es).returned, Γ.TypedReturn b st := by
  induction es generalizing tys with
  | nil => exact nofun
  | cons e es ih =>
    obtain ⟨he, hes⟩ := List.forall_mem_cons.mp hes
    cases h with
    | cons head tail => exact List.forall_mem_append.mpr ⟨he.typed head, ih tail hes⟩

theorem TypedOption.returns {o : Option Expr} {t : Option Ty} (h : Γ.TypedOption b o t)
    (ho : ∀ e ∈ o, ReturnsTyped Γ e) :
    ∀ st ∈ (Code.optionExits Γ.registry o).returned, Γ.TypedReturn b st := by
  cases h with
  | none => exact nofun
  | some he => exact (ho _ rfl).typed he

theorem declarations_return {es : List Expr} (h : ∀ e ∈ es, Γ.TypedDeclaration b e)
    (hes : ∀ e ∈ es, ReturnsTyped Γ e) :
    ∀ st ∈ (Code.exprsExits Γ.registry es).returned, Γ.TypedReturn b st := by
  induction es with
  | nil => exact nofun
  | cons e es ih =>
    obtain ⟨he, hes⟩ := List.forall_mem_cons.mp hes
    obtain ⟨hd, hds⟩ := List.forall_mem_cons.mp h
    exact List.forall_mem_append.mpr ⟨he.declared hd, ih hds hes⟩

theorem statements_return {sts : List Statement} (h : ∀ st ∈ sts, Γ.TypedStatement b st)
    (hsts : ∀ st ∈ sts, StatementReturnsTyped Γ st) :
    ∀ st ∈ (Code.statementsExits Γ.registry sts).returned, Γ.TypedReturn b st := by
  induction sts with
  | nil => exact nofun
  | cons st sts ih =>
    obtain ⟨hst, hsts⟩ := List.forall_mem_cons.mp hsts
    obtain ⟨ht, hts⟩ := List.forall_mem_cons.mp h
    exact List.forall_mem_append.mpr ⟨hst ht, ih hts hsts⟩

theorem alternative_returns {o : Option Statement} (h : ∀ st ∈ o, Γ.TypedStatement b st)
    (ho : ∀ st ∈ o, StatementReturnsTyped Γ st) :
    ∀ st ∈ (Code.alternativeExits Γ.registry o).returned, Γ.TypedReturn b st := by
  cases o with
  | none => exact nofun
  | some st => exact ho st rfl (h st rfl)

theorem member_returns {n : Node} {target : Expr} {x : String} (ih : ReturnsTyped Γ target) :
    ReturnsTyped Γ (.member n target x) where
  typed h := by
    cases h with
    | member ht _ _ _ =>
      rw [Code.exits]
      split
      · exact ih.typed ht
      · exact nofun
  declared h := nomatch h
  owned h := by
    cases h with
    | member _ ht => exact ih.typed ht
  target h := by
    cases h with
    | member ht _ _ _ =>
      rw [Code.targetExits]
      split
      · exact ih.typed ht
      · exact nofun

theorem unary_returns {n : Node} {op : UnaryOp} {e : Expr} {t : Option OperatorTarget}
    (ih : ReturnsTyped Γ e) : ReturnsTyped Γ (.unary n op e t) where
  typed {b _} h := by
    have hoperand : ∃ ty, Γ.Typed b e ty := by
      cases h with
      | group he _ => exact ⟨_, he⟩
      | unary he _ _ => exact ⟨_, he⟩
    obtain ⟨_, he⟩ := hoperand
    rw [Code.exits]
    split
    · exact nofun
    · exact ih.typed he
  declared h := nomatch h
  owned h := by
    cases h with
    | group _ he => exact ih.owned he
  target h := by
    cases h with
    | group he _ => exact ih.target he
    | unary _ ht _ =>
      cases ht with
      | method hop _ _ _ =>
        -- only parentheses are looked through, and they are no method
        cases op with
        | group => cases hop
        | _ => exact nofun

theorem binary_returns {n : Node} {op : BinaryOp} {x y : Expr} {t : Option OperatorTarget}
    (ihx : ReturnsTyped Γ x) (ihy : ReturnsTyped Γ y) : ReturnsTyped Γ (.binary n op x y t) := by
  refine .of_typed (fun h ↦ ?_) nofun nofun rfl
  cases h with
  | binary hx hy ht _ =>
    have hboth := List.forall_mem_append.mpr ⟨ihx.typed hx, ihy.typed hy⟩
    cases ht with
    | method _ _ _ => exact hboth
    | identity _ _ _ => exact hboth
    | logical _ _ => exact hboth

theorem bareName_returns {e : Expr} {x : String} (hx : e.IsBareName x) :
    Code.ownerExits Γ.registry e = .through := by
  induction hx with
  | name _ => rfl
  | group _ _ ih => exact ih

theorem methodCall_returns {n : Node} {target : Expr} {args : List Expr} {m : MethodRef} {ret : Ty}
    {cs : Conversions}
    (howner : ∀ st ∈ (Code.ownerExits Γ.registry target).returned, Γ.TypedReturn b st)
    (hargs : ∀ st ∈ (Code.exprsExits Γ.registry args).returned, Γ.TypedReturn b st) :
    ∀ st ∈ (Code.exits Γ.registry (.call n target args (some ⟨.method m, ret, cs⟩))).returned,
      Γ.TypedReturn b st := by
  rw [Code.exits]
  refine List.forall_mem_append.mpr ⟨?_, hargs⟩
  split
  · exact nofun
  · exact howner

theorem call_returns {n : Node} {target : Expr} {args : List Expr} {t : Option CallTarget}
    (ih : ReturnsTyped Γ target) (ihs : ∀ e ∈ args, ReturnsTyped Γ e) :
    ReturnsTyped Γ (.call n target args t) := by
  refine .of_typed (fun h ↦ ?_) nofun nofun rfl
  cases h with
  | callFunction hx hargs ht _ =>
    cases ht with
    | script _ _ _ => exact hargs.returns ihs
    | method _ _ _ =>
      exact methodCall_returns (by rw [bareName_returns hx]; exact nofun) (hargs.returns ihs)
  | callMethod ho hargs ht _ =>
    cases ht with
    | method _ _ _ => exact methodCall_returns (ih.owned ho) (hargs.returns ihs)
  | callValue hf hargs _ _ => exact List.forall_mem_append.mpr ⟨ih.typed hf, hargs.returns ihs⟩

/-- The code of every form returns what its body has to return, if that of its parts does. -/
theorem tree_returns (Γ : Tables) : Tree.Cases (ReturnsTyped Γ) (StatementReturnsTyped Γ) where
  literal n v := .of_typed (fun _ ↦ nofun) nofun nofun rfl
  name n x := .of_typed (fun _ ↦ nofun) nofun nofun rfl
  variableRef n x := .of_typed (fun _ ↦ nofun) nofun nofun rfl
  constantRef n x := .of_typed (fun _ ↦ nofun) nofun nofun rfl
  this n := .of_typed (fun _ ↦ nofun) nofun nofun rfl
  null n := .of_typed (fun _ ↦ nofun) nofun nofun rfl
  empty n := .of_typed (fun _ ↦ nofun) nofun nofun rfl
  lambda n params body _ := .of_typed (fun _ ↦ nofun) nofun nofun rfl
  member n target x ih := member_returns ih
  unary n op e t ih := unary_returns ih
  binary n op x y t ihx ihy := binary_returns ihx ihy
  coalesce n x y ihx ihy := .of_typed (fun h ↦ by
    cases h with
    | coalesce hx hy _ => exact List.forall_mem_append.mpr ⟨ihx.typed hx, ihy.typed hy⟩)
    nofun nofun rfl
  ternary n x y z v ihx ihy ihz := .of_typed (fun h ↦ by
    cases h with
    | ternary hx hy hz _ _ =>
      exact List.forall_mem_append.mpr
        ⟨ihx.typed hx, List.forall_mem_append.mpr ⟨ihy.typed hy, ihz.typed hz⟩⟩) nofun nofun rfl
  assign n target v k iht ihv := .of_typed (fun h ↦ by
    cases h with
    | assign ht hv _ _ _ => exact List.forall_mem_append.mpr ⟨iht.target ht, ihv.typed hv⟩)
    nofun nofun rfl
  call n target args t ih ihs := call_returns ih ihs
  new n target args t _ ihs := .of_typed (fun h ↦ by
    cases h with
    | new _ hargs _ _ => exact hargs.returns ihs) nofun nofun rfl
  index n target args t ih ihs :=
    have hparts : ∀ {b ty}, Γ.Typed b (.index n target args t) ty →
        ∀ st ∈ (Code.exits Γ.registry target ++ Code.exprsExits Γ.registry args).returned,
          Γ.TypedReturn b st := fun h ↦ by
      cases h with
      | index hc hargs _ _ => exact List.forall_mem_append.mpr ⟨ih.typed hc, hargs.returns ihs⟩
    { typed := hparts, declared := nofun, owned := nofun, target := hparts }
  declare n x ty init k ih :=
    { typed := nofun
      declared := fun h ↦ by
        cases h with
        | declare _ hinit _ _ _ => exact hinit.returns ih
      owned := nofun
      target := nofun }
  array n ty items cs ih := .of_typed (fun h ↦ by
    cases h with
    | array _ hitems _ _ _ => exact hitems.returns ih) nofun nofun rfl
  block n body ih := .of_typed (fun h ↦ by
    cases h with
    | block hbody _ => exact statements_return hbody ih) nofun nofun rfl
  exprStatement e ih := fun h ↦ by
    cases h with
    | expr he => exact ih.typed he
  blockStatement l body ih := fun h ↦ by
    cases h with
    | block hbody => exact statements_return hbody ih
  cond l x y z ihx ihy ihz := fun h ↦ by
    cases h with
    | cond hx hy hz =>
      exact List.forall_mem_append.mpr
        ⟨ihx.typed hx, List.forall_mem_append.mpr ⟨ihy hy, alternative_returns hz ihz⟩⟩
  ret l value k ih := fun h ↦ by
    cases h with
    | ret hv hc =>
      exact List.forall_mem_append.mpr
        ⟨hv.returns ih, List.forall_mem_singleton.mpr (.ret hv hc)⟩
  throw l value ih := fun h ↦ by
    cases h with
    | throw hv => exact List.forall_mem_append.mpr ⟨hv.returns ih, nofun⟩
  vars l declarations ih := fun h ↦ by
    cases h with
    | vars hd => exact declarations_return hd ih
  function l signature body _ := fun _ ↦ nofun

/-- The code from `start` on computes a value, converts it to what the body returns, and returns it
at `p`; and control only comes into this code at its start. -/
structure ReturnsValue (Γ : Tables) (b : Body) (code : List Instruction) (start p : Nat) (e : Expr)
    (c : Option Conversion) : Prop where
  typed : ∃ ty, ty ≠ .void ∧ Γ.Typed b e ty ∧ Γ.registry.Fits ty b.ret.ty c
  stands : ∃ before value behind n m, (Code.expr Γ.registry e ++ .conversion? c).Gives n value m ∧
    code = before ++ (value ++ .ret :: behind) ∧ before.length = start ∧ start + value.length = p
  entered : ∀ i j, Follows code i j → start < j → j ≤ p → start ≤ i

/-- A well typed return of a body with a result returns a value. -/
theorem TypedReturn.returnsValue {code : List Instruction} {p : Nat} {st : Statement}
    (h : Γ.TypedReturn b st) (hret : b.ret.ty ≠ .void) (hends : EndsAt Γ.registry code p st) :
    ∃ l e c start, st = .ret l (some e) (some c) ∧ Γ.ReturnsValue b code start p e c := by
  obtain ⟨before, own, behind, n, m, hown, rfl, hp, havoids⟩ := hends
  cases h with
  | @ret l value ty c hv hc =>
    cases hv with
    | none =>
      -- a return without a value is only right in a body without a result
      exact absurd (hc.2.mp rfl) hret
    | @some _ e ty he =>
      obtain ⟨value, _, _, hvalue, hput, rfl⟩ := Emit.gives_append.mp hown
      obtain ⟨rfl, rfl⟩ := Emit.gives_put.mp hput
      have hlength : (value ++ [Instruction.ret]).length = value.length + 1 := List.length_append
      refine ⟨l, e, c, before.length, rfl, ⟨ty, fun hvoid ↦ hret (hc.2.mp hvoid), he, hc.1⟩,
        ⟨before, value, behind, n, m, hvalue, ?_, rfl, by omega⟩, fun i j hij hlt hle ↦ ?_⟩
      · simp only [List.append_assoc, List.singleton_append]
      · exact havoids.le_of_follows hij hlt (by omega)

end Tables

/-! ## Functions -/

namespace Code

/-- Control does not pass statements that end with a return. -/
theorem not_endsWithReturn_of_passes {r : Registry} {body : List Statement}
    (h : (statementsExits r body).passes) : endsWithReturn body = false := by
  rw [endsWithReturn]
  split
  · rename_i hlast
    have hpasses := passes_statements_iff.mp h _ (List.mem_of_getLast? hlast)
    rw [passes_ret] at hpasses
    cases hpasses
  · rfl

/-- The code of a body is that of its statements, which control leaves as they say, and behind it
the added return, if no return ends the body. Control comes to the end of the statements exactly if
they let it through. -/
theorem ends_of_functionBody {r : Registry} {body : List Statement} {n m : Nat}
    {code : List Instruction} (h : (functionBody r body).Gives n code m) :
    ∃ own, (∃ n m, (statements r body).Gives n own m) ∧
      code = own ++ (if endsWithReturn body then [] else [.ret]) ∧
      ReturnsWith r (statementsExits r body).returned own ∧
      (Reaches code own.length ↔ (statementsExits r body).passes) := by
  have hrouted := functionBody_routes r body _ _ _ h
  obtain ⟨own, k, added, hown, hadded, rfl⟩ := Emit.gives_append.mp h
  have htail : added = if endsWithReturn body then [] else [.ret] := by
    split at hadded
    · rw [if_pos ‹_›]
      exact (Emit.gives_nothing.mp hadded).1
    · rw [if_neg ‹_›]
      exact (Emit.gives_put.mp hadded).1
  have hleft := statements_leaves (fun st _ ↦ (tree_leaves r).statement st) _ _ _ hown
  refine ⟨own, ⟨n, k, hown⟩, by rw [htail], hleft.returns, ?_⟩
  rw [reaches_end_iff hrouted.forward hrouted.marks.nodup, hleft.live .start fun _ _ ↦ nofun]
  · exact Iff.rfl
  · -- the added return is no mark, so control only comes to it over from the statements
    intro l
    rw [htail]
    split <;> exact nofun

end Code

/-- The segment of a registered function is the code of the definition that it was registered
for. -/
theorem segment_of_compile (c : BindContext) {source : String} {p : Program} {out : Compiled}
    (hparse : parseProgram source = .ok p) (h : compile c p = .ok out) {k : Nat}
    {f : ScriptFunction} (hf : (bindProgram c p).state.functions[k]? = some f) :
    ∃ d, (statementsDefinitions out.tree)[k]? = some d ∧
      ((bindProgram c p).state.tables c).Describes f d ∧
      ∃ n m, (Code.functionBody c.registry d.body).Gives n (segmentOf k out.code) m := by
  obtain ⟨hbind, htree, hgives⟩ := of_compile h
  obtain ⟨-, -, -, hdescribes, hplaces⟩ := registered_of_bindProgram c hparse hbind
  obtain ⟨d, hd, hdescribed⟩ := Tables.describes_at hdescribes hf
  obtain ⟨main, _, bodies, hmain, hrest, hcode⟩ := Emit.gives_append.mp hgives
  obtain ⟨x, hfind, n, m, hbody⟩ := (Code.bodies_of_gives hrest).segment hf
  rw [hdescribed.body_eq hplaces (List.mem_of_getElem? hd) hfind, Nat.zero_add] at hbody
  have hinner := (Code.program_routes c.registry _ _ _ _ hmain).inner
  have hmark : ∀ i ∈ main, i.function? ≠ some k := fun i hi ↦ by
    rw [hinner i hi]
    exact (Option.some_ne_none k).symm
  rw [htree, hcode, segmentOf_append hmark]
  exact ⟨d, hd, hdescribed, n, m, hbody⟩

/-- How the code of a function with a result ends. Its segment is the code of its statements and, if
no return ends them, an added return. Each other return instruction stands behind the code of what
one of the function's return statements returns: a value, converted to the return type where it has
to be, and that code is entered at its start only. But nothing keeps such a function from ending
without a value: control comes to the added return exactly if the statements let it through, and
binding does not ask for that. -/
theorem ends_of_compile (c : BindContext) {source : String} {p : Program} {out : Compiled}
    (hparse : parseProgram source = .ok p) (h : compile c p = .ok out) {k : Nat}
    {f : ScriptFunction} (hf : (bindProgram c p).state.functions[k]? = some f)
    (hret : f.ret ≠ .void) :
    ∃ (d : Definition) (inner : Body) (own : List Instruction),
      (statementsDefinitions out.tree)[k]? = some d ∧ f.location = d.location ∧
      inner.params.map Prod.snd = f.params ∧ inner.locals = f.locals ∧ inner.ret.ty = f.ret ∧
      (∃ n m, (Code.statements c.registry d.body).Gives n own m) ∧
      segmentOf k out.code = own ++ (if Code.endsWithReturn d.body then [] else [.ret]) ∧
      (∀ q, (segmentOf k out.code)[q]? = some .ret → q ≠ own.length →
        ∃ l e conversion start,
          .ret l (some e) (some conversion) ∈ (Code.statementsExits c.registry d.body).returned ∧
          ((bindProgram c p).state.tables c).ReturnsValue inner (segmentOf k out.code) start q e
            conversion) ∧
      (Reaches (segmentOf k out.code) own.length ↔
        (Code.statementsExits c.registry d.body).passes) ∧
      ((Code.statementsExits c.registry d.body).passes →
        (segmentOf k out.code)[own.length]? = some .ret) := by
  obtain ⟨d, hd, hdescribed, n, m, hgives⟩ := segment_of_compile c hparse h hf
  obtain ⟨inner, hparams, hlocals, hinner, -, htyped⟩ := hdescribed.body
  obtain ⟨own, hown, hsegment, hreturns, hreaches⟩ := Code.ends_of_functionBody hgives
  refine ⟨d, inner, own, hd, hdescribed.location, hparams, hlocals, hinner, hown, hsegment,
    fun q hq hne ↦ ?_, hreaches, fun hpasses ↦ ?_⟩
  · -- the added return stands last, so every other one is inside the statements
    have hlt : q < own.length := by
      obtain ⟨hlt, -⟩ := List.getElem?_eq_some_iff.mp hq
      rw [hsegment, List.length_append] at hlt
      split at hlt <;> simp at hlt <;> omega
    rw [hsegment, List.getElem?_append_left hlt] at hq
    obtain ⟨st, hst, hends⟩ := hreturns q hq
    have hreturn := Tables.statements_return htyped
      (fun st _ ↦ (Tables.tree_returns ((bindProgram c p).state.tables c)).statement st) st hst
    obtain ⟨l, e, conversion, start, rfl, hvalue⟩ :=
      hreturn.returnsValue (by rwa [hinner]) (hends.before _)
    rw [hsegment]
    exact ⟨l, e, conversion, start, hst, hvalue⟩
  · rw [hsegment, Code.not_endsWithReturn_of_passes hpasses,
      List.getElem?_append_right (Nat.le_refl _), Nat.sub_self]
    rfl

/-- A function that returns on both sides of a condition: its added return is not reached. -/
theorem ends_of_compile_choice :
    ∃ p out f inner e conversion start, parseProgram
        "function f(x: bool): int \x7b if (x) return 1; else return 2; \x7d f(true)" = .ok p ∧
      compile ⟨.primitive, none⟩ p = .ok out ∧
      (bindProgram ⟨.primitive, none⟩ p).state.functions[0]? = some f ∧ f.ret = .int ∧
      segmentOf 0 out.code = [.loadArgument 0, .branch .ifFalse 0, .loadConstant (.int 1), .ret,
        .branch .always 1, .label 0, .loadConstant (.int 2), .ret, .label 1, .ret] ∧
      ((bindProgram ⟨.primitive, none⟩ p).state.tables ⟨.primitive, none⟩).ReturnsValue inner
        (segmentOf 0 out.code) start 7 e conversion ∧
      ¬Reaches (segmentOf 0 out.code) 9 := by
  have hrun : (parseProgram
      "function f(x: bool): int \x7b if (x) return 1; else return 2; \x7d f(true)").toOption.any
        (fun p ↦ (compile ⟨.primitive, none⟩ p).toOption.any fun out ↦
          decide ((bindProgram ⟨.primitive, none⟩ p).state.functions.map ScriptFunction.ret
              = [.int] ∧
            (statementsDefinitions out.tree).map (fun d ↦ Code.endsWithReturn d.body) = [false] ∧
            (statementsDefinitions out.tree).map
              (fun d ↦ (Code.statementsExits .primitive d.body).passes) = [false] ∧
            segmentOf 0 out.code = [.loadArgument 0, .branch .ifFalse 0, .loadConstant (.int 1),
              .ret, .branch .always 1, .label 0, .loadConstant (.int 2), .ret, .label 1, .ret]))
      = true := by
    decide +kernel
  obtain ⟨p, hp, hrun⟩ := (Option.any_eq_true _ _).mp hrun
  obtain ⟨out, hout, hrun⟩ := (Option.any_eq_true _ _).mp hrun
  obtain ⟨hrets, hadded, hpasses, hsegment⟩ := of_decide_eq_true hrun
  have hfirst := congrArg (fun rets ↦ rets[0]?) hrets
  simp only [List.getElem?_map, List.getElem?_cons_zero] at hfirst
  obtain ⟨f, hf, hret⟩ := Option.map_eq_some_iff.mp hfirst
  obtain ⟨d, inner, own, hd, -, -, -, -, -, hcode, hvalues, hend, -⟩ := ends_of_compile
    ⟨.primitive, none⟩ (ok_of_toOption hp) (ok_of_toOption hout) hf (by rw [hret]; decide)
  have hnot : Code.endsWithReturn d.body = false := by
    have := congrArg (fun ends ↦ ends[0]?) hadded
    simpa [List.getElem?_map, hd] using this
  have hstops : (Code.statementsExits .primitive d.body).passes = false := by
    have := congrArg (fun passes ↦ passes[0]?) hpasses
    simpa [List.getElem?_map, hd] using this
  have hlength : own.length = 9 := by
    have := congrArg List.length (hsegment.symm.trans hcode)
    simpa [hnot] using this.symm
  rw [hlength, hstops] at hend
  obtain ⟨l, e, conversion, start, -, hvalue⟩ := hvalues 7 (by rw [hsegment]; rfl)
    (by rw [hlength]; decide)
  exact ⟨p, out, f, inner, e, conversion, start, ok_of_toOption hp, ok_of_toOption hout, hf, hret,
    hsegment, hvalue, fun h ↦ Bool.false_ne_true (hend.mp h)⟩

/-- A function that says that it returns an integer, and whose code is nothing but the added return:
control starts there. -/
theorem reaches_added_return :
    ∃ p out f, parseProgram "function f(): int \x7b \x7d f()" = .ok p ∧
      compile ⟨.primitive, none⟩ p = .ok out ∧
      (bindProgram ⟨.primitive, none⟩ p).state.functions[0]? = some f ∧ f.ret = .int ∧
      segmentOf 0 out.code = [.ret] ∧ Reaches (segmentOf 0 out.code) 0 := by
  have hrun : (parseProgram "function f(): int \x7b \x7d f()").toOption.any (fun p ↦
      (compile ⟨.primitive, none⟩ p).toOption.any fun out ↦
        decide ((bindProgram ⟨.primitive, none⟩ p).state.functions.map ScriptFunction.ret = [.int] ∧
          segmentOf 0 out.code = [.ret])) = true := by
    decide +kernel
  obtain ⟨p, hp, hrun⟩ := (Option.any_eq_true _ _).mp hrun
  obtain ⟨out, hout, hrun⟩ := (Option.any_eq_true _ _).mp hrun
  obtain ⟨hrets, hsegment⟩ := of_decide_eq_true hrun
  have hfirst := congrArg (fun rets ↦ rets[0]?) hrets
  simp only [List.getElem?_map, List.getElem?_cons_zero] at hfirst
  obtain ⟨f, hf, hret⟩ := Option.map_eq_some_iff.mp hfirst
  exact ⟨p, out, f, ok_of_toOption hp, ok_of_toOption hout, hf, hret, hsegment, .refl⟩

end Scriptlet
