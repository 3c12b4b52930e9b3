import Scriptlet.Proofs.Bind.Typing
import Scriptlet.Proofs.Tree.Induction
import Scriptlet.Proofs.Tree.Roles

/-!
# Roles in a well typed tree

In a well typed tree every expression is well typed itself, as what its role makes of it: as a
value, as a declaration, as the name of a type, or as one of the forms that stay unbound. So every
expression that stands for a value has its type in its place, and so has the type behind `new`; and
where an expression has a storage, the storage has the type of the expression.
-/

namespace Scriptlet

/-- The type of the expression is known, and it is that of its storage, if it has one. -/
def Expr.Settled (e : Expr) : Prop := ∃ ty, e.node.ty = some ty ∧ ∀ d ∈ e.node.binding, d.ty = ty

theorem Expr.settled_of_has {e : Expr} {ty : Ty} {d : Binding} (h : e.node.Has ty (some d))
    (hd : d.ty = ty) : e.Settled := by
  refine ⟨ty, h.1, fun d' hd' ↦ ?_⟩
  cases h.2.symm.trans hd'
  exact hd

namespace Tables

/-- An expression is well typed as what its role makes of it. -/
inductive Fits (Γ : Tables) : Role × Expr → Prop where
  | value {p b e ty} (h : Γ.Typed b e ty) : Fits Γ (p, e)
  | declaration {p b e} (h : Γ.TypedDeclaration b e) : Fits Γ (p, e)
  | typeName {e ty} (h : Γ.registry.NamesType ty e) : Fits Γ (.typeName, e)
  | bareName {e x} (h : e.IsBareName x) : Fits Γ (.called, e)
  | owned {b e x owner isType} (h : Γ.TypedOwner b e x owner isType) : Fits Γ (.called, e)
  | bareChain {e} (h : e.IsBareChain) : Fits Γ (.innerName, e)

variable {Γ : Tables} {b : Body}

theorem Typed.settled {e : Expr} {ty : Ty} (h : Γ.Typed b e ty) : e.Settled :=
  ⟨ty, h.node_ty, fun _ hd ↦ h.ty_of_binding hd⟩

theorem TypedDeclaration.settled {e : Expr} (h : Γ.TypedDeclaration b e) : e.Settled := by
  cases h with
  | declare _ _ _ _ hn => exact Expr.settled_of_has hn rfl

/-- What fits its role is settled, or it need not be and is unbound. -/
theorem Fits.settled_or_unbound {q : Role × Expr} (h : Γ.Fits q) :
    q.2.Settled ∨ (q.1 = .called ∨ q.1 = .innerName) ∧ q.2.node.Unbound := by
  cases h with
  | value h => exact .inl h.settled
  | declaration h => exact .inl h.settled
  | typeName h =>
    cases h with
    | name _ hn => exact .inl (Expr.settled_of_has hn rfl)
    | member _ _ _ hn => exact .inl (Expr.settled_of_has hn rfl)
  | bareName h => cases h <;> exact .inr ⟨.inl rfl, ‹_›⟩
  | owned h => cases h <;> exact .inr ⟨.inl rfl, ‹_›⟩
  | bareChain h => cases h <;> exact .inr ⟨.inr rfl, ‹_›⟩

theorem fits_of_isBareName {e : Expr} {x : String} (h : e.IsBareName x) :
    ∀ q ∈ e.roles .called, Γ.Fits q := by
  induction h with
  | name hn => exact List.forall_mem_singleton.mpr (.bareName (.name hn))
  | group hn he ih => exact List.forall_mem_cons.mpr ⟨.bareName (.group hn he), ih⟩

theorem fits_of_isBareChain {e : Expr} (h : e.IsBareChain) :
    ∀ q ∈ e.roles .innerName, Γ.Fits q := by
  induction h with
  | name hn => exact List.forall_mem_singleton.mpr (.bareChain (.name hn))
  | member hn he ih => exact List.forall_mem_cons.mpr ⟨.bareChain (.member hn he), ih⟩

theorem fits_of_namesType {e : Expr} {ty : Ty} (h : Γ.registry.NamesType ty e) :
    ∀ q ∈ e.roles .typeName, Γ.Fits q := by
  cases id h with
  | name _ _ => exact List.forall_mem_singleton.mpr (.typeName h)
  | member he _ _ _ => exact List.forall_mem_cons.mpr ⟨.typeName h, fits_of_isBareChain he⟩

/-! ## The walk -/

/-- If the expression is well typed, everything in it fits its role. -/
structure RolesFit (Γ : Tables) (e : Expr) : Prop where
  typed : ∀ {b ty}, Γ.Typed b e ty → ∀ p, ∀ q ∈ e.roles p, Γ.Fits q
  declared : ∀ {b}, Γ.TypedDeclaration b e → ∀ p, ∀ q ∈ e.roles p, Γ.Fits q
  owned : ∀ {b x owner isType}, Γ.TypedOwner b e x owner isType →
    ∀ q ∈ e.roles .called, Γ.Fits q

/-- If the statement is well typed, everything in it fits its role. -/
def StatementRolesFit (Γ : Tables) (st : Statement) : Prop :=
  ∀ {b}, Γ.TypedStatement b st → ∀ q ∈ st.roles, Γ.Fits q

theorem TypedAll.fits {es : List Expr} {tys : List Ty} (h : Γ.TypedAll b es tys)
    (hes : ∀ e ∈ es, RolesFit Γ e) : ∀ q ∈ exprsRoles es, Γ.Fits q := by
  induction es generalizing tys with
  | nil => exact fun _ hq ↦ absurd hq List.not_mem_nil
  | cons e es ih =>
    obtain ⟨he, hes⟩ := List.forall_mem_cons.mp hes
    cases h with
    | cons head tail => exact List.forall_mem_append.mpr ⟨he.typed head _, ih tail hes⟩

theorem TypedOption.fits {o : Option Expr} {t : Option Ty} (h : Γ.TypedOption b o t)
    (ho : ∀ e ∈ o, RolesFit Γ e) : ∀ q ∈ optionRoles o, Γ.Fits q := by
  cases h with
  | none => exact fun _ hq ↦ absurd hq List.not_mem_nil
  | some he => exact (ho _ rfl).typed he _

theorem statements_fit {sts : List Statement} (h : ∀ st ∈ sts, Γ.TypedStatement b st)
    (hsts : ∀ st ∈ sts, StatementRolesFit Γ st) : ∀ q ∈ statementsRoles sts, Γ.Fits q := by
  intro q hq
  obtain ⟨st, hst, hq⟩ := mem_statementsRoles.mp hq
  exact hsts st hst (h st hst) q hq

theorem alternative_fits {o : Option Statement} (h : ∀ st ∈ o, Γ.TypedStatement b st)
    (ho : ∀ st ∈ o, StatementRolesFit Γ st) : ∀ q ∈ alternativeRoles o, Γ.Fits q := by
  intro q hq
  obtain ⟨st, hst, hq⟩ := mem_alternativeRoles.mp hq
  exact ho st hst (h st hst) q hq

/-- A form of expression that is no declaration and that no method is called on by its name. -/
theorem RolesFit.of_typed {e : Expr}
    (typed : ∀ {b ty}, Γ.Typed b e ty → ∀ p, ∀ q ∈ e.roles p, Γ.Fits q)
    (hdeclare : ∀ {b}, ¬Γ.TypedDeclaration b e)
    (howner : ∀ {b x owner isType}, ¬Γ.TypedOwner b e x owner isType) : RolesFit Γ e :=
  ⟨typed, fun h ↦ absurd h hdeclare, fun h ↦ absurd h howner⟩

theorem RolesFit.of_leaf {e : Expr} (hroles : ∀ p, ∃ p', e.roles p = [(p', e)])
    (hdeclare : ∀ {b}, ¬Γ.TypedDeclaration b e)
    (howner : ∀ {b x owner isType}, ¬Γ.TypedOwner b e x owner isType) : RolesFit Γ e := by
  refine .of_typed (fun h p ↦ ?_) hdeclare howner
  obtain ⟨p', hp'⟩ := hroles p
  rw [hp']
  exact List.forall_mem_singleton.mpr (.value h)

theorem unary_fits {n : Node} {op : UnaryOp} {e : Expr} {t : Option OperatorTarget}
    (ih : RolesFit Γ e) : RolesFit Γ (.unary n op e t) where
  typed h p := by
    rw [Expr.roles]
    cases id h with
    | group he _ => exact List.forall_mem_cons.mpr ⟨.value h, ih.typed he p⟩
    | unary he _ _ =>
      split
      · exact List.forall_mem_cons.mpr ⟨.value h, ih.typed he p⟩
      · exact List.forall_mem_cons.mpr ⟨.value h, ih.typed he .value⟩
  declared h := nomatch h
  owned h := by
    cases id h with
    | group _ he => exact List.forall_mem_cons.mpr ⟨.owned h, ih.owned he⟩

theorem member_fits {n : Node} {target : Expr} {x : String} (ih : RolesFit Γ target) :
    RolesFit Γ (.member n target x) where
  typed h p := by
    refine List.forall_mem_cons.mpr ⟨.value h, ?_⟩
    cases h with
    | member ht _ _ _ => exact ih.typed ht p.owner
  declared h := nomatch h
  owned h := by
    refine List.forall_mem_cons.mpr ⟨.owned h, ?_⟩
    cases h with
    | member _ ht => exact ih.typed ht .value

theorem call_fits {n : Node} {target : Expr} {args : List Expr} {t : Option CallTarget}
    (ih : RolesFit Γ target) (ihs : ∀ e ∈ args, RolesFit Γ e) :
    RolesFit Γ (.call n target args t) := by
  refine .of_typed (fun h p ↦ ?_) nofun nofun
  refine List.forall_mem_cons.mpr ⟨.value h, List.forall_mem_append.mpr ?_⟩
  cases h with
  | callFunction hx hargs _ _ => exact ⟨fits_of_isBareName hx, hargs.fits ihs⟩
  | callMethod ho hargs _ _ => exact ⟨ih.owned ho, hargs.fits ihs⟩
  | callValue hf hargs _ _ => exact ⟨ih.typed hf _, hargs.fits ihs⟩

theorem two_fit {e x y : Expr} {ty : Ty} (he : Γ.Typed b e ty) (hx : ∀ q ∈ x.roles .value, Γ.Fits q)
    (hy : ∀ q ∈ y.roles .value, Γ.Fits q) :
    ∀ q ∈ (Role.value, e) :: (x.roles .value ++ y.roles .value), Γ.Fits q :=
  List.forall_mem_cons.mpr ⟨.value he, List.forall_mem_append.mpr ⟨hx, hy⟩⟩

/-- Everything in a form fits its role if everything in its parts does. -/
theorem tree_fits (Γ : Tables) : Tree.Cases (RolesFit Γ) (StatementRolesFit Γ) where
  literal n v := .of_leaf (fun _ ↦ ⟨_, rfl⟩) nofun nofun
  name n x := .of_leaf (fun _ ↦ ⟨_, rfl⟩) nofun nofun
  variableRef n x := .of_leaf (fun _ ↦ ⟨_, rfl⟩) nofun nofun
  constantRef n x := .of_leaf (fun _ ↦ ⟨_, rfl⟩) nofun nofun
  this n := .of_leaf (fun _ ↦ ⟨_, rfl⟩) nofun nofun
  null n := .of_leaf (fun _ ↦ ⟨_, rfl⟩) nofun nofun
  empty n := .of_leaf (fun _ ↦ ⟨_, rfl⟩) nofun nofun
  unary n op e t ih := unary_fits ih
  member n target x ih := member_fits ih
  binary n op a b t iha ihb := .of_typed (fun h p ↦ by
    cases id h with
    | binary ha hb _ _ => exact two_fit h (iha.typed ha _) (ihb.typed hb _)) nofun nofun
  coalesce n a b iha ihb := .of_typed (fun h p ↦ by
    cases id h with
    | coalesce ha hb _ => exact two_fit h (iha.typed ha _) (ihb.typed hb _)) nofun nofun
  ternary n x a b v ihx iha ihb := .of_typed (fun h p ↦ by
    refine List.forall_mem_cons.mpr ⟨.value h, ?_⟩
    cases h with
    | ternary hx ha hb _ _ =>
      exact List.forall_mem_append.mpr
        ⟨List.forall_mem_append.mpr ⟨ihx.typed hx _, iha.typed ha _⟩, ihb.typed hb _⟩) nofun nofun
  assign n target v k iht ihv := .of_typed (fun h p ↦ by
    cases id h with
    | assign ht hv _ _ _ => exact two_fit h (iht.typed ht _) (ihv.typed hv _)) nofun nofun
  call n target args t ih ihs := call_fits ih ihs
  new n target args t _ ihs := .of_typed (fun h p ↦ by
    refine List.forall_mem_cons.mpr ⟨.value h, List.forall_mem_append.mpr ?_⟩
    cases h with
    | new hname hargs _ _ => exact ⟨fits_of_namesType hname, hargs.fits ihs⟩) nofun nofun
  index n target args t ih ihs := .of_typed (fun h p ↦ by
    refine List.forall_mem_cons.mpr ⟨.value h, List.forall_mem_append.mpr ?_⟩
    cases h with
    | index ht hargs _ _ => exact ⟨ih.typed ht _, hargs.fits ihs⟩) nofun nofun
  declare n x ty init k ih :=
    { typed := nofun
      declared := fun h p ↦ by
        refine List.forall_mem_cons.mpr ⟨.declaration h, ?_⟩
        cases h with
        | declare _ hinit _ _ _ => exact hinit.fits ih
      owned := nofun }
  array n ty items cs ih := .of_typed (fun h p ↦ by
    refine List.forall_mem_cons.mpr ⟨.value h, ?_⟩
    cases h with
    | array _ hitems _ _ _ => exact hitems.fits ih) nofun nofun
  lambda n params body ih := .of_typed (fun h p ↦ by
    refine List.forall_mem_cons.mpr ⟨.value h, ?_⟩
    cases h with
    | lambda _ _ hbody _ => exact statements_fit hbody ih) nofun nofun
  block n body ih := .of_typed (fun h p ↦ by
    refine List.forall_mem_cons.mpr ⟨.value h, ?_⟩
    cases h with
    | block hbody _ => exact statements_fit hbody ih) nofun nofun
  exprStatement e ih := fun h ↦ by
    cases h with
    | expr he => exact ih.typed he _
  blockStatement l body ih := fun h ↦ by
    cases h with
    | block hbody => exact statements_fit hbody ih
  cond l x a b ihx iha ihb := fun h ↦ by
    cases h with
    | cond hx ha hb =>
      exact List.forall_mem_append.mpr
        ⟨List.forall_mem_append.mpr ⟨ihx.typed hx _, iha ha⟩, alternative_fits hb ihb⟩
  ret l value k ih := fun h ↦ by
    cases h with
    | ret hv _ => exact hv.fits ih
  throw l value ih := fun h ↦ by
    cases h with
    | throw hv => exact hv.fits ih
  vars l declarations ih := fun h ↦ by
    cases h with
    | vars hd =>
      intro q hq
      obtain ⟨d, hmem, hq⟩ := mem_exprsRoles.mp hq
      exact (ih d hmem).declared (hd d hmem) _ q hq
  function l signature body ih := fun h ↦ by
    cases h with
    | function _ _ _ _ _ _ _ _ _ hbody => exact statements_fit hbody ih

/-- In a well typed program everything fits its role. -/
theorem TypedProgram.fits {p : Program} (h : Γ.TypedProgram b p) :
    ∀ q ∈ statementsRoles p, Γ.Fits q :=
  statements_fit h fun st _ ↦ (tree_fits Γ).statement st

end Tables

end Scriptlet
