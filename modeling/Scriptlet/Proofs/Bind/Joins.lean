import Scriptlet.Proofs.Bind.Valued

/-!
# Where the values of several expressions meet

A conditional, a fallback and an array literal have one type for the values of several expressions.
Binding sees to it that the branches of a conditional and the items of an array have this type
behind the conversions that it records for them. A fallback has the type of its left operand, and of
the right one nothing is asked, nor is anything recorded for it. So a bound tree joins values of its
own types only exactly if the right operand of every fallback fits the left one as it is. That a
value is there at all is asked of neither operand, of no item whose type is that of all items, and
of nothing that is thrown.
-/

namespace Scriptlet

/-! ## What is joined -/

instance (arg param : Ty) : Decidable (arg.FitsAsIs param) :=
  inferInstanceAs (Decidable (arg = param ∨ arg = .null ∧ param.isReference))

/-- What is recorded for one branch of a conditional. -/
def BranchConversion.on (branch : Branch) : Option BranchConversion → Option Conversion
  | some v => if v.branch = branch then v.conversion else none
  | none => none

namespace Expr

/-- The type that the expression has behind a conversion, which must be one from its own type. -/
def tyBehind (e : Expr) : Option Conversion → Option Ty
  | none => e.node.ty
  | some c => if e.node.ty = some c.source then some c.target else none

/-- Behind the conversion the expression has the type, or is null where the type has references. -/
def FitsBehind (e : Expr) (c : Option Conversion) (ty : Ty) : Prop :=
  ∃ t ∈ e.tyBehind c, t.FitsAsIs ty

instance (e : Expr) (c : Option Conversion) (ty : Ty) : Decidable (e.FitsBehind c ty) :=
  inferInstanceAs (Decidable (∃ t ∈ e.tyBehind c, t.FitsAsIs ty))

/-- The expressions whose values become that of the expression or of one of its elements, each with
the conversion that is recorded for it. -/
def joined : Expr → List (Expr × Option Conversion)
  | .coalesce _ a b => [(a, none), (b, none)]
  | .ternary _ _ a b v =>
    [(a, BranchConversion.on .thenBranch v), (b, BranchConversion.on .elseBranch v)]
  | .array _ _ items cs => items.mapIdx fun i e ↦ (e, ((cs.getD [])[i]?).join)
  | _ => []

/-- The type of the values that are joined: that of an array's elements, or else that of the
expression. -/
def joinedTy : Expr → Option Ty
  | .array n _ _ _ => n.ty.bind Ty.element?
  | e => e.node.ty

/-- Only values of its type flow out of the expression. -/
def JoinsSoundly (e : Expr) : Prop := ∀ q ∈ e.joined, ∃ ty ∈ e.joinedTy, q.1.FitsBehind q.2 ty

instance : DecidablePred JoinsSoundly := fun e ↦
  inferInstanceAs (Decidable (∀ q ∈ e.joined, ∃ ty ∈ e.joinedTy, q.1.FitsBehind q.2 ty))

/-- The operands of a fallback. -/
def fallback : Expr → List (Expr × Expr)
  | .coalesce _ a b => [(a, b)]
  | _ => []

/-- If the expression is a fallback, its right operand fits the left one as it is. -/
def FallsBackAlike (e : Expr) : Prop := ∀ q ∈ e.fallback, ∃ ty ∈ q.1.node.ty, q.2.FitsBehind none ty

instance : DecidablePred FallsBackAlike := fun e ↦
  inferInstanceAs (Decidable (∀ q ∈ e.fallback, ∃ ty ∈ q.1.node.ty, q.2.FitsBehind none ty))

theorem joinsSoundly_of_nil {e : Expr} (h : e.joined = []) : e.JoinsSoundly := by
  rw [JoinsSoundly, h]
  exact fun _ hq ↦ absurd hq List.not_mem_nil

theorem fallsBackAlike_of_nil {e : Expr} (h : e.fallback = []) : e.FallsBackAlike := by
  rw [FallsBackAlike, h]
  exact fun _ hq ↦ absurd hq List.not_mem_nil

/-- Where no values meet there is nothing to ask. -/
theorem joinsSoundly_iff_of_nil {e : Expr} (hjoined : e.joined = []) (hfallback : e.fallback = []) :
    e.JoinsSoundly ↔ e.FallsBackAlike :=
  iff_of_true (joinsSoundly_of_nil hjoined) (fallsBackAlike_of_nil hfallback)

/-- The left operand of a fallback, and the items of an array. -/
def taken : Expr → List Expr
  | .coalesce _ a _ => [a]
  | .array _ _ items _ => items
  | _ => []

/-- The left operand of a fallback and the items of an array are not of type `void`. -/
def TakesValues (e : Expr) : Prop := ∀ x ∈ e.taken, x.node.ty ≠ some .void

instance : DecidablePred TakesValues := fun e ↦
  inferInstanceAs (Decidable (∀ x ∈ e.taken, x.node.ty ≠ some .void))

/-- If a fallback's right operand fits the left one, it has a value if the left one has. -/
theorem demandsValues_iff {e : Expr} (h : e.FallsBackAlike) : e.DemandsValues ↔ e.TakesValues := by
  cases e with
  | coalesce n a b =>
    obtain ⟨ty, hty, t, ht, hfit⟩ := h (a, b) (List.mem_singleton_self _)
    have hb : a.node.ty ≠ some .void → b.node.ty ≠ some .void := by
      intro ha hvoid
      obtain rfl : t = .void := Option.some.inj (ht.symm.trans hvoid)
      rcases hfit with rfl | ⟨hnull, -⟩
      · exact ha hty
      · cases hnull
    simpa [DemandsValues, TakesValues, demanded, taken] using hb
  | array n written items cs => rfl
  | _ => rfl

end Expr

/-- Nothing that is thrown in the program is of type `void`. -/
def ThrowsValues (p : Program) : Prop :=
  statementsEverywhere (fun _ ↦ True) Statement.DemandsValues p

instance : DecidablePred ThrowsValues := fun p ↦
  inferInstanceAs (Decidable (statementsEverywhere (fun _ ↦ True) Statement.DemandsValues p))

/-- Wherever in the program values of several expressions meet, they are of the type that is
recorded there; and no operand of a fallback, no item of an array and nothing that is thrown is of
type `void`. -/
def JoinsValues (p : Program) : Prop :=
  (∀ q ∈ statementsRoles p, q.2.JoinsSoundly ∧ q.2.DemandsValues) ∧ ThrowsValues p

instance : DecidablePred JoinsValues := fun p ↦
  inferInstanceAs (Decidable
    ((∀ q ∈ statementsRoles p, q.2.JoinsSoundly ∧ q.2.DemandsValues) ∧ ThrowsValues p))

/-! ## Well typed trees -/

theorem Registry.Fits.fitsBehind {r : Registry} {e : Expr} {arg param : Ty} {c : Option Conversion}
    (h : r.Fits arg param c) (he : e.node.ty = some arg) : e.FitsBehind c param := by
  cases c with
  | none => exact ⟨arg, he, h⟩
  | some c =>
    obtain ⟨-, rfl, rfl, -⟩ := h
    exact ⟨c.target, by simp [Expr.tyBehind, he], .inl rfl⟩

theorem Expr.fitsBehind_self {e : Expr} {ty : Ty} (he : e.node.ty = some ty) :
    e.FitsBehind none ty :=
  ⟨ty, he, .inl rfl⟩

namespace Tables

variable {Γ : Tables} {b : Body} {e : Expr} {ty : Ty}

theorem joins_fit {x y : Expr} {onTrue onFalse : Ty} {v : Option BranchConversion}
    (hv : Γ.registry.Joins onTrue onFalse ty v) (hx : x.node.ty = some onTrue)
    (hy : y.node.ty = some onFalse) :
    x.FitsBehind (BranchConversion.on .thenBranch v) ty ∧
      y.FitsBehind (BranchConversion.on .elseBranch v) ty := by
  cases hv with
  | same heq => exact ⟨Expr.fitsBehind_self hx, Expr.fitsBehind_self (heq ▸ hy)⟩
  | first _ hfit => exact ⟨hfit.fitsBehind hx, Expr.fitsBehind_self hy⟩
  | second _ hfit => exact ⟨Expr.fitsBehind_self hx, hfit.fitsBehind hy⟩

theorem items_fit {items : List Expr} {types : List Ty} {element : Ty} {cs : Conversions}
    (hitems : Γ.TypedAll b items types)
    (hfit : Γ.registry.FitAll types (List.replicate types.length element) cs) :
    ∀ q ∈ items.mapIdx fun i e ↦ (e, (cs[i]?).join), q.1.FitsBehind q.2 element := by
  induction items generalizing types cs with
  | nil => exact fun _ hq ↦ absurd hq List.not_mem_nil
  | cons e es ih =>
    cases hitems with
    | cons head tail =>
      cases hfit with
      | cons hhead htail =>
        rw [List.mapIdx_cons]
        exact List.forall_mem_cons.mpr ⟨hhead.fitsBehind head.node_ty, ih tail htail⟩

/-- A well typed expression joins values of its own type only exactly if it is no fallback or one
whose right operand fits the left. -/
theorem Typed.joinsSoundly_iff (h : Γ.Typed b e ty) : e.JoinsSoundly ↔ e.FallsBackAlike := by
  cases h with
  | @coalesce _ n x y _ _ hx hy hn =>
    have hty : (Expr.coalesce n x y).joinedTy = some ty := hn.1
    simp [Expr.JoinsSoundly, Expr.FallsBackAlike, Expr.joined, Expr.fallback, hty, hx.node_ty,
      Expr.fitsBehind_self hx.node_ty]
  | @ternary _ n x y z _ _ _ v _ hy hz hv hn =>
    have hty : (Expr.ternary n x y z v).joinedTy = some ty := hn.1
    obtain ⟨hfit, hfit'⟩ := joins_fit hv hy.node_ty hz.node_ty
    simp [Expr.JoinsSoundly, Expr.FallsBackAlike, Expr.joined, Expr.fallback, hty, hfit, hfit']
  | @array _ n written items _ _ element cs _ hitems _ hfit hn =>
    have hty : (Expr.array n written items (some cs)).joinedTy = some element := by
      rw [Expr.joinedTy, hn.1]
      rfl
    exact iff_of_true (fun q hq ↦ ⟨element, hty, items_fit hitems hfit q hq⟩)
      (Expr.fallsBackAlike_of_nil rfl)
  | _ => exact Expr.joinsSoundly_iff_of_nil rfl rfl

theorem Fits.joinsSoundly_iff {q : Role × Expr} (h : Γ.Fits q) :
    q.2.JoinsSoundly ↔ q.2.FallsBackAlike := by
  cases h with
  | value h => exact h.joinsSoundly_iff
  | declaration h => cases h; exact Expr.joinsSoundly_iff_of_nil rfl rfl
  | typeName h => cases h <;> exact Expr.joinsSoundly_iff_of_nil rfl rfl
  | bareName h => cases h <;> exact Expr.joinsSoundly_iff_of_nil rfl rfl
  | owned h => cases h <;> exact Expr.joinsSoundly_iff_of_nil rfl rfl
  | bareChain h => cases h <;> exact Expr.joinsSoundly_iff_of_nil rfl rfl

end Tables

/-- Whatever the registry and the own type: in the tree of a program that binds, conditionals and
array literals join values of their own types only, and so does a fallback exactly if its right
operand fits the left one. All over the tree values are joined soundly and are there exactly if in
addition no left operand of a fallback, no item and nothing that is thrown is of type `void`. -/
theorem joinsValues_iff (c : BindContext) {p : Program} {ty : Ty} (hp : ∀ st ∈ p, st.Written)
    (hbind : (bindProgram c p).answer = .ok ty) :
    (∀ q ∈ statementsRoles (bindProgram c p).tree, q.2.JoinsSoundly ↔ q.2.FallsBackAlike) ∧
    (JoinsValues (bindProgram c p).tree ↔
      (∀ q ∈ statementsRoles (bindProgram c p).tree, q.2.FallsBackAlike ∧ q.2.TakesValues) ∧
        ThrowsValues (bindProgram c p).tree) := by
  have htyped := (BindContext.typedProgram_of_gives hp (BindContext.gives_bindProgram hbind)).1
  have hjoins : ∀ q ∈ statementsRoles (bindProgram c p).tree,
      q.2.JoinsSoundly ↔ q.2.FallsBackAlike := fun q hq ↦ (htyped.fits q hq).joinsSoundly_iff
  refine ⟨hjoins, and_congr_left' (forall₂_congr fun q hq ↦ ?_)⟩
  rw [hjoins q hq]
  exact and_congr_right Expr.demandsValues_iff

/-- A fallback of the same type, a conditional and an array that convert, and a thrown text. -/
theorem joinsValues_iff_of_conversions :
    ∃ p, parseProgram "var s: string = null; s ?? s; true ? 1 : 2.5; throw s; [1.5, 2]" = .ok p ∧
      (bindProgram ⟨.primitive, none⟩ p).answer = .ok (.array .double) ∧
      JoinsValues (bindProgram ⟨.primitive, none⟩ p).tree := by
  have hrun : (parseProgram "var s: string = null; s ?? s; true ? 1 : 2.5; throw s; [1.5, 2]"
      ).toOption.any (fun p ↦
        (bindProgram ⟨.primitive, none⟩ p).answer.toOption == some (.array .double) &&
        decide ((∀ q ∈ statementsRoles (bindProgram ⟨.primitive, none⟩ p).tree,
          q.2.FallsBackAlike ∧ q.2.TakesValues) ∧
          ThrowsValues (bindProgram ⟨.primitive, none⟩ p).tree)) = true := by
    decide +kernel
  obtain ⟨p, hp, hrun⟩ := (Option.any_eq_true _ _).mp hrun
  rw [Bool.and_eq_true, beq_iff_eq, decide_eq_true_eq] at hrun
  have hparse := ok_of_toOption hp
  have hbind := ok_of_toOption hrun.1
  refine ⟨p, hparse, hbind, ?_⟩
  exact (joinsValues_iff _ (written_of_parseProgram hparse) hbind).2.mpr hrun.2

/-- Binding accepts a fallback to a value of another type, and one from no value at all, an array of
no values, and a `throw` of none. -/
theorem not_joinsValues_of_unchecked :
    List.Forall (fun source ↦
      ∃ p ty, parseProgram source = .ok p ∧ (bindProgram ⟨.primitive, none⟩ p).answer = .ok ty ∧
        ¬JoinsValues (bindProgram ⟨.primitive, none⟩ p).tree)
      ["var s: string = null; s ?? 1", "function f() \x7b \x7d f() ?? 1",
        "function f() \x7b \x7d [f()]", "function f() \x7b \x7d throw f()"] := by
  refine List.forall_iff_forall_mem.mpr fun source hsource ↦ ?_
  have hrun : (parseProgram source).toOption.any (fun p ↦
      (bindProgram ⟨.primitive, none⟩ p).answer.toOption.isSome &&
        !decide (JoinsValues (bindProgram ⟨.primitive, none⟩ p).tree)) = true := by
    revert source
    decide +kernel
  obtain ⟨p, hp, hrun⟩ := (Option.any_eq_true _ _).mp hrun
  rw [Bool.and_eq_true, Bool.not_eq_true', decide_eq_false_iff_not] at hrun
  obtain ⟨ty, hty⟩ := Option.isSome_iff_exists.mp hrun.1
  exact ⟨p, ty, ok_of_toOption hp, ok_of_toOption hty, hrun.2⟩

end Scriptlet
