import Scriptlet.Proofs.Code.Closed

/-!
# Which functions have code

Binding walks into every expression and registers the functions that are defined there; the code of
a function is looked up among the definitions outside of expressions only. So everything that binds
has code as far as places and storages go, except for the hidden definitions: if there is one, the
bodies of the functions have no code.
-/

namespace Scriptlet

/-! ## Binding leaves definitions where they are -/

namespace BindContext

variable {c : BindContext} {s s' : Binder} {u : Unit}

/-- Binding the statement leaves its open definitions open, with their heads. -/
def KeepsOpen (c : BindContext) (st : Statement) : Prop :=
  ∀ {s s' st' u}, (c.statement st).Gives s st' s' u →
    st'.openDefinitions.map Definition.head = st.openDefinitions.map Definition.head

theorem openHeads_of_statements {sts sts' : List Statement} (ih : ∀ st ∈ sts, c.KeepsOpen st)
    (h : (c.statements sts).Gives s sts' s' u) :
    (openDefinitions sts').map Definition.head = (openDefinitions sts).map Definition.head := by
  induction sts generalizing s sts' with
  | nil =>
    obtain ⟨rfl, -⟩ := of_gives_statements_nil h
    rfl
  | cons st sts ihs =>
    obtain ⟨hst, hsts⟩ := List.forall_mem_cons.mp ih
    obtain ⟨st₁, sts₁, s₁, h₁, h₂, rfl⟩ := of_gives_statements_cons h
    rw [openDefinitions, openDefinitions, List.map_append, List.map_append, hst h₁, ihs hsts h₂]

theorem openHeads_of_alternative {b b' : Option Statement} (ih : ∀ st ∈ b, c.KeepsOpen st)
    (h : (c.alternative b).Gives s b' s' u) :
    (openAlternative b').map Definition.head = (openAlternative b).map Definition.head := by
  cases b with
  | none =>
    obtain ⟨rfl, -⟩ := of_gives_alternative_none h
    rfl
  | some st =>
    obtain ⟨st₁, s₁, hst, -, rfl⟩ := of_gives_alternative_some h
    exact ih st rfl hst

theorem keepsOpen (c : BindContext) (st : Statement) : c.KeepsOpen st := by
  refine Tree.Cases.statement (P := fun _ ↦ True) (Q := c.KeepsOpen) ?_ st
  constructor
  case function =>
    intro l signature body ih s s' st' u h
    obtain ⟨params, ret, body', s₁, -, -, hbody, -, rfl⟩ := of_gives_function h
    rw [Statement.openDefinitions, Statement.openDefinitions, List.map_cons, List.map_cons,
      openHeads_of_statements ih hbody]
  case blockStatement =>
    intro l body ih s s' st' u h
    obtain ⟨body', s₁, hbody, -, rfl⟩ := of_gives_block_statement h
    exact openHeads_of_statements ih hbody
  case cond =>
    intro l x a b _ iha ihb s s' st' u h
    obtain ⟨x', a', b', s₁, s₂, -, ha, hb, rfl⟩ := of_gives_cond h
    rw [Statement.openDefinitions, Statement.openDefinitions, List.map_append, List.map_append,
      iha ha, openHeads_of_alternative ihb hb]
  case exprStatement =>
    intro e _ s s' st' u h
    obtain ⟨e', ty, -, rfl⟩ := of_gives_expr_statement h
    rfl
  case ret =>
    intro l value k _ s s' st' u h
    obtain ⟨value', s₁, ty, ret, k, -, -, -, rfl⟩ := of_gives_ret h
    rfl
  case throw =>
    intro l value _ s s' st' u h
    obtain ⟨value', ty, -, rfl⟩ := of_gives_throw h
    rfl
  case vars =>
    intro l declarations _ s s' st' u h
    obtain ⟨declarations', -, rfl⟩ := of_gives_vars h
    rfl
  all_goals intros; trivial

/-- The hidden definitions of a bound tree are those of the program that was bound. -/
theorem hiddenHeads_of_gives {p q : Program} {ty : Ty} (hp : ∀ st ∈ p, st.Written)
    (h : (c.program p).Gives .start q s ty) :
    ((hiddenDefinitions q).map Definition.head).Perm
      ((hiddenDefinitions p).map Definition.head) := by
  obtain ⟨-, hheads, -⟩ := registered_of_gives hp h
  simp only [program, Pass.gives_within, Pass.gives_done] at h
  obtain ⟨q', s', _, hq, rfl, rfl, -⟩ := h
  have hopen := openHeads_of_statements (fun st _ ↦ c.keepsOpen st) hq
  -- all definitions keep their heads and so do the open ones, which leaves the hidden ones
  have hbound := (definitions_perm q).map Definition.head
  have hwritten := (definitions_perm p).map Definition.head
  rw [hheads, List.map_append, hopen] at hbound
  rw [List.map_append] at hwritten
  exact (List.perm_append_left_iff _).mp (hbound.symm.trans hwritten)

end BindContext

/-! ## Failures -/

namespace Tables

variable {Γ : Tables} {q : Program} {fs : List ScriptFunction}

/-- At the place of a function a body is found exactly if its definition is open. -/
theorem Describes.isSome_find?_iff {f : ScriptFunction} {d : Definition} (h : Γ.Describes f d)
    (hplaces : DistinctPlaces q) (hd : d ∈ statementsDefinitions q) :
    ((Code.definitions q).find? fun x ↦ x.1 = f.location).isSome ↔ d ∉ hiddenDefinitions q := by
  rw [h.location]
  constructor
  · intro hfound hhidden
    rw [hplaces.find?_hidden hhidden] at hfound
    cases hfound
  · intro hhidden
    have hopen := (mem_definitions_iff.mp hd).resolve_right hhidden
    rw [hplaces.find?_open hopen, Option.isSome_some]

/-- The bodies of functions fail in a preventable way only because one of them is hidden. -/
theorem hidden_of_failure {ds : List Definition} (h : List.Forall₂ Γ.Describes fs ds)
    (hds : ∀ d ∈ ds, d ∈ statementsDefinitions q) (hplaces : DistinctPlaces q) {index n : Nat}
    {x : EmitError} (hx : (Code.functions Γ.registry q index fs n).failure = some x)
    (hpreventable : x.isPreventable) : ∃ d ∈ hiddenDefinitions q, x = .unbound d.location := by
  induction h generalizing index n with
  | nil => cases hx
  | @cons f d fs ds hdescribed _ ih =>
    obtain ⟨hd, hds⟩ := List.forall_mem_cons.mp hds
    rw [Code.functions] at hx
    cases hfind : (Code.definitions q).find? fun x ↦ x.1 = f.location with
    | none =>
      -- nothing is found at the place, so the definition there is not open
      rw [hfind] at hx
      have hhidden : d ∈ hiddenDefinitions q := by
        by_contra hopen
        have hfound := (hdescribed.isSome_find?_iff hplaces hd).mpr hopen
        rw [hfind] at hfound
        cases hfound
      obtain rfl := Option.some.inj hx
      exact ⟨d, hhidden, congrArg EmitError.unbound hdescribed.location⟩
    | some y =>
      rw [hfind, Emit.require_some, hdescribed.body_eq hplaces hd hfind] at hx
      obtain ⟨inner, -, -, -, -, hstatements⟩ := hdescribed.body
      rcases Emit.failure_append hx with hx | ⟨m, hx⟩
      · -- the body itself does not fail in such a way, and a mark does not fail
        rcases Emit.failure_append hx with hx | ⟨m, hx⟩
        · cases hx
        · rw [(functionBody_touches hstatements).fails m x hx] at hpreventable
          cases hpreventable
      · exact ih hds hx

theorem exists_described (h : List.Forall₂ Γ.Describes fs (statementsDefinitions q))
    {d : Definition} (hd : d ∈ statementsDefinitions q) :
    ∃ (k : Nat) (f : ScriptFunction), fs[k]? = some f ∧ Γ.Describes f d := by
  obtain ⟨k, hk, rfl⟩ := List.mem_iff_getElem.mp hd
  have hk' : k < fs.length := h.length_eq ▸ hk
  exact ⟨k, _, List.getElem?_eq_getElem hk', h.get hk' hk⟩

/-- With a hidden definition among those of the functions, their bodies have no code. -/
theorem failure_of_hidden (h : List.Forall₂ Γ.Describes fs (statementsDefinitions q))
    (hplaces : DistinctPlaces q) {d : Definition} (hd : d ∈ hiddenDefinitions q) (index n : Nat) :
    (Code.functions Γ.registry q index fs n).failure.isSome := by
  have hmem := mem_definitions_iff.mpr (.inr hd)
  obtain ⟨k, f, hf, hdescribed⟩ := exists_described h hmem
  by_contra hnone
  -- with code for all bodies, each function's body was found
  have hgives := Emit.gives_of_failure (Option.not_isSome_iff_eq_none.mp hnone)
  obtain ⟨x, hfind, -⟩ := (Code.bodies_of_gives hgives).segment hf
  have hfound := hdescribed.isSome_find?_iff hplaces hmem
  rw [hfind, Option.isSome_some] at hfound
  exact hfound.mp rfl hd

/-- All bodies are found again exactly if no definition is hidden. -/
theorem found_iff (h : List.Forall₂ Γ.Describes fs (statementsDefinitions q))
    (hplaces : DistinctPlaces q) :
    (∀ f ∈ fs, ((Code.definitions q).find? fun d ↦ d.1 = f.location).isSome) ↔
      hiddenDefinitions q = [] := by
  constructor
  · intro hfound
    refine List.eq_nil_iff_forall_not_mem.mpr fun d hd ↦ ?_
    have hmem := mem_definitions_iff.mpr (.inr hd)
    obtain ⟨k, f, hf, hdescribed⟩ := exists_described h hmem
    have hfound := hfound f (List.mem_of_getElem? hf)
    exact (hdescribed.isSome_find?_iff hplaces hmem).mp hfound hd
  · intro hhidden f hf
    obtain ⟨k, hk⟩ := List.mem_iff_getElem?.mp hf
    obtain ⟨d, hd, hdescribed⟩ := describes_at h hk
    refine (hdescribed.isSome_find?_iff hplaces (List.mem_of_getElem? hd)).mpr ?_
    rw [hhidden]
    exact List.not_mem_nil

end Tables

/-! ## Bound programs -/

/-- The code of a bound program does not fail for a place that is empty or a storage that is
read-only, and the body of every registered function is found again. -/
structure Bound.Materializes (c : BindContext) (b : Bound Program Ty) : Prop where
  program : ∀ n x, (Code.program c.registry b.tree n).failure = some x → x.isPreventable = false
  functions : ∀ n x, (Code.functions c.registry b.tree 0 b.state.functions n).failure = some x →
    x.isPreventable = false
  found : ∀ f ∈ b.state.functions,
    ((Code.definitions b.tree).find? fun d ↦ d.1 = f.location).isSome

/-- Whatever the registry and the own type, a program that parses and binds materializes exactly if
no function is defined inside an expression. If one is, the bodies of the functions have no code,
and what fails in a preventable way is that such a definition is not found; the code of the program
outside of functions never fails so. -/
theorem materializes_iff_of_bindProgram (c : BindContext) {source : String} {p : Program} {ty : Ty}
    (hparse : parseProgram source = .ok p) (hbind : (bindProgram c p).answer = .ok ty) :
    ((bindProgram c p).Materializes c ↔ hiddenDefinitions p = []) ∧
    (∀ n x, (Code.program c.registry (bindProgram c p).tree n).failure = some x →
      x.isPreventable = false) ∧
    (∀ n x, (Code.functions c.registry (bindProgram c p).tree 0
        (bindProgram c p).state.functions n).failure = some x → x.isPreventable →
      ∃ d ∈ hiddenDefinitions p, x = .unbound d.location) ∧
    (hiddenDefinitions p ≠ [] → ∀ n, (Code.functions c.registry (bindProgram c p).tree 0
        (bindProgram c p).state.functions n).failure.isSome) := by
  obtain ⟨htyped, -, -, hdescribes, hplaces⟩ := registered_of_bindProgram c hparse hbind
  have hheads := BindContext.hiddenHeads_of_gives (written_of_parseProgram hparse)
    (BindContext.gives_bindProgram hbind)
  have hprogram := (Tables.program_touches htyped).fails
  have hnil : hiddenDefinitions (bindProgram c p).tree = [] ↔ hiddenDefinitions p = [] := by
    rw [← List.length_eq_zero_iff, ← List.length_eq_zero_iff, ← List.length_map Definition.head,
      hheads.length_eq, List.length_map]
  have hfails : ∀ n x, (Code.functions c.registry (bindProgram c p).tree 0
      (bindProgram c p).state.functions n).failure = some x → x.isPreventable →
      ∃ d ∈ hiddenDefinitions p, x = .unbound d.location := by
    intro n x hx hpreventable
    obtain ⟨d, hd, rfl⟩ :=
      Tables.hidden_of_failure hdescribes (fun _ hd ↦ hd) hplaces hx hpreventable
    obtain ⟨d', hd', hhead⟩ := List.mem_map.mp (hheads.mem_iff.mp (List.mem_map_of_mem hd))
    exact ⟨d', hd', by rw [Definition.location, Definition.location, hhead]⟩
  have hfound := Tables.found_iff hdescribes hplaces
  refine ⟨⟨fun h ↦ hnil.mp (hfound.mp h.found), fun hhidden ↦ ⟨hprogram, fun n x hx ↦ ?_,
    hfound.mpr (hnil.mpr hhidden)⟩⟩, hprogram, hfails, fun hhidden n ↦ ?_⟩
  · rw [← Bool.not_eq_true]
    intro hpreventable
    obtain ⟨d, hd, -⟩ := hfails n x hx hpreventable
    rw [hhidden] at hd
    cases hd
  · obtain ⟨d, hd⟩ := List.exists_mem_of_ne_nil _ (mt hnil.mp hhidden)
    exact Tables.failure_of_hidden hdescribes hplaces hd 0 n

/-- A function inside a function and one inside a branch: both are found again. -/
theorem materializes_iff_of_bindProgram_nested :
    ∃ p, parseProgram ("function f(): int \x7b function g() => 1; return g(); \x7d " ++
        "if (true) \x7b function h(x: int) => x; h(2); \x7d f()") = .ok p ∧
      (bindProgram ⟨.primitive, none⟩ p).answer = .ok .int ∧
      (bindProgram ⟨.primitive, none⟩ p).state.functions.length = 3 ∧
      (bindProgram ⟨.primitive, none⟩ p).Materializes ⟨.primitive, none⟩ := by
  have hrun : (parseProgram ("function f(): int \x7b function g() => 1; return g(); \x7d " ++
      "if (true) \x7b function h(x: int) => x; h(2); \x7d f()")).toOption.any (fun p ↦
        decide ((bindProgram ⟨.primitive, none⟩ p).answer.toOption = some .int ∧
          (bindProgram ⟨.primitive, none⟩ p).state.functions.length = 3 ∧
          (hiddenDefinitions p).length = 0)) = true := by
    decide +kernel
  obtain ⟨p, hp, hrun⟩ := (Option.any_eq_true _ _).mp hrun
  obtain ⟨hty, hlength, hhidden⟩ := of_decide_eq_true hrun
  have hparse := ok_of_toOption hp
  have hbind := ok_of_toOption hty
  obtain ⟨hiff, -⟩ := materializes_iff_of_bindProgram ⟨.primitive, none⟩ hparse hbind
  exact ⟨p, hparse, hbind, hlength, hiff.mpr (List.length_eq_zero_iff.mp hhidden)⟩

/-- A function that is defined in the block which a variable starts with. It is registered and
called, and its body is not found. -/
theorem not_materializes_of_hidden :
    ∃ p, parseProgram "var x = \x7b function f(): int => 1; f() \x7d; x" = .ok p ∧
      (bindProgram ⟨.primitive, none⟩ p).answer = .ok .int ∧
      (Code.functions .primitive (bindProgram ⟨.primitive, none⟩ p).tree 0
        (bindProgram ⟨.primitive, none⟩ p).state.functions 0).failure = some (.unbound ⟨1, 11⟩) ∧
      ¬(bindProgram ⟨.primitive, none⟩ p).Materializes ⟨.primitive, none⟩ := by
  have hrun : (parseProgram "var x = \x7b function f(): int => 1; f() \x7d; x").toOption.any
      (fun p ↦ decide ((bindProgram ⟨.primitive, none⟩ p).answer.toOption = some .int ∧
        (Code.functions .primitive (bindProgram ⟨.primitive, none⟩ p).tree 0
          (bindProgram ⟨.primitive, none⟩ p).state.functions 0).failure
            = some (.unbound ⟨1, 11⟩))) = true := by
    decide +kernel
  obtain ⟨p, hp, hrun⟩ := (Option.any_eq_true _ _).mp hrun
  obtain ⟨hty, hfails⟩ := of_decide_eq_true hrun
  refine ⟨p, ok_of_toOption hp, ok_of_toOption hty, hfails, fun h ↦ ?_⟩
  cases h.functions 0 _ hfails

end Scriptlet
