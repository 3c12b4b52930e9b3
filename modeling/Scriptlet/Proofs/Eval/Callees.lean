import Scriptlet.Eval.Builtin
import Scriptlet.Proofs.Code.Closed
import Scriptlet.Proofs.Eval.Definitions
import Scriptlet.Tree.Row

/-!
# Which definition a call runs

Binding and running keep tables of functions of their own. Binding takes the function of a call from
the definitions in the order of the text, and the first of those that fit equally well; a run takes
the newest part with the right number of parameters that the call can see. What they take always has
the same name and the same number of parameters, so it is the same definition wherever the program
has one of that kind only and the host has no function of that name.
-/

namespace Scriptlet

/-! ## Calls by name -/

namespace Action

/-- The values of expressions are as many as the expressions. -/
theorem exprs_congr {es : List Expr} {next next' : List Value → Action}
    (h : ∀ vs, vs.length = es.length → next vs = next' vs) : exprs es next = exprs es next' := by
  induction es generalizing next next' with
  | nil => exact h [] rfl
  | cons e es ih =>
    have hrest : ∀ v, exprs es (fun vs ↦ next (v :: vs)) = exprs es fun vs ↦ next' (v :: vs) :=
      fun v ↦ ih fun vs hvs ↦ h (v :: vs) (congrArg (· + 1) hvs)
    rw [exprs, exprs, funext hrest]

theorem called_of_isBareName {target : Expr} {x : String} (h : target.IsBareName x)
    (args : Course (List Value)) (l : Location) (next : Value → Action) :
    called target args l next = args fun vs ↦ .call x vs l fun r ↦ attempt r next := by
  induction h with
  | name _ => rfl
  | group _ _ ih => exact ih

end Action

/-! ## Parameters -/

/-- The function takes as many arguments as its definition has parameters. -/
theorem Tables.Describes.length_params {Γ : Tables} {f : ScriptFunction} {d : Definition}
    (h : Γ.Describes f d) : d.head.params.length = f.params.length := by
  obtain ⟨inner, htyped, hparams, -⟩ := h.bound
  have hlength := congrArg List.length (BindContext.names_of_typedParams htyped)
  rw [← hparams, List.length_map]
  simpa only [List.length_map] using hlength.symm

/-! ## The two tables -/

/-- The functions of an environment with built-in functions are native and have the names of
these. -/
theorem Environment.holds_withBuiltins :
    Environment.withBuiltins.Holds fun x part ↦ part.body.isNative ∧ Builtin.isBuiltin x := by
  have hall : ∀ p ∈ Builtin.all, p.2.body.isNative ∧ Builtin.isBuiltin p.1 := by decide
  have hadd : ∀ (ps : List (String × Part)) (env : Environment),
      (∀ p ∈ ps, p.2.body.isNative ∧ Builtin.isBuiltin p.1) →
      (env.Holds fun x part ↦ part.body.isNative ∧ Builtin.isBuiltin x) →
      (ps.foldl (fun env p ↦ env.defineFunction p.1 p.2) env).Holds
        fun x part ↦ part.body.isNative ∧ Builtin.isBuiltin x := by
    intro ps
    induction ps with
    | nil => exact fun env _ henv ↦ henv
    | cons p ps ih =>
      intro env hps henv
      obtain ⟨hp, hps⟩ := List.forall_mem_cons.mp hps
      exact ih _ hps (henv.defineFunction hp)
  refine hadd _ _ hall fun f hf x parts hx ↦ ?_
  obtain rfl := List.mem_singleton.mp hf
  cases hx

/-- The two definitions answer to the same calls: they have one name and one number of
parameters. -/
def Definition.Rivals (d d' : Definition) : Prop :=
  d'.head.name = d.head.name ∧ d'.head.params.length = d.head.params.length

/-- In a program whose definitions differ in name or number of parameters none has a rival. -/
theorem Definition.eq_of_rivals {ds : List Definition} {d d' : Definition}
    (h : (ds.map fun d ↦ (d.head.name, d.head.params.length)).Nodup) (hd : d ∈ ds) (hd' : d' ∈ ds)
    (hrivals : d.Rivals d') : d' = d :=
  List.inj_on_of_nodup_map h hd' hd (Prod.ext hrivals.1 hrivals.2)

/-- What a run begins for a call is a part of the host, or the body of a definition with that name
and that number of parameters. -/
theorem Machine.Defines.of_call {H : String → Prop} {D : Definition → Prop} {m : Machine}
    (hm : m.Defines H D) {x : String} {arity : Nat} {scope : Scope} {l : Location} {part : Part}
    (hpart : m.env.part x arity scope l = .ok part) :
    part.body.isNative ∧ H x ∨ ∃ d, D d ∧ d.head.name = x ∧ d.head.params.length = arity ∧
      part.body = .script (d.head.params.map Param.name) d.body := by
  obtain ⟨hnative | ⟨params, body, ⟨d, hd, hname, rfl, rfl⟩, hbody, hfixed⟩, hselected⟩ :=
    hm.parts.of_part hpart
  · exact .inl hnative
  · refine .inr ⟨d, hd, hname, ?_, hbody⟩
    rw [hfixed, List.length_map] at hselected
    rcases hselected with hselected | hselected
    · exact Arity.fixed.inj hselected
    · cases hselected

/-- A call of a function of the program is well typed as one by name. -/
theorem script_of_fits {Γ : Tables} {role : Role} {n : Node} {target : Expr} {args : List Expr}
    {i : Nat} {ret : Ty} {cs : Conversions}
    (h : Γ.Fits (role, .call n target args (some ⟨.script i, ret, cs⟩))) :
    ∃ f, target.IsBareName f.name ∧ Γ.functions[i]? = some f ∧ f.params.length = args.length := by
  cases h with
  | value h =>
    generalize ht : (⟨.script i, ret, cs⟩ : CallTarget) = t at h
    cases h with
    | callFunction hx hargs hmeaning =>
      cases hmeaning with
      | script hf hname hfit =>
        cases ht
        exact ⟨_, hname ▸ hx, hf, by rw [hargs.length_eq, hfit.length_eq.2]⟩
      | method _ _ _ => cases ht
    | callMethod _ _ hmeaning =>
      cases hmeaning
      cases ht
    | callValue _ _ _ => cases ht
  | declaration h => cases h
  | typeName h => cases h
  | bareName h => cases h
  | owned h => cases h
  | bareChain h => cases h

/-- Definitions with the same heads stand in the same places of the lists. -/
theorem exists_of_heads {ds ds' : List Definition} {i : Nat} {d' : Definition}
    (h : ds'.map Definition.head = ds.map Definition.head) (hd' : ds'[i]? = some d') :
    ∃ d, ds[i]? = some d ∧ d.head = d'.head := by
  have hi : (ds.map Definition.head)[i]? = some d'.head := by
    rw [← h, List.getElem?_map, hd', Option.map_some]
  rw [List.getElem?_map] at hi
  exact Option.map_eq_some_iff.mp hi

/-- A call that binding has taken for function `i` of the program is a call by the name of
definition `i`, with as many arguments as that has parameters, and running it means calling that
name. Whenever a run does so, it begins a part of the host or the body of a definition that answers
to the same calls; and if definition `i` has no rivals in the program or at the host, it begins the
body of definition `i`. -/
theorem body_of_callee (c : BindContext) {source : String} {p : Program} {ty : Ty}
    {env : Environment} {role : Role} {n : Node} {target : Expr} {args : List Expr} {i : Nat}
    {ret : Ty} {cs : Conversions} (hparse : parseProgram source = .ok p)
    (hbind : (bindProgram c p).answer = .ok ty) (henv : env.Holds fun _ part ↦ part.body.isNative)
    (hnode : (role, .call n target args (some ⟨.script i, ret, cs⟩))
      ∈ statementsRoles (bindProgram c p).tree) :
    ∃ f d, (bindProgram c p).state.functions[i]? = some f ∧ (statementsDefinitions p)[i]? = some d ∧
      f.name = d.head.name ∧ f.location = d.location ∧ d.head.params.length = args.length ∧
      (∀ t next other, Action.expr (.call n target args t) next = Action.exprs args fun vs ↦
        if vs.length = args.length then .call d.head.name vs n.location fun r ↦ .attempt r next
        else other) ∧
      ∀ limit k vs l next part, ((Machine.start p env).after limit k).action
          = .call d.head.name vs l next → vs.length = args.length →
        ((Machine.start p env).after limit k).env.part d.head.name vs.length
          ((Machine.start p env).after limit k).env.callScope l = .ok part →
        (part.body.isNative ∨ ∃ d' ∈ statementsDefinitions p, d.Rivals d' ∧
          part.body = .script (d'.head.params.map Param.name) d'.body) ∧
        ((∀ d' ∈ statementsDefinitions p, d.Rivals d' → d' = d) →
          (env.Holds fun x _ ↦ x ≠ d.head.name) →
          part.body = .script (d.head.params.map Param.name) d.body) := by
  obtain ⟨htyped, -, -, hdescribes, -⟩ := registered_of_bindProgram c hparse hbind
  obtain ⟨-, hheads, -⟩ := BindContext.registered_of_gives (written_of_parseProgram hparse)
    (BindContext.gives_bindProgram hbind)
  obtain ⟨f, hx, hf, hparams⟩ := script_of_fits (htyped.fits _ hnode)
  obtain ⟨d', hd', hdescribed⟩ := Tables.describes_at hdescribes hf
  obtain ⟨d, hd, hhead⟩ := exists_of_heads hheads hd'
  have hname : f.name = d.head.name := by rw [hdescribed.name, hhead]
  have hlength : d.head.params.length = args.length := by
    rw [hhead, hdescribed.length_params, hparams]
  refine ⟨f, d, hf, hd, hname, ?_, hlength, fun t next other ↦ ?_,
    fun limit k vs l next part _ hvs hpart ↦ ⟨?_, fun hsingle hhost ↦ ?_⟩⟩
  · rw [hdescribed.location, Definition.location, Definition.location, hhead]
  · rw [Action.expr, Action.called_of_isBareName (hname ▸ hx)]
    exact Action.exprs_congr fun vs hvs ↦ (if_pos hvs).symm
  · have hm := Machine.defines_after (H := fun _ ↦ True)
      (henv.mono fun _ _ h ↦ ⟨h, trivial⟩) limit p k
    rcases hm.of_call hpart with ⟨hnative, -⟩ | ⟨d₁, hd₁, hname₁, harity, hbody⟩
    · exact .inl hnative
    · exact .inr ⟨d₁, hd₁, ⟨hname₁, harity.trans (hvs.trans hlength.symm)⟩, hbody⟩
  · have hm := Machine.defines_after (H := (· ≠ d.head.name)) (henv.and hhost) limit p k
    rcases hm.of_call hpart with ⟨-, hne⟩ | ⟨d₁, hd₁, hname₁, harity, hbody⟩
    · exact absurd rfl hne
    · rw [hbody, hsingle d₁ hd₁ ⟨hname₁, harity.trans (hvs.trans hlength.symm)⟩]

/-! ## Calls that are found by evaluation -/

/-- The expression is a call with so many arguments, and binding took the first function for it. -/
def Expr.callsFirst (arity : Nat) : Expr → Bool
  | .call _ _ args (some ⟨.script 0, _, _⟩) => args.length == arity
  | _ => false

theorem Expr.of_callsFirst {e : Expr} {arity : Nat} (h : e.callsFirst arity = true) :
    ∃ n target args ret cs, e = .call n target args (some ⟨.script 0, ret, cs⟩) ∧
      args.length = arity := by
  unfold callsFirst at h
  split at h
  · exact ⟨_, _, _, _, _, rfl, beq_iff_eq.mp h⟩
  · cases h

/-- The part that a call of the name with so many arguments begins, if such a call comes next. -/
def Machine.begins? (m : Machine) (name : String) (arity : Nat) : Option Part :=
  match m.action with
  | .call x vs l _ =>
    if x = name ∧ vs.length = arity then
      (m.env.part x vs.length m.env.callScope l).toOption
    else none
  | _ => none

theorem Machine.of_begins? {m : Machine} {name : String} {arity : Nat} {part : Part}
    (h : m.begins? name arity = some part) :
    ∃ vs l next, m.action = .call name vs l next ∧ vs.length = arity ∧
      m.env.part name vs.length m.env.callScope l = .ok part := by
  unfold begins? at h
  split at h
  · rename_i x vs l next haction
    split at h
    · rename_i hcall
      obtain ⟨rfl, hlength⟩ := hcall
      exact ⟨vs, l, next, haction, hlength, ok_of_toOption h⟩
    · cases h
  · cases h

/-- The parameters of a body in a script, and its rows. -/
def PartBody.outline? : PartBody → Option (List String × List String)
  | .script params body => some (params, (TreeRow.program body).map TreeRow.label)
  | .native _ => none

theorem PartBody.of_outline? {b : PartBody} {params rows : List String}
    (h : b.outline? = some (params, rows)) :
    ∃ body, b = .script params body ∧ (TreeRow.program body).map TreeRow.label = rows := by
  cases b with
  | script ps body =>
    obtain ⟨rfl, hrows⟩ := Prod.mk.inj (Option.some.inj h)
    exact ⟨body, rfl, hrows⟩
  | native act => cases h

/-- Two functions of one name with different numbers of parameters, one with a function inside it.
The call inside the other one is for the first, and the run begins the body of the first there. -/
theorem body_of_callee_overloads :
    ∃ p d, parseProgram ("function f(a: int): int \x7b function g(b: int): int => b + 1; " ++
        "return g(a); \x7d function f(): int => f(41); f()") = .ok p ∧
      (bindProgram ⟨.primitive, none⟩ p).answer = .ok .int ∧
      (∃ role n target args ret cs, (role, .call n target args (some ⟨.script 0, ret, cs⟩))
        ∈ statementsRoles (bindProgram ⟨.primitive, none⟩ p).tree) ∧
      (statementsDefinitions p)[0]? = some d ∧ d.head.name = "f" ∧
      ∃ k vs l next part, ((Machine.start p .withBuiltins).after 8 k).action = .call "f" vs l next ∧
        ((Machine.start p .withBuiltins).after 8 k).env.part "f" vs.length
          ((Machine.start p .withBuiltins).after 8 k).env.callScope l = .ok part ∧
        part.body = .script ["a"] d.body := by
  have hrun : (parseProgram ("function f(a: int): int \x7b function g(b: int): int => b + 1; " ++
      "return g(a); \x7d function f(): int => f(41); f()")).toOption.any (fun p ↦
        (bindProgram ⟨.primitive, none⟩ p).answer.toOption == some .int &&
        (statementsRoles (bindProgram ⟨.primitive, none⟩ p).tree).any (fun q ↦ q.2.callsFirst 1) &&
        decide ((statementsDefinitions p).map fun d ↦ (d.head.name, d.head.params.length)).Nodup &&
        (statementsDefinitions p)[0]?.map (fun d ↦ (d.head.name, d.head.params.map Param.name))
          == some ("f", ["a"]) &&
        (((Machine.start p .withBuiltins).after 8 3).begins? "f" 1).isSome) = true := by
    decide +kernel
  obtain ⟨p, hp, hrun⟩ := (Option.any_eq_true _ _).mp hrun
  simp only [Bool.and_eq_true, beq_iff_eq, List.any_eq_true, decide_eq_true_eq] at hrun
  obtain ⟨⟨⟨⟨hbind, ⟨role, e⟩, hnode, hcall⟩, hnodup⟩, hfirst⟩, hpoint⟩ := hrun
  obtain ⟨n, target, args, ret, cs, rfl, hargs⟩ := Expr.of_callsFirst hcall
  obtain ⟨part, hpart⟩ := Option.isSome_iff_exists.mp hpoint
  obtain ⟨vs, l, next, haction, hvs, hselected⟩ := Machine.of_begins? hpart
  have hhost := Environment.holds_withBuiltins
  obtain ⟨f, d, -, hd, -, -, -, -, hbody⟩ := body_of_callee ⟨.primitive, none⟩
    (ok_of_toOption hp) (ok_of_toOption hbind) (hhost.mono fun _ _ h ↦ h.1) hnode
  rw [hd, Option.map_some] at hfirst
  obtain ⟨hname, hparams⟩ := Prod.mk.inj (Option.some.inj hfirst)
  rw [hname, hparams] at hbody
  refine ⟨p, d, ok_of_toOption hp, ok_of_toOption hbind, ⟨_, _, _, _, _, _, hnode⟩, hd, hname, 3,
    vs, l, next, part, haction, hselected, ?_⟩
  refine (hbody 8 3 vs l next part haction (hvs.trans hargs.symm) hselected).2
    (fun d' hd' hrivals ↦ ?_) ?_
  · exact Definition.eq_of_rivals hnodup (List.mem_of_getElem? hd) hd' hrivals
  · exact hhost.mono fun x _ h hx ↦ by
      rw [hx] at h
      exact absurd h.2 (by decide)

/-- Of two functions with the same name and no parameters, the call behind them is for the first,
and the run begins the body of the second. -/
theorem body_of_callee_redefined :
    ∃ p d part body, parseProgram "function f(): int => 1; function f(): int => 2; f()" = .ok p ∧
      (bindProgram ⟨.primitive, none⟩ p).answer = .ok .int ∧
      (∃ n target ret cs, (.value, .call n target [] (some ⟨.script 0, ret, cs⟩))
        ∈ statementsRoles (bindProgram ⟨.primitive, none⟩ p).tree) ∧
      (statementsDefinitions p)[0]? = some d ∧
      (TreeRow.program d.body).map TreeRow.label = ["return", "1"] ∧
      (∃ l next, ((Machine.start p .withBuiltins).after 8 2).action = .call "f" [] l next ∧
        ((Machine.start p .withBuiltins).after 8 2).env.part "f" 0
          ((Machine.start p .withBuiltins).after 8 2).env.callScope l = .ok part) ∧
      part.body = .script [] body ∧ (TreeRow.program body).map TreeRow.label = ["return", "2"] ∧
      (Eval.program Eval.defaultLimit p .withBuiltins).1 = .ok (.int 2) := by
  have hrun : (parseProgram "function f(): int => 1; function f(): int => 2; f()").toOption.any
      (fun p ↦
        (bindProgram ⟨.primitive, none⟩ p).answer.toOption == some .int &&
        (statementsRoles (bindProgram ⟨.primitive, none⟩ p).tree).any (fun q ↦
          q.1 == .value && q.2.callsFirst 0) &&
        (statementsDefinitions p)[0]?.any (fun d ↦
          (TreeRow.program d.body).map TreeRow.label == ["return", "1"]) &&
        (((Machine.start p .withBuiltins).after 8 2).begins? "f" 0).any (fun part ↦
          part.body.outline? == some ([], ["return", "2"])) &&
        decide ((Eval.program Eval.defaultLimit p .withBuiltins).1 = .ok (.int 2))) = true := by
    decide +kernel
  obtain ⟨p, hp, hrun⟩ := (Option.any_eq_true _ _).mp hrun
  simp only [Bool.and_eq_true, beq_iff_eq, List.any_eq_true, decide_eq_true_eq] at hrun
  obtain ⟨⟨⟨⟨hbind, ⟨role, e⟩, hnode, rfl, hcall⟩, hfirst⟩, hpoint⟩, hvalue⟩ := hrun
  obtain ⟨d, hd, hone⟩ := (Option.any_eq_true _ _).mp hfirst
  obtain ⟨n, target, args, ret, cs, rfl, hargs⟩ := Expr.of_callsFirst hcall
  obtain rfl := List.eq_nil_of_length_eq_zero hargs
  obtain ⟨part, hpart, htwo⟩ := (Option.any_eq_true _ _).mp hpoint
  obtain ⟨vs, l, next, haction, hvs, hselected⟩ := Machine.of_begins? hpart
  obtain rfl := List.eq_nil_of_length_eq_zero hvs
  obtain ⟨body, hbody, hrows⟩ := PartBody.of_outline? (beq_iff_eq.mp htwo)
  exact ⟨p, d, part, body, ok_of_toOption hp, ok_of_toOption hbind, ⟨n, target, ret, cs, hnode⟩, hd,
    beq_iff_eq.mp hone, ⟨l, next, haction, hselected⟩, hbody, hrows, hvalue⟩

end Scriptlet
