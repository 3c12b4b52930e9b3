import Scriptlet.Proofs.Agreement.Trees
import Scriptlet.Proofs.Eval.Activation

/-!
# Runs keep types

At every point of a run there is a site, and the stack of what waits says what the frames hold: each
frame belongs to the body of a call that is going on or to the top level, and its variables are
those of that body, with values of their types. What waits for the end of a frame goes on to keep
types if the frame ends as its site says. A step keeps all this. The one step that needs the program
as a whole is a call, which begins the body of some definition; whichever it is, it has the types of
the function that binding took the call for.
-/

namespace Scriptlet

/-! ## Frames -/

namespace Frame.Fits

variable {b : BodyTypes} {f : Frame}

theorem empty (b : BodyTypes) (kind : FrameKind) : (Frame.empty kind).Fits b :=
  ⟨fun _ _ h ↦ (nomatch h), rfl⟩

theorem setVariable {x : String} {v : Value} (h : f.Fits b)
    (hv : ∃ ty, (x, ty) ∈ b.variables ∧ v.Is ty) : (Environment.setVariable x v f).Fits b := by
  refine ⟨fun y w hy ↦ ?_, h.constants⟩
  rw [Environment.setVariable, Table.get?_put] at hy
  split at hy
  · rename_i hyx
    rw [hyx, ← Option.some.inj hy]
    exact hv
  · exact h.vars y w hy

theorem addPart (h : f.Fits b) (name : String) (part : Part) :
    (Environment.addPart name part f).Fits b :=
  ⟨h.vars, h.constants⟩

end Frame.Fits

namespace Environment

theorem has_setVariable {x y : String} {v : Value} {f : Frame} (h : f.vars.has y ∨ y = x) :
    (setVariable x v f).vars.has y := by
  rw [setVariable, Table.has, Table.get?_put]
  split
  · rfl
  · rename_i hne
    exact h.resolve_right hne

end Environment

/-! ## Bodies that are running -/

/-- A call that runs the body of the definition. -/
def Definition.activation (d : Definition) : Activation :=
  ⟨d.head.name, .script (d.head.params.map Param.name) d.body⟩

/-- The types are those of the body at hand where these calls are going on: of the top level outside
of all calls, and else of the definition whose body the innermost call runs. The program has these
definitions. -/
inductive ProgramTypes.IsIn (W : ProgramTypes) (ds : List Definition) :
    List Activation → BodyTypes → Prop where
  | top : W.IsIn ds [] W.top
  | body {i : Nat} {d : Definition} {b : BodyTypes} {calls : List Activation} (hd : ds[i]? = some d)
      (hb : W.inner[i]? = some b) : W.IsIn ds (d.activation :: calls) b

/-! ## Stacks -/

/-- What waits above the frames for the end of the actions at the site, while the calls are going
on. At the top level the run ends as `done` says, and the body of a call ends with a value of what
it returns. All that is known to be defined is in the frames of the body. -/
inductive Stack (W : ProgramTypes) (ds : List Definition) (done : Flow → Prop) :
    Site → List Activation → List Pending → List Frame → Prop where
  | top (known : List String) : Stack W ds done ⟨W.top, known, done⟩ [] [] []
  | block {C : Site} {known : List String} {ends : Flow → Prop} {next : Flow → Action}
      {calls : List Activation} {ps : List Pending} {f : Frame} {fs : List Frame}
      (hkind : f.kind ≠ .function) (hfits : f.Fits C.body)
      (hknown : ∀ x ∈ known, x ∈ C.known ∨ f.vars.has x)
      (hnext : ∀ flow, ends flow → (next flow).Keeps W C) (hrest : Stack W ds done C calls ps fs) :
      Stack W ds done ⟨C.body, known, ends⟩ calls (.block next :: ps) (f :: fs)
  | script {C : Site} {b : BodyTypes} {known : List String} {call : Activation}
      {next : Except EvalError Value → Action} {calls : List Activation} {ps : List Pending}
      {f : Frame} {fs : List Frame} (hb : W.IsIn ds (call :: calls) b) (hkind : f.kind = .function)
      (hfits : f.Fits b) (hknown : ∀ x ∈ known, f.vars.has x)
      (herror : ∀ e, (next (.error e)).Keeps W C)
      (hnext : ∀ v, v.Is b.ret → (next (.ok v)).Keeps W C) (hrest : Stack W ds done C calls ps fs) :
      Stack W ds done ⟨b, known, fun flow ↦ flow.result.Is b.ret⟩ (call :: calls)
        (.script next :: ps) (f :: fs)

namespace Stack

open Environment (upToFunction changeUpToFunction setVariable)

variable {W : ProgramTypes} {ds : List Definition} {done : Flow → Prop} {C : Site}
  {calls : List Activation} {ps : List Pending} {f : Frame} {fs fs' : List Frame}
  {env : Environment} {x : String} {v : Value}

/-- The body at hand is the one that the innermost call runs. -/
theorem isIn (h : Stack W ds done C calls ps fs) : W.IsIn ds calls C.body := by
  induction h with
  | top known => exact .top
  | block _ _ _ _ _ ih => exact ih
  | script hb _ _ _ _ _ _ _ => exact hb

/-- The body at hand is that of a function exactly if there is a frame of a function. -/
theorem of_body (h : Stack W ds done C calls ps fs) :
    C.body = W.top ∧ (∀ f ∈ fs, f.kind ≠ .function) ∨
      C.body ∈ W.inner ∧ ∃ f ∈ fs, f.kind = .function := by
  induction h with
  | top known => exact .inl ⟨rfl, fun f hf ↦ absurd hf List.not_mem_nil⟩
  | block hkind _ _ _ _ ih =>
    rcases ih with ⟨hbody, hfs⟩ | ⟨hbody, f, hf, hfunction⟩
    · exact .inl ⟨hbody, List.forall_mem_cons.mpr ⟨hkind, hfs⟩⟩
    · exact .inr ⟨hbody, f, List.mem_cons_of_mem _ hf, hfunction⟩
  | script hb hkind _ _ _ _ _ _ =>
    cases hb with
    | body _ hb => exact .inr ⟨List.mem_of_getElem? hb, _, List.mem_cons_self, hkind⟩

theorem own (h : Stack W ds done C calls ps fs) : ∀ f ∈ upToFunction fs, f.Fits C.body := by
  induction h with
  | top known => exact fun f hf ↦ absurd hf List.not_mem_nil
  | block hkind hfits _ _ _ ih =>
    rw [upToFunction, if_neg hkind]
    exact List.forall_mem_cons.mpr ⟨hfits, ih⟩
  | script _ hkind hfits _ _ _ _ _ =>
    rw [upToFunction, if_pos hkind]
    exact List.forall_mem_singleton.mpr hfits

theorem settled (h : Stack W ds done C calls ps fs) (htop : W.top.params = []) (hx : C.Settled x) :
    ∃ f ∈ upToFunction fs, f.vars.has x := by
  induction h with
  | top known =>
    have hparam := hx.2
    rw [htop] at hparam
    cases hparam
  | block hkind _ hknown _ _ ih =>
    rw [upToFunction, if_neg hkind]
    rcases hknown x hx.1 with hknown | hhas
    · obtain ⟨f, hf, hhas⟩ := ih ⟨hknown, hx.2⟩
      exact ⟨f, List.mem_cons_of_mem _ hf, hhas⟩
    · exact ⟨_, List.mem_cons_self, hhas⟩
  | script _ hkind _ hknown _ _ _ _ =>
    rw [upToFunction, if_pos hkind]
    exact ⟨_, List.mem_cons_self, hknown x hx.1⟩

theorem shows (h : Stack W ds done C calls ps env.inner) (htop : W.top.params = [])
    (hglobal : env.global.Fits W.top) : env.Shows W C :=
  ⟨h.own, fun _ hx ↦ h.settled htop hx, hglobal⟩

/-- The innermost frame may be written, and then more may be known. -/
theorem changeHead {g : Frame} (h : Stack W ds done C calls ps (f :: fs)) (hkind : g.kind = f.kind)
    (hfits : f.Fits C.body → g.Fits C.body) (hhas : ∀ y, f.vars.has y → g.vars.has y)
    {known : List String} (hknown : ∀ y ∈ known, y ∈ C.known ∨ g.vars.has y) :
    Stack W ds done { C with known := known } calls ps (g :: fs) := by
  cases h with
  | block hkind' hfits' hknown' hnext hrest =>
    rename_i C _ _ _ _
    refine .block (C := C) (hkind ▸ hkind') (hfits hfits') (fun y hy ↦ ?_) hnext hrest
    rcases hknown y hy with hy | hy
    · exact (hknown' y hy).imp_right (hhas y)
    · exact .inr hy
  | script hb hkind' hfits' hknown' herror hnext hrest =>
    refine .script hb (hkind ▸ hkind') (hfits hfits') (fun y hy ↦ ?_) herror hnext hrest
    exact (hknown y hy).elim (fun hy ↦ hhas y (hknown' y hy)) id

/-- A definition of a variable that the body has. -/
theorem define (h : Stack W ds done C calls ps env.inner) (hglobal : env.global.Fits W.top)
    (hv : C.Takes x v) : Stack W ds done (C.know x) calls ps (env.define x v).inner ∧
      (env.define x v).global.Fits W.top := by
  obtain ⟨inner, global, output⟩ := env
  cases inner with
  | nil =>
    cases h with
    | top known => exact ⟨.top _, hglobal.setVariable hv⟩
  | cons f fs =>
    refine ⟨changeHead (g := setVariable x v f) h rfl (·.setVariable hv)
      (fun y hy ↦ Environment.has_setVariable (.inl hy)) fun y hy ↦ ?_, hglobal⟩
    rcases List.mem_cons.mp hy with rfl | hy
    · exact .inr (Environment.has_setVariable (.inr rfl))
    · exact .inl hy

/-- A definition of a function touches no variable. -/
theorem defineFunction (h : Stack W ds done C calls ps env.inner) (hglobal : env.global.Fits W.top)
    (name : String) (part : Part) :
    Stack W ds done C calls ps (env.defineFunction name part).inner ∧
      (env.defineFunction name part).global.Fits W.top := by
  obtain ⟨inner, global, output⟩ := env
  cases inner with
  | nil => exact ⟨h, hglobal.addPart name part⟩
  | cons f fs =>
    exact ⟨changeHead (g := Environment.addPart name part f) h rfl (·.addPart name part)
      (fun _ h ↦ h) fun _ ↦ .inl, hglobal⟩

/-- The write of a variable in one of the frames of the body. -/
theorem changeOwn (h : Stack W ds done C calls ps fs) (hv : C.Takes x v)
    (hchange : changeUpToFunction (fun f ↦ f.vars.has x) (setVariable x v) fs = some fs') :
    Stack W ds done C calls ps fs' := by
  induction h generalizing fs' with
  | top known => cases hchange
  | block hkind hfits hknown hnext hrest ih =>
    rw [changeUpToFunction, if_neg hkind] at hchange
    split at hchange
    · obtain rfl := Option.some.inj hchange
      exact .block hkind (hfits.setVariable hv)
        (fun y hy ↦ (hknown y hy).imp_right fun h ↦ Environment.has_setVariable (.inl h))
        hnext hrest
    · obtain ⟨gs, hgs, rfl⟩ := Option.map_eq_some_iff.mp hchange
      exact .block hkind hfits hknown hnext (ih hv hgs)
  | script hb hkind hfits hknown herror hnext hrest ih =>
    rw [changeUpToFunction, if_pos hkind] at hchange
    split at hchange
    · obtain rfl := Option.some.inj hchange
      exact .script hb hkind (hfits.setVariable hv)
        (fun y hy ↦ Environment.has_setVariable (.inl (hknown y hy))) herror hnext hrest
    · cases hchange

/-- The write of a variable, wherever it is found. -/
theorem assign (h : Stack W ds done C calls ps env.inner) (htop : W.top.params = [])
    (hglobal : env.global.Fits W.top) (hv : C.Takes x v)
    (hshared : C.Settled x ∨ ∀ ty, (x, ty) ∈ W.top.variables → v.Is ty) :
    ∃ C', C.Below C' ∧ Stack W ds done C' calls ps (env.assign x v).inner ∧
      (env.assign x v).global.Fits W.top := by
  have hrefl : C.Below C := ⟨rfl, fun _ h ↦ h, rfl⟩
  rw [Environment.assign, Environment.changeVisible?]
  split
  · rename_i inner hchange
    exact ⟨C, hrefl, h.changeOwn hv hchange, hglobal⟩
  · rename_i hchange
    split
    · -- it is a global variable that no frame of the body hides
      rename_i hhas
      refine ⟨C, hrefl, h, hglobal.setVariable ?_⟩
      obtain ⟨old, hold⟩ := Option.isSome_iff_exists.mp hhas
      obtain ⟨ty, hty, -⟩ := hglobal.vars x old hold
      refine ⟨ty, hty, ?_⟩
      rcases hshared with hsettled | hshared
      · obtain ⟨f, hf, hfx⟩ := h.settled htop hsettled
        have hnone := Environment.find?_of_changeUpToFunction hchange
        exact absurd hfx (List.find?_eq_none.mp hnone f hf)
      · exact hshared ty hty
    · exact ⟨C.know x, .of_know C x, h.define hglobal hv⟩

end Stack

/-! ## Bodies of functions -/

/-- Running the body of the definition is running well typed statements, in the body that the
program has for it, that belong to a function with these types. -/
structure ProgramTypes.Runs (W : ProgramTypes) (ds : List Definition) (d : Definition)
    (f : ScriptFunction) (b : Body) : Prop where
  mem : f ∈ W.functions
  body : ∃ i : Nat, ds[i]? = some d ∧ W.inner[i]? = some b.types
  name : f.name = d.head.name
  names : b.params.map Prod.fst = d.head.params.map Param.name
  types : b.params.map Prod.snd = f.params
  ret : b.ret.ty = f.ret
  statements : ∃ sts, d.body = statementsBare sts ∧ (∀ st ∈ sts, W.tables.TypedStatement b st) ∧
    ∀ st ∈ sts, st.Unconverted

/-- The types are those of a program with these definitions, those inside of others included. -/
structure ProgramTypes.Covers (W : ProgramTypes) (ds : List Definition) : Prop where
  unambiguous : W.Unambiguous
  params : W.top.params = []
  runs : ∀ d ∈ ds, ∃ f b, W.Runs ds d f b
  nested : ∀ d ∈ ds, ∀ d' ∈ statementsDefinitions d.body, d' ∈ ds

theorem ProgramTypes.Runs.mem_inner {W : ProgramTypes} {ds : List Definition} {d : Definition}
    {f : ScriptFunction} {b : Body} (h : W.Runs ds d f b) : b.types ∈ W.inner := by
  obtain ⟨i, -, hb⟩ := h.body
  exact List.mem_of_getElem? hb

theorem exists_of_mem_zip {params : List (String × Ty)} {vs : List Value}
    (hvs : List.Forall₂ Value.Is vs (params.map Prod.snd)) :
    ∀ p ∈ (params.map Prod.fst).zip vs, ∃ ty, (p.1, ty) ∈ params ∧ p.2.Is ty := by
  induction params generalizing vs with
  | nil => exact fun p hp ↦ absurd hp List.not_mem_nil
  | cons q params ih =>
    cases hvs with
    | cons hv hvs =>
      refine List.forall_mem_cons.mpr ⟨⟨q.2, List.mem_cons_self, hv⟩, fun p hp ↦ ?_⟩
      obtain ⟨ty, hty, hp⟩ := ih hvs p hp
      exact ⟨ty, List.mem_cons_of_mem _ hty, hp⟩

namespace Action

variable {W : ProgramTypes} {ds : List Definition} {d : Definition} {f : ScriptFunction} {b : Body}

/-- The body of a function, with arguments of the types of its parameters, ends with a value of what
it returns. -/
theorem keeps_body (hW : W.Unambiguous) (h : W.Runs ds d f b) {vs : List Value}
    (hvs : List.Forall₂ Value.Is vs f.params) :
    (defineAll ((d.head.params.map Param.name).zip vs) (statements .null d.body finish)).Keeps W
      ⟨b.types, [], fun flow ↦ flow.result.Is b.types.ret⟩ := by
  obtain ⟨sts, hsts, htyped, hunconverted⟩ := h.statements
  rw [← h.types] at hvs
  rw [← h.names, hsts]
  refine keeps_defineAll (fun p hp ↦ ?_) ?_
  · obtain ⟨ty, hty, hp⟩ := exists_of_mem_zip hvs p hp
    exact ⟨ty, List.mem_append_left _ hty, hp⟩
  · refine keeps_ended hW .null htyped hunconverted
      ⟨rfl, List.mem_cons_of_mem _ h.mem_inner, fun p hp ↦ ?_⟩ fun flow hflow ↦ ?_
    · have hlength : vs.length = (b.params.map Prod.fst).length := by
        rw [hvs.length_eq, List.length_map, List.length_map]
      rw [List.append_nil, List.mem_reverse, List.map_fst_zip (Nat.le_of_eq hlength.symm)]
      exact List.mem_map_of_mem hp
    · cases flow with
      | normal v => exact Value.is_null _
      | returning v => exact hflow.2

end Action

/-! ## Machines -/

namespace Machine

variable {W : ProgramTypes} {ds : List Definition} {done : Flow → Prop} {limit : Nat}
  {calls : List Activation} {m m' : Machine}

/-- A point of a run that keeps types, with the calls that are going on. -/
structure Keeps (W : ProgramTypes) (ds : List Definition) (done : Flow → Prop)
    (calls : List Activation) (m : Machine) : Prop where
  site : ∃ C, Stack W ds done C calls m.pending m.env.inner ∧ m.action.Keeps W C
  global : m.env.global.Fits W.top

/-- A run that has ended has ended as it should. -/
theorem Keeps.ended {r : Except EvalError Flow} {env : Environment}
    (h : (ended r env).Keeps W ds done calls) : ∀ flow, r = .ok flow → done flow := by
  obtain ⟨⟨C, hstack, hdone⟩, -⟩ := h
  generalize hinner : (Machine.ended r env).env.inner = inner at hstack
  cases hstack with
  | top known => exact hdone

/-- A call begins the body of a definition, and whichever it is, it has the types of the function
that is called. -/
theorem Keeps.of_call {C : Site} {x : String} {vs : List Value} {l : Location}
    {next : Except EvalError Value → Action} {part : Part} (hW : W.Covers ds)
    (hdefines : m.Defines (fun x ↦ Builtin.isBuiltin x) (· ∈ ds))
    (hstack : Stack W ds done C calls m.pending m.env.inner) (hglobal : m.env.global.Fits W.top)
    (hcall : (Action.call x vs l next).Keeps W C)
    (hpart : m.env.part x vs.length m.env.callScope l = .ok part) :
    (m.beginBody vs l next part.body).Keeps W ds done (⟨x, part.body⟩ :: calls) := by
  obtain ⟨f, hf, rfl, hvs, herror, hnext⟩ := hcall
  rcases hdefines.of_call hpart with ⟨-, hbuiltin⟩ | ⟨d, hd, hname, harity, hbody⟩
  · cases (hW.unambiguous.builtins f hf).symm.trans hbuiltin
  · obtain ⟨g, b, hruns⟩ := hW.runs d hd
    have hlength : g.params.length = f.params.length := by
      rw [← hvs.length_eq, ← harity, ← hruns.types, List.length_map,
        ← List.length_map (f := Prod.fst), hruns.names, List.length_map]
    obtain ⟨hparams, hret⟩ :=
      hW.unambiguous.overloads f hf g hruns.mem (hruns.name.trans hname) hlength
    obtain ⟨i, hi, hb⟩ := hruns.body
    rw [hbody, ← hname]
    refine ⟨⟨_, .script (.body hi hb) rfl (.empty _ _) (fun y hy ↦ absurd hy List.not_mem_nil)
          herror (fun v hv ↦ hnext v ?_) hstack,
        Action.keeps_body hW.unambiguous hruns (hparams ▸ hvs)⟩, hglobal⟩
    rwa [← hret, ← hruns.ret]

/-- A step keeps types. -/
theorem Keeps.of_step (hW : W.Covers ds) (hm : m.Keeps W ds done calls)
    (hdefines : m.Defines (fun x ↦ Builtin.isBuiltin x) (· ∈ ds)) (hstep : m.step limit = some m') :
    m'.Keeps W ds done (m.callsNext limit calls) := by
  obtain ⟨⟨C, hstack, ha⟩, hglobal⟩ := hm
  cases transition_of_step hstep with
  | @resume r _ env _ _ =>
    obtain ⟨inner, global, output⟩ := env
    change Stack W ds done C _ _ inner at hstack
    cases hstack with
    | block _ _ _ hnext hrest => exact ⟨⟨_, hrest, Action.keeps_attempt ha _ hnext⟩, hglobal⟩
    | script _ _ _ _ herror hnext hrest =>
      refine ⟨⟨_, hrest, ?_⟩, hglobal⟩
      cases r with
      | ok flow => exact hnext _ (ha flow rfl)
      | error e => exact herror e
  | look => exact ⟨⟨C, hstack, ha _ (hstack.shows hW.params hglobal)⟩, hglobal⟩
  | @define x =>
    obtain ⟨hstack', hglobal'⟩ := hstack.define hglobal ha.1
    exact ⟨⟨C.know x, hstack', ha.2⟩, hglobal'⟩
  | assign =>
    obtain ⟨C', hbelow, hstack', hglobal'⟩ := hstack.assign hW.params hglobal ha.1 ha.2.1
    exact ⟨⟨C', hstack', ha.2.2.mono hbelow⟩, hglobal'⟩
  | setConstant _ | refuseConstant _ => exact absurd ha id
  | @defineFunction name =>
    obtain ⟨hstack', hglobal'⟩ := hstack.defineFunction hglobal name _
    exact ⟨⟨C, hstack', ha⟩, hglobal'⟩
  | print => exact ⟨⟨C, hstack, ha⟩, hglobal⟩
  | call hpart hlimit =>
    rw [callsNext_call hpart hlimit]
    exact .of_call hW hdefines hstack hglobal ha hpart
  | refusePart hpart =>
    obtain ⟨f, -, -, -, herror, -⟩ := ha
    rw [callsNext_refusePart hpart]
    exact ⟨⟨C, hstack, herror _⟩, hglobal⟩
  | refuseDepth hpart hlimit =>
    obtain ⟨f, -, -, -, herror, -⟩ := ha
    rw [callsNext_refuseDepth hpart hlimit]
    exact ⟨⟨C, hstack, herror _⟩, hglobal⟩
  | block =>
    obtain ⟨ends, hbody, hnext⟩ := ha
    exact ⟨⟨C.inside ends, .block (by decide) (.empty _ _) (fun _ ↦ .inl) hnext hstack, hbody⟩,
      hglobal⟩

/-- A whole run keeps types. -/
theorem Keeps.after (hW : W.Covers ds) (hm : m.Keeps W ds done calls)
    (hdefines : m.Defines (fun x ↦ Builtin.isBuiltin x) (· ∈ ds)) (limit n : Nat) :
    (m.after limit n).Keeps W ds done (m.callsAfter limit calls n) :=
  (holds_callsAfter (P := fun m calls ↦
      m.Keeps W ds done calls ∧ m.Defines (fun x ↦ Builtin.isBuiltin x) (· ∈ ds))
    ⟨hm, hdefines⟩
    (fun _ _ _ h hstep ↦ ⟨h.1.of_step hW h.2 hstep, h.2.of_step hW.nested hstep⟩) n).1

open Classical in
/-- What goes on to an action that keeps no types if the result is a value that is not of the
type. -/
noncomputable def probe (ty : Ty) (x : String) (l : Location) : Except EvalError Value → Action
  | .ok v => if v.Is ty then .fail (.thrown v l) else .setConstant x v l (.fail (.thrown v l))
  | .error e => .fail e

/-- A function is called with arguments of the types of its parameters, and the call comes to a
value of the type that it returns. -/
theorem Keeps.called (hW : W.Covers ds) (hm : m.Keeps W ds done calls)
    (hdefines : m.Defines (fun x ↦ Builtin.isBuiltin x) (· ∈ ds)) (limit : Nat) {x : String}
    {vs : List Value} {l : Location} {next : Except EvalError Value → Action}
    (hcall : m.action = .call x vs l next) :
    ∃ f ∈ W.functions, f.name = x ∧ List.Forall₂ Value.Is vs f.params ∧
      ∀ v, (Eval.call limit (limit - m.depth) x vs l m.env).1 = .ok v → v.Is f.ret := by
  obtain ⟨⟨C, hstack, ha⟩, hglobal⟩ := hm
  rw [hcall] at ha
  obtain ⟨f, hf, hname, hvs, -⟩ := ha
  refine ⟨f, hf, hname, hvs, fun v hv ↦ ?_⟩
  -- with a value of another type the run would go on to what no run that keeps types comes to
  have hdone : ∀ r, (probe f.ret x l r).Defines (· ∈ ds) := by
    intro r
    cases r with
    | error e => trivial
    | ok w => dsimp only [probe]; split <;> trivial
  have hkeeps : (Machine.mk (.call x vs l (probe f.ret x l)) m.pending m.env m.depth).Keeps W ds
      done calls := by
    refine ⟨⟨C, hstack, f, hf, hname, hvs, fun e ↦ Action.keeps_fail W e C, fun w hw ↦ ?_⟩, hglobal⟩
    simp only [probe, if_pos hw]
    exact Action.keeps_fail W _ C
  obtain ⟨n, hn⟩ : Reaches limit _ _ :=
    reaches_call m.depth x vs l (probe f.ret x l) m.pending m.env
  have hend := hkeeps.after hW ⟨hdone, hdefines.pending, hdefines.parts⟩ limit n
  rw [hn] at hend
  obtain ⟨⟨C', -, ha⟩, -⟩ := hend
  by_contra hne
  simp only [hv, probe, if_neg hne] at ha
  exact ha

/-- What there is at a point of a run where these calls are going on, in the body that the innermost
runs: the variables of the frames at hand and the global ones have values of their types, what is
written is of the type of its variable, and a function is called with arguments of the types of its
parameters and comes to a value of the type that it returns. -/
structure Carries (W : ProgramTypes) (ds : List Definition) (limit : Nat) (calls : List Activation)
    (m : Machine) (b : BodyTypes) : Prop where
  running : W.IsIn ds calls b
  body : b = W.top ∧ (∀ f ∈ m.env.inner, f.kind ≠ .function) ∨
    b ∈ W.inner ∧ ∃ f ∈ m.env.inner, f.kind = .function
  own : ∀ f ∈ Environment.upToFunction m.env.inner, f.Fits b
  global : m.env.global.Fits W.top
  defined : ∀ x v next, m.action = .define x v next → ∃ ty, (x, ty) ∈ b.variables ∧ v.Is ty
  assigned : ∀ x v next, m.action = .assign x v next → ∃ ty, (x, ty) ∈ b.variables ∧ v.Is ty
  called : ∀ x vs l next, m.action = .call x vs l next → ∃ f ∈ W.functions, f.name = x ∧
    List.Forall₂ Value.Is vs f.params ∧
    ∀ v, (Eval.call limit (limit - m.depth) x vs l m.env).1 = .ok v → v.Is f.ret

theorem Keeps.carries (hW : W.Covers ds) (hm : m.Keeps W ds done calls)
    (hdefines : m.Defines (fun x ↦ Builtin.isBuiltin x) (· ∈ ds)) (limit : Nat) :
    ∃ b, m.Carries W ds limit calls b := by
  obtain ⟨⟨C, hstack, ha⟩, hglobal⟩ := id hm
  refine ⟨C.body, hstack.isIn, hstack.of_body, hstack.own, hglobal,
    fun x v next h ↦ ?_, fun x v next h ↦ ?_, fun x vs l next h ↦ hm.called hW hdefines limit h⟩
  · rw [h] at ha
    exact ha.1
  · rw [h] at ha
    exact ha.1

end Machine

end Scriptlet
