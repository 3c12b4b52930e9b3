import Scriptlet.Proofs.Bind.Registered
import Scriptlet.Proofs.Code.Touched
import Scriptlet.Proofs.Parse.Places

/-!
# Compiled code is closed

Behind the code of the program stand the bodies of the functions that binding registered, in their
order and each after its mark. Each body is the one of the definition that its function was
registered for: it is looked up by place, and no two definitions of a parsed program stand in one
place. Whatever a segment refers to is in the tables of its own body, so no code reaches into the
frame of another body, and no call goes to a function that is not there.
-/

namespace Scriptlet

/-! ## Segments behind marks -/

/-- The numbers of the functions whose marks stand in the code, in order. -/
def functionsOf (code : List Instruction) : List Nat := code.filterMap Instruction.function?

/-- The code behind the mark of a function, up to the next mark. -/
def segmentOf (k : Nat) (code : List Instruction) : List Instruction :=
  firstSegment (code.dropWhile fun i ↦ i.function? ≠ some k).tail

section Segments

variable {a : List Instruction} {k : Nat}

theorem functionsOf_eq_nil (h : ∀ i ∈ a, i.function? = none) : functionsOf a = [] :=
  List.filterMap_eq_nil_iff.mpr h

theorem functionsOf_append (a b : List Instruction) :
    functionsOf (a ++ b) = functionsOf a ++ functionsOf b :=
  List.filterMap_append

theorem firstSegment_append (h : ∀ i ∈ a, i.function? = none) (b : List Instruction) :
    firstSegment (a ++ b) = a ++ firstSegment b :=
  List.takeWhile_append_of_pos fun i hi ↦ by rw [h i hi, Option.isNone_none]

theorem segmentOf_append (h : ∀ i ∈ a, i.function? ≠ some k) (b : List Instruction) :
    segmentOf k (a ++ b) = segmentOf k b := by
  rw [segmentOf, segmentOf, List.dropWhile_append_of_pos fun i hi ↦ decide_eq_true (h i hi)]

theorem segmentOf_cons_self (code : List Instruction) :
    segmentOf k (.function k :: code) = firstSegment code := by
  have hmark : decide ((Instruction.function k).function? ≠ some k) = false :=
    decide_eq_false (not_not_intro rfl)
  rw [segmentOf, List.dropWhile_cons_of_neg (by rw [hmark]; exact Bool.false_ne_true),
    List.tail_cons]

end Segments

namespace Code

/-- The code is that of the bodies of the functions, found by their places and each behind its mark;
the first has the number `index`. -/
inductive Bodies (r : Registry) (p : Program) :
    Nat → List ScriptFunction → List Instruction → Prop where
  | nil {index : Nat} : Bodies r p index [] []
  | cons {index n m : Nat} {f : ScriptFunction} {fs : List ScriptFunction}
      {d : Location × List Statement} {body code : List Instruction}
      (hfind : (definitions p).find? (fun d ↦ d.1 = f.location) = some d)
      (hbody : (functionBody r d.2).Gives n body m) (rest : Bodies r p (index + 1) fs code) :
      Bodies r p index (f :: fs) (.function index :: (body ++ code))

theorem bodies_of_gives {r : Registry} {p : Program} {fs : List ScriptFunction} {index n m : Nat}
    {code : List Instruction} (h : (functions r p index fs).Gives n code m) :
    Bodies r p index fs code := by
  induction fs generalizing index n code with
  | nil =>
    obtain ⟨rfl, -⟩ := Emit.gives_nothing.mp h
    exact .nil
  | cons f fs ih =>
    obtain ⟨d, body, k, rest, hfind, hbody, hrest, rfl⟩ := of_gives_functions_cons h
    exact .cons hfind hbody (ih hrest)

namespace Bodies

variable {r : Registry} {p : Program} {index : Nat} {fs : List ScriptFunction}
  {code : List Instruction}

/-- The marks are numbered in order. -/
theorem functionsOf_eq (h : Bodies r p index fs code) :
    functionsOf code = List.range' index fs.length := by
  induction h with
  | nil => rfl
  | @cons index n m f fs d body code hfind hbody _ ih =>
    have hinner := functionsOf_eq_nil (functionBody_routes r d.2 _ _ _ hbody).inner
    have hmark : functionsOf [.function index] = [index] := rfl
    rw [← List.singleton_append, functionsOf_append, functionsOf_append, hmark, hinner, ih,
      List.length_cons, List.range'_succ]
    rfl

theorem firstSegment_eq (h : Bodies r p index fs code) : firstSegment code = [] := by
  cases h with
  | nil => rfl
  | cons hfind hbody rest => rfl

/-- The segment of each function is the code of the definition at its place. -/
theorem segment (h : Bodies r p index fs code) {k : Nat} {f : ScriptFunction}
    (hf : fs[k]? = some f) :
    ∃ d, (definitions p).find? (fun d ↦ d.1 = f.location) = some d ∧
      ∃ n m, (functionBody r d.2).Gives n (segmentOf (index + k) code) m := by
  induction h generalizing k with
  | nil => simp at hf
  | @cons index n m f' fs d body code hfind hbody rest ih =>
    have hinner := (functionBody_routes r d.2 _ _ _ hbody).inner
    cases k with
    | zero =>
      obtain rfl := Option.some.inj hf
      refine ⟨d, hfind, n, m, ?_⟩
      rw [Nat.add_zero, segmentOf_cons_self, firstSegment_append hinner, rest.firstSegment_eq,
        List.append_nil]
      exact hbody
    | succ k =>
      -- the mark is none of those in front of the rest
      have hother : ∀ i ∈ .function index :: body, i.function? ≠ some (index + (k + 1)) := by
        refine List.forall_mem_cons.mpr ⟨fun hmark ↦ ?_, fun i hi ↦ ?_⟩
        · have := Option.some.inj hmark
          omega
        · rw [hinner i hi]
          exact Option.some_ne_none _ |>.symm
      rw [← List.cons_append, segmentOf_append hother, Nat.add_comm k, ← Nat.add_assoc]
      exact ih hf

/-- What is true of the marks and of all bodies is true of the code. -/
theorem forall_mem (h : Bodies r p index fs code) {P : Instruction → Prop}
    (hmark : ∀ k, P (.function k))
    (hbodies : ∀ f ∈ fs, ∀ d, (definitions p).find? (fun d ↦ d.1 = f.location) = some d →
      ∀ n body m, (functionBody r d.2).Gives n body m → ∀ i ∈ body, P i) :
    ∀ i ∈ code, P i := by
  induction h with
  | nil => exact nofun
  | cons hfind hbody rest ih =>
    obtain ⟨hfirst, hrest⟩ := List.forall_mem_cons.mp hbodies
    exact List.forall_mem_cons.mpr
      ⟨hmark _, List.forall_mem_append.mpr ⟨hfirst _ hfind _ _ _ hbody, ih hrest⟩⟩

end Bodies

end Code

/-! ## Frames -/

theorem Expr.binding_of_slot {e : Expr} {i : Nat} (h : e.storage? = some (.slot i)) :
    ∃ slot : Local, e.node.binding = some (.variable slot) ∧ slot.index = i := by
  obtain ⟨d, hd, hstorage⟩ := Option.bind_eq_some_iff.mp h
  cases d with
  | «variable» slot => exact ⟨slot, hd, Storage.slot.inj (Option.some.inj hstorage)⟩
  | _ => cases hstorage

theorem Expr.binding_of_argument {e : Expr} {i : Nat} (h : e.storage? = some (.argument i)) :
    ∃ ty, e.node.binding = some (.parameter i ty) := by
  obtain ⟨d, hd, hstorage⟩ := Option.bind_eq_some_iff.mp h
  cases d with
  | parameter index ty =>
    obtain rfl := Storage.argument.inj (Option.some.inj hstorage)
    exact ⟨ty, hd⟩
  | _ => cases hstorage

/-- The code of a body keeps to a frame with the locals and the parameters. The locals are numbered
in their order, all that is loaded and stored is among the locals and the parameters, it is what the
bindings of the touched nodes say, node by node, and the slot of a binding is the one of the
table. -/
structure KeepsTo (r : Registry) (locals : List Local) (params : List Ty) (body : List Statement)
    (code : List Instruction) : Prop where
  numbered : ∀ (i : Nat) (slot : Local), locals[i]? = some slot → slot.index = i
  slots : ∀ i, .loadLocal i ∈ code ∨ .storeLocal i ∈ code → i < locals.length
  arguments : ∀ i, .loadArgument i ∈ code ∨ .storeArgument i ∈ code → i < params.length
  bindings : storageOf code = (Code.statementsTouched r body).filterMap Expr.storage?
  held : ∀ e ∈ Code.statementsTouched r body, ∀ slot, e.node.binding = some (.variable slot) →
    locals[slot.index]? = some slot

/-- Code that touches what the nodes of a body hold keeps to the frame of the body. -/
theorem Tables.Touches.keepsTo {Γ : Tables} {b : Body} {body : List Statement} {piece : Emit}
    (h : Γ.Touches b (Code.statementsTouched Γ.registry body) piece) (hindexed : b.Indexed)
    {n m : Nat} {code : List Instruction} (hgives : piece.Gives n code m) :
    KeepsTo Γ.registry b.locals (b.params.map Prod.snd) body code := by
  have hbindings := h.storage n code m hgives
  -- whatever is touched is the storage of some node, and the node's binding is in the tables
  have htouched : ∀ s ∈ storageOf code,
      ∃ e ∈ Code.statementsTouched Γ.registry body, e.storage? = some s := fun s hs ↦
    List.mem_filterMap.mp (hbindings ▸ hs)
  have hstorage : ∀ i ∈ code, ∀ s, i.storage? = some s → s ∈ storageOf code := fun i hi s hs ↦
    List.mem_filterMap.mpr ⟨i, hi, hs⟩
  refine ⟨hindexed, fun i hi ↦ ?_, fun i hi ↦ ?_, hbindings, fun e he slot hd ↦ h.held e he _ hd⟩
  · have hslot : Storage.slot i ∈ storageOf code :=
      hi.elim (hstorage _ · _ rfl) (hstorage _ · _ rfl)
    obtain ⟨e, he, hs⟩ := htouched _ hslot
    obtain ⟨slot, hd, rfl⟩ := e.binding_of_slot hs
    exact (List.getElem?_eq_some_iff.mp (h.held e he _ hd)).1
  · have hargument : Storage.argument i ∈ storageOf code :=
      hi.elim (hstorage _ · _ rfl) (hstorage _ · _ rfl)
    obtain ⟨e, he, hs⟩ := htouched _ hargument
    obtain ⟨ty, hd⟩ := e.binding_of_argument hs
    exact (List.getElem?_eq_some_iff.mp (h.held e he _ hd)).1

/-! ## Compiled programs -/

/-- What binding a parsed program leaves: the program is well typed in a body without parameters and
with numbered locals, the functions are those of its definitions, in order, and no two of these
stand in one place. -/
theorem registered_of_bindProgram (c : BindContext) {source : String} {p : Program} {ty : Ty}
    (hparse : parseProgram source = .ok p) (hbind : (bindProgram c p).answer = .ok ty) :
    ((bindProgram c p).state.tables c).TypedProgram (bindProgram c p).state.body
        (bindProgram c p).tree ∧
      (bindProgram c p).state.body.Indexed ∧ (bindProgram c p).state.body.params = [] ∧
      List.Forall₂ ((bindProgram c p).state.tables c).Describes (bindProgram c p).state.functions
        (statementsDefinitions (bindProgram c p).tree) ∧
      DistinctPlaces (bindProgram c p).tree := by
  have hwritten := written_of_parseProgram hparse
  have hgives := BindContext.gives_bindProgram hbind
  obtain ⟨hdescribes, hheads, hindexed, hparams⟩ :=
    BindContext.registered_of_gives hwritten hgives
  exact ⟨(BindContext.typedProgram_of_gives hwritten hgives).1, hindexed, hparams, hdescribes,
    (distinctPlaces_of_parseProgram hparse).of_heads hheads⟩

namespace Tables

variable {Γ : Tables} {q : Program} {fs : List ScriptFunction}

theorem describes_at (h : List.Forall₂ Γ.Describes fs (statementsDefinitions q)) {k : Nat}
    {f : ScriptFunction} (hf : fs[k]? = some f) :
    ∃ d, (statementsDefinitions q)[k]? = some d ∧ Γ.Describes f d := by
  obtain ⟨hk, rfl⟩ := List.getElem?_eq_some_iff.mp hf
  have hk' : k < (statementsDefinitions q).length := h.length_eq ▸ hk
  exact ⟨_, List.getElem?_eq_getElem hk', h.get hk hk'⟩

/-- The body that is found at the place of a function is the one of the definition that the function
was registered for. -/
theorem Describes.body_eq {f : ScriptFunction} {d : Definition} (h : Γ.Describes f d)
    (hplaces : DistinctPlaces q) (hd : d ∈ statementsDefinitions q) {x : Location × List Statement}
    (hfind : (Code.definitions q).find? (fun x ↦ x.1 = f.location) = some x) : x.2 = d.body := by
  rw [h.location] at hfind
  rcases mem_definitions_iff.mp hd with hopen | hhidden
  · obtain rfl := Option.some.inj ((hplaces.find?_open hopen).symm.trans hfind)
    rfl
  · cases (hplaces.find?_hidden hhidden).symm.trans hfind

/-- All code of a well typed program calls functions that there are. -/
theorem script_lt {b : Body} {k : Nat} {main bodies : List Instruction}
    (htyped : Γ.TypedProgram b q)
    (hdescribes : List.Forall₂ Γ.Describes Γ.functions (statementsDefinitions q))
    (hplaces : DistinctPlaces q) (hmain : (Code.program Γ.registry q).Gives 0 main k)
    (hbodies : Code.Bodies Γ.registry q 0 Γ.functions bodies) :
    ∀ i ∈ main ++ bodies, ∀ j ∈ i.script?, j < Γ.functions.length := by
  refine List.forall_mem_append.mpr ⟨(program_touches htyped).scripts _ _ _ hmain, ?_⟩
  refine hbodies.forall_mem (fun _ ↦ nofun) fun f hf x hfind n body m hbody ↦ ?_
  obtain ⟨j, hj⟩ := List.mem_iff_getElem?.mp hf
  obtain ⟨d, hd, hdescribed⟩ := describes_at hdescribes hj
  rw [hdescribed.body_eq hplaces (List.mem_of_getElem? hd) hfind] at hbody
  obtain ⟨inner, -, -, -, -, hinner⟩ := hdescribed.body
  exact (functionBody_touches hinner).scripts _ _ _ hbody

end Tables

/-- Compiled code is closed. The marks of functions are numbered in order, one for each registered
function; calls go to registered functions; the code of the program keeps to a frame with the
program's locals and without parameters. And the segment of each function is the code of the
definition that the function was registered for, the only one at its place, and it keeps to a frame
with the function's own locals and parameters. -/
theorem closed_of_compile (c : BindContext) {source : String} {p : Program} {out : Compiled}
    (hparse : parseProgram source = .ok p) (h : compile c p = .ok out) :
    functionsOf out.code = List.range (bindProgram c p).state.functions.length ∧
    (∀ i, Instruction.call (.script i) ∈ out.code →
      i < (bindProgram c p).state.functions.length) ∧
    (∃ m, (Code.program c.registry out.tree).Gives 0 (firstSegment out.code) m) ∧
    KeepsTo c.registry (bindProgram c p).state.body.locals [] out.tree (firstSegment out.code) ∧
    ∀ (k : Nat) (f : ScriptFunction), (bindProgram c p).state.functions[k]? = some f →
      ∃ d, (statementsDefinitions out.tree)[k]? = some d ∧
        f.name = d.head.name ∧ f.location = d.location ∧
        (∀ d' ∈ statementsDefinitions out.tree, d'.location = f.location → d' = d) ∧
        (∃ n m, (Code.functionBody c.registry d.body).Gives n (segmentOf k out.code) m) ∧
        KeepsTo c.registry f.locals f.params d.body (segmentOf k out.code) := by
  obtain ⟨hbind, htree, hgives⟩ := of_compile h
  obtain ⟨htyped, hindexed, hparams, hdescribes, hplaces⟩ :=
    registered_of_bindProgram c hparse hbind
  obtain ⟨main, n, bodies, hmain, hrest, hcode⟩ := Emit.gives_append.mp hgives
  have hbodies := Code.bodies_of_gives hrest
  have hinner := (Code.program_routes c.registry _ _ _ _ hmain).inner
  have hfirst : firstSegment out.code = main := by
    rw [hcode, firstSegment_append hinner, hbodies.firstSegment_eq, List.append_nil]
  have hsegment : ∀ k, segmentOf k out.code = segmentOf k bodies := fun k ↦ by
    rw [hcode, segmentOf_append fun i hi ↦ by rw [hinner i hi]; exact (Option.some_ne_none k).symm]
  rw [htree, hfirst]
  refine ⟨?_, fun i hi ↦ ?_, ⟨n, hmain⟩, ?_, fun k f hf ↦ ?_⟩
  · rw [hcode, functionsOf_append, functionsOf_eq_nil hinner, hbodies.functionsOf_eq,
      List.nil_append, List.range_eq_range']
  · exact Tables.script_lt htyped hdescribes hplaces hmain hbodies _ (hcode ▸ hi) i rfl
  · have hkeeps := (Tables.program_touches htyped).keepsTo hindexed hmain
    rwa [hparams] at hkeeps
  · obtain ⟨d, hd, hdescribed⟩ := Tables.describes_at hdescribes hf
    have hmem := List.mem_of_getElem? hd
    obtain ⟨x, hfind, m, m', hbody⟩ := hbodies.segment hf
    rw [hdescribed.body_eq hplaces hmem hfind, Nat.zero_add] at hbody
    obtain ⟨inner, hparams, hlocals, -, hinner, hstatements⟩ := hdescribed.body
    have hkeeps := (Tables.functionBody_touches hstatements).keepsTo hinner hbody
    rw [hparams, hlocals] at hkeeps
    rw [hsegment]
    -- what was looked up by place is the body in which the function's locals were declared
    refine ⟨d, hd, hdescribed.name, hdescribed.location, fun d' hd' hlocation ↦ ?_, ⟨m, m', hbody⟩,
      hkeeps⟩
    exact hplaces.eq_of_location hd' hmem (hlocation.trans hdescribed.location)

/-- A function that says what it returns, with one inside it that does not and is therefore
registered behind it, and a local in each frame but that of the inner one. -/
theorem closed_of_compile_nested :
    ∃ p out f d, parseProgram ("function f(x: int): int \x7b function g(y: int) => y; " ++
        "var z = g(x); return z; \x7d var a = f(1); a") = .ok p ∧
      compile ⟨.primitive, none⟩ p = .ok out ∧ functionsOf out.code = List.range 2 ∧
      segmentOf 0 out.code =
        [.loadArgument 0, .call (.script 1), .storeLocal 0, .loadLocal 0, .ret] ∧
      (bindProgram ⟨.primitive, none⟩ p).state.functions[1]? = some f ∧
      (statementsDefinitions out.tree)[1]? = some d ∧ d.head.name = "g" ∧
      KeepsTo .primitive f.locals f.params d.body (segmentOf 1 out.code) := by
  have hrun : (parseProgram ("function f(x: int): int \x7b function g(y: int) => y; " ++
      "var z = g(x); return z; \x7d var a = f(1); a")).toOption.any (fun p ↦
        (compile ⟨.primitive, none⟩ p).toOption.any fun out ↦
          decide ((bindProgram ⟨.primitive, none⟩ p).state.functions.map ScriptFunction.name
              = ["f", "g"] ∧
            segmentOf 0 out.code =
              [.loadArgument 0, .call (.script 1), .storeLocal 0, .loadLocal 0, .ret])) = true := by
    decide +kernel
  obtain ⟨p, hp, hrun⟩ := (Option.any_eq_true _ _).mp hrun
  obtain ⟨out, hout, hrun⟩ := (Option.any_eq_true _ _).mp hrun
  obtain ⟨hnames, hsegment⟩ := of_decide_eq_true hrun
  obtain ⟨hmarks, -, -, -, hbodies⟩ :=
    closed_of_compile ⟨.primitive, none⟩ (ok_of_toOption hp) (ok_of_toOption hout)
  have hlength : (bindProgram ⟨.primitive, none⟩ p).state.functions.length = 2 := by
    rw [← List.length_map ScriptFunction.name, hnames]
    rfl
  have hlast : ((bindProgram ⟨.primitive, none⟩ p).state.functions.map ScriptFunction.name)[1]?
      = some "g" := by rw [hnames]; rfl
  rw [List.getElem?_map] at hlast
  obtain ⟨f, hf, hname⟩ := Option.map_eq_some_iff.mp hlast
  obtain ⟨d, hd, hhead, -, -, -, hkeeps⟩ := hbodies 1 f hf
  exact ⟨p, out, f, d, ok_of_toOption hp, ok_of_toOption hout, hlength ▸ hmarks, hsegment, hf, hd,
    hhead ▸ hname, hkeeps⟩

end Scriptlet
