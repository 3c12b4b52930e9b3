import Scriptlet.Proofs.Agreement.Runs

/-!
# Binding and running agree on kinds

The type that binding gives to a program and the value that running it comes to are found apart from
each other: the one by a walk that converts where types meet, the other by operators that look at
kinds. On plain programs they agree. The value is of the type, and so is every value on the way:
what a variable holds, what is handed to a function and what a function returns.
-/

namespace Scriptlet

variable {W : ProgramTypes}

/-! ## The functions of a bound program -/

/-- The function that describes a definition stands in its place, and so do the types of its
body. -/
theorem exists_of_describes {Γ : Tables} {fs : List ScriptFunction} {ds : List Definition}
    (h : List.Forall₂ Γ.Describes fs ds) {i : Nat} {d : Definition} (hd : ds[i]? = some d) :
    ∃ f ∈ fs, Γ.Describes f d ∧
      (fs.zipWith (fun f d ↦ f.types d.head.params) ds)[i]? = some (f.types d.head.params) := by
  induction h generalizing i with
  | nil => cases hd
  | cons hfirst _ ih =>
    cases i with
    | zero =>
      obtain rfl := Option.some.inj hd
      exact ⟨_, List.mem_cons_self, hfirst, rfl⟩
    | succ i =>
      obtain ⟨f, hf, hdescribes, hget⟩ := ih hd
      exact ⟨f, List.mem_cons_of_mem _ hf, hdescribes, hget⟩

/-- The statements of a definition are well typed in a body with the types of its function. -/
theorem Tables.Describes.types {Γ : Tables} {f : ScriptFunction} {d : Definition}
    (h : Γ.Describes f d) :
    ∃ inner : Body, inner.types = f.types d.head.params ∧
      inner.params.map Prod.fst = d.head.params.map Param.name ∧
      inner.params.map Prod.snd = f.params ∧ inner.ret.ty = f.ret ∧
      ∀ st ∈ d.body, Γ.TypedStatement inner st := by
  obtain ⟨inner, htyped, hparams, hlocals, hret, -, hbody⟩ := h.bound
  have hnames := BindContext.names_of_typedParams htyped
  refine ⟨inner, ?_, hnames, hparams, hret, hbody⟩
  rw [Body.types, ScriptFunction.types, hlocals, hret, ← hnames, ← hparams,
    ← List.zip_of_prod rfl rfl]

/-- The program that runs is the bare form of the one that was bound. -/
theorem eq_bare_of_parseProgram {c : BindContext} {source : String} {p : Program}
    (hparse : parseProgram source = .ok p) : p = statementsBare (bindProgram c p).tree := by
  rw [BindContext.bare_bindProgram, bare_of_parseProgram hparse]

/-- What a run of the program finds as the body of a function is what binding has judged. -/
theorem covers_of_bindProgram {source : String} {p : Program} {ty : Ty}
    (hparse : parseProgram source = .ok p)
    (hbind : (bindProgram ⟨.primitive, none⟩ p).answer = .ok ty)
    (hplain : (bindProgram ⟨.primitive, none⟩ p).Plain) :
    (bindProgram ⟨.primitive, none⟩ p).types.Covers (statementsDefinitions p) := by
  obtain ⟨-, -, hparams, hdescribes, -⟩ := registered_of_bindProgram _ hparse hbind
  refine ⟨hplain.unambiguous, hparams, fun d hd ↦ ?_, containsNested_definitions p⟩
  obtain ⟨i, hi⟩ := List.getElem?_of_mem hd
  have hbare := hi
  rw [eq_bare_of_parseProgram hparse, statementsDefinitions_bare, List.getElem?_map] at hbare
  obtain ⟨d₁, hd₁, rfl⟩ := Option.map_eq_some_iff.mp hbare
  obtain ⟨f, hf, hdescribed, hget⟩ := exists_of_describes hdescribes hd₁
  obtain ⟨inner, htypes, hnames, hparams, hret, hbody⟩ := hdescribed.types
  rw [← htypes] at hget
  exact ⟨f, inner, hf, ⟨i, hi, hget⟩, hdescribed.name, hnames, hparams, hret, d₁.body, rfl, hbody,
    statementsEverywhere_iff.mp
      (everywhere_of_mem_definitions hplain.unconverted d₁ (List.mem_of_getElem? hd₁))⟩

/-- A run of a plain program begins where types are kept, and ends with a value of the type of the
program. -/
theorem keeps_start {source : String} {p : Program} {ty : Ty} (hparse : parseProgram source = .ok p)
    (hbind : (bindProgram ⟨.primitive, none⟩ p).answer = .ok ty)
    (hplain : (bindProgram ⟨.primitive, none⟩ p).Plain) :
    (Machine.start p .withBuiltins).Keeps (bindProgram ⟨.primitive, none⟩ p).types
      (statementsDefinitions p) (·.value.Is ty) [] := by
  obtain ⟨-, -, hparams, -, -⟩ := registered_of_bindProgram _ hparse hbind
  obtain ⟨htyped, rfl⟩ := BindContext.typedProgram_of_gives (written_of_parseProgram hparse)
    (BindContext.gives_bindProgram hbind)
  have hkeeps := Action.keeps_ended (C := ⟨_, [], (·.value.Is _)⟩) hplain.unambiguous .null htyped
    (statementsEverywhere_iff.mp hplain.unconverted)
    ⟨rfl, List.mem_cons_self, fun q hq ↦ absurd (hparams ▸ hq) List.not_mem_nil⟩
    fun flow hflow ↦ hflow.value hplain.returns
  rw [← eq_bare_of_parseProgram hparse] at hkeeps
  exact ⟨⟨_, .top [], hkeeps⟩, fun _ _ h ↦ (nomatch h), rfl⟩

/-- If binding gives a plain program a primitive type, then the value of any run of it is null or of
the kind that the type names. And at every point of the run all values are of the types of the
places they stand in: the variables of the body that is running, what is written to them, the
arguments of functions and what these return. -/
theorem kinds_agree {source : String} {p : Program} {ty : Ty} (hparse : parseProgram source = .ok p)
    (hbind : (bindProgram ⟨.primitive, none⟩ p).answer = .ok ty)
    (hplain : (bindProgram ⟨.primitive, none⟩ p).Plain) (limit : Nat) :
    (∀ v k, (runWith limit source .withBuiltins).1 = .ok v → v ≠ .null → ty.kind? = some k →
        v.kind = k) ∧
      ∀ n, ∃ b, ((Machine.start p .withBuiltins).after limit n).Carries
        (bindProgram ⟨.primitive, none⟩ p).types (statementsDefinitions p) limit
        ((Machine.start p .withBuiltins).callsAfter limit [] n) b := by
  have hcovers := covers_of_bindProgram hparse hbind hplain
  have hdefines := Machine.defines_after Environment.holds_withBuiltins limit p
  have hkeeps := (keeps_start hparse hbind hplain).after hcovers (hdefines 0) limit
  refine ⟨fun v k hrun hnull hk ↦ ?_, fun n ↦ (hkeeps n).carries hcovers (hdefines n) limit⟩
  obtain ⟨r, hr, n, hn⟩ := Machine.reaches_program limit p .withBuiltins
  have hend := (hn ▸ hkeeps n).ended
  simp only [runWith, hparse] at hrun
  cases r with
  | error e =>
    rw [← hr] at hrun
    cases hrun
  | ok flow =>
    rw [← hr] at hrun
    obtain rfl := Except.ok.inj hrun
    exact Value.kind_of_is (hend flow rfl) hnull hk

/-- A program with a function of two parameters, a local variable in it, and a variable that starts
with a conversion and is written later. -/
theorem kinds_agree_of_function :
    ∃ p v, parseProgram ("var total: double = 1; function scale(x: double, by: double): double " ++
        "\x7b var y = x * by; return y; \x7d total = scale(total, 2.5); total") = .ok p ∧
      (bindProgram ⟨.primitive, none⟩ p).answer = .ok .double ∧
      (bindProgram ⟨.primitive, none⟩ p).Plain ∧
      (runWith 8 ("var total: double = 1; function scale(x: double, by: double): double " ++
        "\x7b var y = x * by; return y; \x7d total = scale(total, 2.5); total") .withBuiltins).1
          = .ok v ∧ v ≠ .null ∧ v.kind = .double ∧
      ∀ n, ∃ b, ((Machine.start p .withBuiltins).after 8 n).Carries
        (bindProgram ⟨.primitive, none⟩ p).types (statementsDefinitions p) 8
        ((Machine.start p .withBuiltins).callsAfter 8 [] n) b := by
  have hrun : (parseProgram
        ("var total: double = 1; function scale(x: double, by: double): double " ++
        "\x7b var y = x * by; return y; \x7d total = scale(total, 2.5); total")).toOption.any
      (fun p ↦ (bindProgram ⟨.primitive, none⟩ p).answer.toOption == some .double &&
        decide (bindProgram ⟨.primitive, none⟩ p).Plain &&
        (runWith 8 ("var total: double = 1; function scale(x: double, by: double): double " ++
          "\x7b var y = x * by; return y; \x7d total = scale(total, 2.5); total")
            .withBuiltins).1.toOption.any fun v ↦ !v.isNull) = true := by
    decide +kernel
  obtain ⟨p, hp, hrun⟩ := (Option.any_eq_true _ _).mp hrun
  simp only [Bool.and_eq_true, decide_eq_true_eq] at hrun
  obtain ⟨⟨hty, hplain⟩, hv⟩ := hrun
  obtain ⟨v, hv, hnull⟩ := (Option.any_eq_true _ _).mp hv
  have hparse := ok_of_toOption hp
  have hbind := ok_of_toOption (beq_iff_eq.mp hty)
  have hvalue := ok_of_toOption hv
  have hne : v ≠ .null := by
    rintro rfl
    cases hnull
  obtain ⟨hkind, hcarries⟩ := kinds_agree hparse hbind hplain 8
  exact ⟨p, v, hparse, hbind, hplain, hvalue, hne, hkind v .double hvalue hne rfl, hcarries⟩

/-- Binding gives the script the type, and running it comes to a value of the kind. -/
def comesTo (source : String) (ty : Ty) (k : Kind) : Bool :=
  (parseProgram source).toOption.any fun p ↦
    (bindProgram ⟨.primitive, none⟩ p).answer.toOption == some ty &&
      (run source .withBuiltins).1.toOption.any fun v ↦ v.kind == k

theorem of_comesTo {source : String} {ty : Ty} {k : Kind} (h : comesTo source ty k = true) :
    ∃ p v, parseProgram source = .ok p ∧ (bindProgram ⟨.primitive, none⟩ p).answer = .ok ty ∧
      (run source .withBuiltins).1 = .ok v ∧ v.kind = k := by
  obtain ⟨p, hp, h⟩ := (Option.any_eq_true _ _).mp h
  rw [Bool.and_eq_true] at h
  obtain ⟨v, hv, hk⟩ := (Option.any_eq_true _ _).mp h.2
  exact ⟨p, v, ok_of_toOption hp, ok_of_toOption (beq_iff_eq.mp h.1), ok_of_toOption hv,
    beq_iff_eq.mp hk⟩

/-- Types and kinds part where a value is assigned, passed or returned with a conversion, where a
branch or an item is converted, to the right of `??`, at a return that is not a function's, where a
name has two types in a body or a type of its own at the top level, where a variable has the name of
a type, between functions with one number of parameters, at a built-in function that a definition
has not replaced yet, and where a function has the name of a variable that is called. -/
theorem kinds_disagree :
    List.Forall (fun q ↦
      (∃ p v, parseProgram q.1 = .ok p ∧ (bindProgram ⟨.primitive, none⟩ p).answer = .ok q.2.1 ∧
        (run q.1 .withBuiltins).1 = .ok v ∧ v.kind = q.2.2) ∧
      q.2.2 ≠ .null ∧ ∃ k, q.2.1.kind? = some k ∧ q.2.2 ≠ k)
      [("var x: double = 1; x = 2; x", Ty.double, Kind.int),
        ("function f(a: double): double => a; f(1)", .double, .int),
        ("function f(): double => 1; f()", .double, .int),
        ("true ? 1 : 2.5", .double, .int),
        ("[1.5, 2][1]", .double, .int),
        ("var s: string = null; s ?? 1", .string, .int),
        ("return 1; true", .bool, .int),
        ("var x = \x7b if (true) return 1; true \x7d; x", .bool, .int),
        ("var s: bool = true; if (true) var s: int = 1; s", .bool, .int),
        ("var x: bool = true; function f(): int " ++
          "\x7b false && ((x = 1) == 1); return x; \x7d f()", .int, .bool),
        ("if (true) var int: bool = true; int", .int, .bool),
        ("function f(a: int): int => 1; function f(a: bool): bool => true; f(1)", .int, .bool),
        ("if (false) \x7b function abs(a: int): bool => true; \x7d abs(1)", .bool, .int),
        ("function f(a: int): bool => true; var f = true ? null : lambda(a: int) => a; f(1)",
          .int, .bool)] := by
  refine List.forall_iff_forall_mem.mpr fun q hq ↦ ⟨of_comesTo ?_, ?_⟩
  · exact List.all_eq_true (p := fun q ↦ comesTo q.1 q.2.1 q.2.2).mp (by decide +kernel) q hq
  · revert q
    decide

end Scriptlet
