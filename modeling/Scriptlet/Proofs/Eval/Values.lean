import Scriptlet.Eval.Builtin
import Scriptlet.Proofs.Eval.Course
import Scriptlet.Proofs.Eval.Machine
import Scriptlet.Proofs.Parse.Everywhere
import Scriptlet.Proofs.Value.Canonical
import Scriptlet.Script

/-!
# Values of runs

Where do the values of a run come from? From the literals of the program, and from what operators,
conversions, methods and functions make of values. So a property that literals have, and that is
kept by all of these, is one of every value that a run comes across: of what names have, of what is
written and handed to calls, and of what every expression comes to.

Floating numbers are canonical in this way. Texts and roundings are where they come from, both in
the scanner and in a run, so that what is known of canonical numbers, such as how comparisons go
together, is known of all values of all runs.
-/

namespace Scriptlet

variable {V : Value → Prop}

/-! ## Actions -/

variable (V) in
/-- The actions go on with values that have the property, as long as they are given such values. -/
def Action.Values : Action → Prop
  | .done r => ∀ flow, r = .ok flow → V flow.value
  | .look next => ∀ env : Environment, env.Values V → (next env).Values
  | .define _ v next | .assign _ v next | .setConstant _ v _ next => V v ∧ next.Values
  | .defineFunction _ _ body next => LiteralsAre V body ∧ next.Values
  | .print _ next => next.Values
  | .call _ vs _ next =>
    (∀ v ∈ vs, V v) ∧ (∀ e, (next (.error e)).Values) ∧ ∀ v, V v → (next (.ok v)).Values
  | .block body next => body.Values ∧ ∀ flow : Flow, V flow.value → (next flow).Values

variable (V) in
/-- A part of the host goes on with such values. -/
def HostAction.Values : HostAction → Prop
  | .done r => ∀ v, r = .ok v → V v
  | .print _ next => next.Values
  | .call _ vs _ next =>
    (∀ v ∈ vs, V v) ∧ (∀ e, (next (.error e)).Values) ∧ ∀ v, V v → (next (.ok v)).Values

variable (V) in
/-- The body makes values with the property of arguments with the property. -/
def PartBody.Values : PartBody → Prop
  | .native act => ∀ args l, (∀ v ∈ args, V v) → (act args l).Values V
  | .script _ body => LiteralsAre V body

namespace Action

theorem values_fail (e : EvalError) : (fail e).Values V := nofun

theorem values_attempt {r : Except EvalError Flow} {next : Flow → Action}
    (hr : ∀ flow, r = .ok flow → V flow.value)
    (hnext : ∀ flow : Flow, V flow.value → (next flow).Values V) : (attempt r next).Values V := by
  cases r with
  | ok flow => exact hnext flow (hr flow rfl)
  | error e => exact values_fail e

theorem values_ofHost {act : HostAction} (h : act.Values V) : (ofHost act).Values V := by
  induction act with
  | done r =>
    intro flow hflow
    cases r with
    | ok v =>
      obtain rfl := Except.ok.inj hflow
      exact h v rfl
    | error e => cases hflow
  | print line next ih => exact ih h
  | call name args l next ih => exact ⟨h.1, fun e ↦ ih _ (h.2.1 e), fun v hv ↦ ih _ (h.2.2 v hv)⟩

theorem values_defineAll {ps : List (String × Value)} (hps : ∀ p ∈ ps, V p.2) {next : Action}
    (h : next.Values V) : (defineAll ps next).Values V := by
  induction ps with
  | nil => exact h
  | cons p ps ih =>
    obtain ⟨hp, hps⟩ := List.forall_mem_cons.mp hps
    exact ⟨hp, ih hps⟩

variable (hV : ValueProperty V)
include hV

theorem treeProperty_values : TreeProperty (fun d ↦ LiteralsAre V d.body) V (Values V) where
  values := hV
  finish flow hflow := by
    rintro _ ⟨⟩
    exact hflow
  fail e _ := values_fail e
  look _ h := h
  define _ _ _ hv h := ⟨hv, h⟩
  assign _ _ _ hv h := ⟨hv, h⟩
  setConstant _ _ _ _ hv h := ⟨hv, h⟩
  defineFunction x params body next hd h := by
    obtain ⟨d, hbody, -, -, rfl⟩ := hd
    exact ⟨hbody, h⟩
  call _ _ _ _ hvs h := ⟨hvs, values_fail, h⟩
  block _ _ hbody h := ⟨hbody, h⟩

/-- Whole statements go on with such values, up to the end of their frame. -/
theorem values_ended {sts : List Statement} (h : LiteralsAre V sts) :
    (statements .null sts finish).Values V :=
  has_ended (treeProperty_values hV) (everywhere_of_mem_definitions h) h hV.null

/-- An expression comes to such a value. -/
theorem values_expr {e : Expr} (h : e.LiteralsAre V) :
    (expr e fun v ↦ finish (.normal v)).Values V := by
  have hinside := (tree_holdsInside _ _).expr e h
  refine ((tree_hasOwn (treeProperty_values hV)).expr e hinside h).value _ fun v hv ↦ ?_
  exact (treeProperty_values hV).finish (.normal v) hv

end Action

/-! ## Machines -/

variable (V) in
/-- What waits goes on with such values. -/
def Pending.Values : Pending → Prop
  | .block next => ∀ flow : Flow, V flow.value → (next flow).Values V
  | .script next | .native next =>
    (∀ e, (next (.error e)).Values V) ∧ ∀ v, V v → (next (.ok v)).Values V

theorem Pending.Values.resume (hV : ValueProperty V) {p : Pending} (h : p.Values V)
    {r : Except EvalError Flow} (hr : ∀ flow, r = .ok flow → V flow.value) :
    (p.resume r).Values V := by
  cases p with
  | block next => exact Action.values_attempt hr h
  | script next | native next =>
    cases r with
    | error e => exact h.1 e
    | ok flow =>
      refine h.2 _ ?_
      cases flow with
      | normal v => exact hV.null
      | returning v => exact hr _ rfl

namespace Machine

open Environment (Write)

variable {limit : Nat} {m m' : Machine}

variable (V) in
/-- A point of a run with such values only, and with such values to come. -/
structure Values (m : Machine) : Prop where
  action : m.action.Values V
  pending : ∀ p ∈ m.pending, p.Values V
  env : m.env.Values V
  parts : m.env.AllParts fun part ↦ part.body.Values V

variable (hV : ValueProperty V)
include hV

theorem Values.beginBody (hm : m.Values V) {args : List Value} {l : Location}
    {next : Except EvalError Value → Action} {b : PartBody} (hargs : ∀ v ∈ args, V v)
    (hnext : (Pending.script next).Values V) (hb : b.Values V) :
    (m.beginBody args l next b).Values V := by
  cases b with
  | native act =>
    exact ⟨Action.values_ofHost (hb args l hargs), List.forall_mem_cons.mpr ⟨hnext, hm.pending⟩,
      hm.env, hm.parts⟩
  | script params body =>
    exact ⟨Action.values_defineAll (fun p hp ↦ hargs _ (List.of_mem_zip hp).2)
      (Action.values_ended hV hb), List.forall_mem_cons.mpr ⟨hnext, hm.pending⟩,
      hm.env.push .function, hm.parts.push .function⟩

/-- A step makes such values only. -/
theorem Values.of_step (hm : m.Values V) (hstep : m.step limit = some m') : m'.Values V := by
  obtain ⟨haction, hpending, henv, hparts⟩ := id hm
  have hsame : ∀ part : Part, part.body.Values V → part.body.Values V := fun _ h ↦ h
  cases transition_of_step hstep with
  | resume p =>
    obtain ⟨hp, hps⟩ := List.forall_mem_cons.mp hpending
    refine ⟨hp.resume hV haction, hps, ?_, ?_⟩
    · cases p with
      | block next | script next => exact henv.pop
      | native next => exact henv
    · cases p with
      | block next | script next => exact hparts.pop
      | native next => exact hparts
  | look => exact ⟨haction _ henv, hpending, henv, hparts⟩
  | define =>
    exact ⟨haction.2, hpending, henv.define haction.1, (Write.define _ _ _).allParts hsame hparts⟩
  | assign =>
    exact ⟨haction.2, hpending, henv.assign haction.1, (Write.assign _ _ _).allParts hsame hparts⟩
  | setConstant hset =>
    exact ⟨haction.2, hpending, henv.setConstant haction.1 hset,
      (Write.setConstant hset).allParts hsame hparts⟩
  | refuseConstant _ => exact ⟨Action.values_fail _, hpending, henv, hparts⟩
  | defineFunction =>
    exact ⟨haction.2, hpending, henv.defineFunction _ _,
      (Write.defineFunction _ _ haction.1).allParts hsame hparts⟩
  | print => exact ⟨haction, hpending, henv.print _, hparts⟩
  | call hpart _ => exact hm.beginBody hV haction.1 haction.2 (hparts.of_part hpart)
  | refusePart _ | refuseDepth _ _ => exact ⟨haction.2.1 _, hpending, henv, hparts⟩
  | block =>
    exact ⟨haction.1, List.forall_mem_cons.mpr ⟨haction.2, hpending⟩, henv.push .block,
      hparts.push .block⟩

/-- Along a whole run there are such values only. -/
theorem Values.after (hm : m.Values V) (limit n : Nat) : (m.after limit n).Values V :=
  holds_after hm (fun _ _ h hstep ↦ h.of_step hV hstep) n

/-- Whatever is done at a point of a run, it ends with such a value. -/
theorem Values.run (hm : m.Values V) (limit : Nat) {a : Action} (ha : a.Values V) :
    ∀ flow, (a.run (Eval.call limit (limit - m.depth)) m.env).1 = .ok flow → V flow.value := by
  have hstart : (Machine.mk a [] m.env m.depth).Values V :=
    ⟨ha, fun _ h ↦ absurd h List.not_mem_nil, hm.env, hm.parts⟩
  obtain ⟨n, hn⟩ := reaches_run limit a [] m.env m.depth
  have hend := (hstart.after hV limit n).action
  rw [hn] at hend
  exact hend

/-- An expression whose literals are such values comes to such a value, at every point of a run. -/
theorem Values.expr (hm : m.Values V) (limit : Nat) {e : Expr}
    (he : e.LiteralsAre V) {v : Value}
    (hv : (Eval.expr (Eval.call limit (limit - m.depth)) e m.env).1 = .ok v) : V v := by
  refine hm.run hV limit (Action.values_expr hV he) (.normal v) ?_
  rw [(Action.tree_does.expr e).value]
  simp only [Bind.bind, Eval.bind]
  rcases hrun : Eval.expr (Eval.call limit (limit - m.depth)) e m.env with ⟨_ | w, env'⟩
  · rw [hrun] at hv
    cases hv
  · rw [hrun] at hv
    obtain rfl := Except.ok.inj hv
    rfl

/-- The run of a program begins with such values if its literals and the environment have them. -/
theorem values_start {p : Program} {env : Environment} (hp : LiteralsAre V p) (henv : env.Values V)
    (hparts : env.AllParts fun part ↦ part.body.Values V) : (start p env).Values V :=
  ⟨Action.values_ended hV hp, fun _ h ↦ absurd h List.not_mem_nil, henv, hparts⟩

end Machine

/-! ## Canonical values -/

namespace Value

theorem valueProperty_allCanonical : ValueProperty AllCanonical where
  bool := .bool
  zero k := by
    cases k with
    | float => exact .float (Binary.canonical_zero Binary.single_proper false)
    | double => exact .double (Binary.canonical_zero Binary.double_proper false)
    | _ => exact allCanonical_of_kind rfl (by decide)
  unary := allCanonical_unary
  binary hv _ := allCanonical_binary hv
  convertTo := allCanonical_convertTo
  element := allCanonical_element
  setElement := allCanonical_setElement
  member _ := allCanonical_member
  method _ _ := allCanonical_method
  array := .array

end Value

namespace Builtin

open Value

theorem values_onOne {f : Value → Location → Except EvalError Value} {name : String}
    (hf : ∀ {v w l}, v.AllCanonical → f v l = .ok w → w.AllCanonical) {args : List Value}
    (hargs : ∀ v ∈ args, v.AllCanonical) (l : Location) :
    (onOne name f args l).Values AllCanonical := by
  match args, hargs with
  | [], _ => exact nofun
  | [v], hargs => exact fun w hw ↦ hf (hargs v List.mem_cons_self) hw
  | _ :: _ :: _, _ => exact nofun

theorem allCanonical_len {v w : Value} {l : Location} (h : len v l = .ok w) : w.AllCanonical := by
  cases v with
  | str _ | array _ =>
    obtain rfl := Except.ok.inj h
    exact .int _
  | _ => cases h

theorem allCanonical_abs {v w : Value} {l : Location} (hv : v.AllCanonical) (h : abs v l = .ok w) :
    w.AllCanonical := by
  have hmagnitude : ∀ {F : Format} {x : Binary F}, x.Canonical → (magnitude x).Canonical := by
    intro F x hx
    cases x <;> exact hx
  cases v with
  | int n =>
    simp only [abs] at h
    split at h
    · obtain rfl := Except.ok.inj h
      exact .int _
    · cases h
  | float _ =>
    obtain rfl := Except.ok.inj h
    exact .float (hmagnitude hv.canonical)
  | double _ =>
    obtain rfl := Except.ok.inj h
    exact .double (hmagnitude hv.canonical)
  | _ => cases h

/-- The extremum is one of the arguments. -/
theorem allCanonical_extremum {name : String} {least : Bool} {best w : Value} {l : Location}
    {vs : List Value} (hbest : best.AllCanonical) (hvs : ∀ v ∈ vs, v.AllCanonical)
    (h : extremum name least best l vs = .ok w) : w.AllCanonical := by
  induction vs generalizing best with
  | nil =>
    obtain rfl := Except.ok.inj h
    exact hbest
  | cons v vs ih =>
    obtain ⟨hv, hvs⟩ := List.forall_mem_cons.mp hvs
    have hnext : ∀ better : Value,
        extremum name least (if better.isTruthy then v else best) l vs = .ok w →
          w.AllCanonical := by
      refine fun better ↦ ih ?_ hvs
      split
      · exact hv
      · exact hbest
    rw [extremum] at h
    split at h
    · split at h
      · obtain ⟨better, -, h⟩ := of_bind_ok h
        exact hnext better h
      · obtain ⟨better, -, h⟩ := of_bind_ok h
        exact hnext better h
    · cases h

theorem values_extremumOf {name : String} {least : Bool} {args : List Value}
    (hargs : ∀ v ∈ args, v.AllCanonical) (l : Location) :
    (extremumOf name least args l).Values AllCanonical := by
  cases args with
  | nil => exact nofun
  | cons v vs =>
    obtain ⟨hv, hvs⟩ := List.forall_mem_cons.mp hargs
    simp only [extremumOf, HostAction.Values]
    intro w hw
    split at hw
    · exact allCanonical_extremum hv hvs hw
    · cases hw

theorem values_all {part : Part} (h : part ∈ all.map Prod.snd) :
    part.body.Values AllCanonical := by
  simp only [all, List.map_cons, List.map_nil, List.mem_cons, List.not_mem_nil, or_false] at h
  rcases h with rfl | rfl | rfl | rfl | rfl | rfl
  · rintro args l - _ ⟨⟩
    exact .null
  · exact fun args l hargs ↦ values_onOne (fun _ ↦ allCanonical_len) hargs l
  · refine fun args l hargs ↦ values_onOne (fun _ h ↦ ?_) hargs l
    obtain rfl := Except.ok.inj h
    exact .str _
  · exact fun args l hargs ↦ values_extremumOf hargs l
  · exact fun args l hargs ↦ values_extremumOf hargs l
  · exact fun args l hargs ↦ values_onOne allCanonical_abs hargs l

end Builtin

/-- What a text has as literals is canonical. -/
theorem parsedNodes_canonical : ParsedNodes (Expr.LiteralIs Value.AllCanonical) fun _ ↦ True where
  literal l v hv := by
    cases v with
    | int n => exact .int n
    | double x => exact .double hv
    | str s => exact .str s
    | bool b => exact .bool b
  expr e he := by
    cases e with
    | literal n v => cases he
    | _ => trivial
  cond _ _ _ _ _ := trivial
  statement _ _ := trivial

/-- Every point of the run of a script, from the built-in functions, has canonical values only. -/
theorem Machine.allCanonical_after {source : String} {p : Program}
    (hparse : parseProgram source = .ok p)
    (limit n : Nat) : ((start p .withBuiltins).after limit n).Values Value.AllCanonical := by
  refine (values_start Value.valueProperty_allCanonical
    (parsedNodes_canonical.of_parseProgram hparse) ?_ ?_).after
      Value.valueProperty_allCanonical limit n
  · intro f hf
    obtain rfl := List.mem_singleton.mp hf
    exact ⟨fun _ _ h ↦ (nomatch h), fun _ _ h ↦ (nomatch h)⟩
  · intro f hf part hpart
    obtain rfl := List.mem_singleton.mp hf
    exact Builtin.values_all hpart

/-- Every value of the run of a script is canonical: what names have at any point, what any
expression of the script comes to there, and what the script itself comes to. -/
theorem allCanonical_of_run {source : String} {p : Program} (hparse : parseProgram source = .ok p)
    (limit : Nat) :
    (∀ n, ((Machine.start p .withBuiltins).after limit n).env.Values Value.AllCanonical ∧
      ∀ q ∈ statementsRoles p, ∀ v,
        (Eval.expr
          (Eval.call limit (limit - ((Machine.start p .withBuiltins).after limit n).depth)) q.2
          ((Machine.start p .withBuiltins).after limit n).env).1 = .ok v → v.AllCanonical) ∧
    ∀ v, (runWith limit source .withBuiltins).1 = .ok v → v.AllCanonical := by
  have hV := Value.valueProperty_allCanonical
  have hliterals := parsedNodes_canonical.of_parseProgram hparse
  have hvalues := Machine.allCanonical_after hparse limit
  refine ⟨fun n ↦ ⟨(hvalues n).env, fun q hq v hv ↦ ?_⟩, fun v hv ↦ ?_⟩
  · exact (hvalues n).expr hV limit (everywhere_of_mem_roles hliterals q hq) hv
  · simp only [runWith, hparse, Machine.program_eq, ← Machine.run_statements] at hv
    have hend := (hvalues 0).run hV limit (Action.values_ended hV hliterals)
    cases hr :
        ((Action.statements .null p .finish).run (Eval.call limit limit) .withBuiltins).1 with
    | error e =>
      rw [hr] at hv
      cases hv
    | ok flow =>
      rw [hr] at hv
      obtain rfl := Except.ok.inj hv
      exact hend flow hr

end Scriptlet
