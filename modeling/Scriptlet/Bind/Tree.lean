import Scriptlet.Bind.Pass
import Scriptlet.Bind.Target
import Scriptlet.Tree.Text

/-!
# Binding trees

The walk that gives every expression its type. It goes bottom-up and from left to right, records at
each node what the node means, and stops at the first failure. The recursion is on the tree.
-/

namespace Scriptlet

/-- The type of a literal. -/
def Literal.ty : Literal → Ty
  | .int _ => .int
  | .double _ => .double
  | .str _ => .string
  | .bool _ => .bool

/-- The type of the expression that ends a list of statements; there is none after anything else. -/
def trailingTy (body : List Statement) : Ty :=
  match body.getLast? with
  | some (.expr (.declare ..)) => .void
  | some (.expr e) => e.node.ty.getD .void
  | _ => .void

namespace BindContext

/-- Records what a call reaches and gives the call its type. -/
def recordCall (place : Option CallTarget) (t : CallTarget) (l : Location)
    (node : Option CallTarget → Expr) : Pass Expr Ty :=
  .fill place t l node fun e ↦ .resolve e t.ret none

/-- Resolves a plain name and the like. -/
def named (e : Expr) (name : String) (find : Binder → Option Binding) : Pass Expr Ty :=
  .look e (fun s ↦ known name e.location (find s)) fun b ↦ .resolve e b.ty (some b)

/-- Registers a function before its body is bound, if its head says what it returns: only then can
the body call it. -/
def registerEarly (signature : Signature) (params : List (String × Ty)) (ret : Option Ty)
    (s : Binder) : Binder :=
  match ret with
  | none => s
  | some ret => s.register ⟨signature.name, params.map Prod.snd, ret, [], signature.location⟩

/-- Registers a function after its body was bound, or completes it if it is registered already. -/
def registerLate (signature : Signature) (params : List (String × Ty)) (ret : Option Ty)
    (index : Nat) (body : Body) (s : Binder) : Binder :=
  match ret with
  | some _ => s.recordLocals index body.locals
  | none => s.register
      ⟨signature.name, params.map Prod.snd, body.ret.ty, body.locals, signature.location⟩

/-- What a body returns before anything of it is bound. -/
def returnOf (ret : Option Ty) : ReturnType :=
  match ret with
  | some ty => .declared ty
  | none => .inferred none

mutual

/-- Binds an expression; the answer is its type. -/
def expr (c : BindContext) : Expr → Pass Expr Ty
  | .literal n v => .resolve (.literal n v) v.ty none
  | .null n => .resolve (.null n) .null none
  | .this n =>
    match c.this with
    | some ty => .resolve (.this n) ty none
    | none => .stop (.this n) (.unboundIdentifier "this" n.location)
  | .empty n => .stop (.empty n) (.unsupported .omittedExpression n.location)
  | .name n x => named (.name n x) x fun s ↦ c.name? s.body x
  | .variableRef n x => named (.variableRef n x) ("@" ++ x) fun s ↦ s.body.storage? x
  | .constantRef n x => named (.constantRef n x) ("_" ++ x) fun _ ↦ c.constant? x
  | .member n target x =>
    (c.expr target).within (.member n · x) fun target ty ↦
      .check (.member n target x)
        (match c.registry.member? ty x target.isTypeName with
          | some b => .ok b
          | none => .error (.missingMember ty x n.location))
        fun b ↦ .resolve (.member n target x) b.ty (some b)
  | .unary n op e place =>
    (c.expr e).within (.unary n op · place) fun e ty ↦
      match op.methodName? with
      | none =>
        .fill place ⟨.transparent, []⟩ n.location (.unary n op e) fun u ↦
          .resolve u ty e.node.binding
      | some method =>
        .check (.unary n op e place) (c.registry.unary op method e.node.binding ty n.location)
          fun t ↦ .fill place t.1 n.location (.unary n op e) fun u ↦ .resolve u t.2 none
  | .binary n op a b place =>
    (c.expr a).within (.binary n op · b place) fun a left ↦
      (c.expr b).within (.binary n op a · place) fun b right ↦
        .check (.binary n op a b place) (c.registry.binary op left right n.location) fun t ↦
          .fill place t.1 n.location (.binary n op a b) fun e ↦ .resolve e t.2 none
  | .coalesce n a b =>
    (c.expr a).within (.coalesce n · b) fun a ty ↦
      (c.expr b).within (.coalesce n a ·) fun b _ ↦ .resolve (.coalesce n a b) ty none
  | .ternary n x a b place =>
    (c.expr x).within (.ternary n · a b place) fun x ty ↦
      .check (.ternary n x a b place) (expectBool ty x.location) fun _ ↦
        (c.expr a).within (.ternary n x · b place) fun a onTrue ↦
          (c.expr b).within (.ternary n x a · place) fun b onFalse ↦
            .check (.ternary n x a b place) (c.registry.join onTrue onFalse n.location) fun t ↦
              match t.2 with
              | none => .resolve (.ternary n x a b place) t.1 none
              | some v =>
                .fill place v n.location (.ternary n x a b) fun e ↦ .resolve e t.1 none
  | .assign n target v place =>
    (c.expr v).within (.assign n target · place) fun v value ↦
      .look (.assign n target v place) (c.declareByAssignment target value) fun s ↦
        .change (fun _ ↦ s) <|
          (c.expr target).within (.assign n · v place) fun target ty ↦
            .check (.assign n target v place) (expectAssignable target) fun _ ↦
              .check (.assign n target v place) (c.registry.convert value ty n.location) fun k ↦
                .fill place k n.location (.assign n target v) fun e ↦ .resolve e ty none
  | .call n target args place =>
    (c.args args).within (.call n target · place) fun args types ↦ fun s ↦
      match CallForm.of s.body target with
      | .function x =>
        Pass.check (.call n target args place)
          (c.functionTarget s x types target.location n.location)
          (fun t ↦ recordCall place t n.location (.call n target args)) s
      | .method x =>
        (c.owner target).within (.call n · args place) (fun target o ↦
          .check (.call n target args place)
            (c.registry.methodTarget o.1 o.2 x types n.location) fun t ↦
              recordCall place t n.location (.call n target args)) s
      | .value =>
        (c.expr target).within (.call n · args place) (fun target ty ↦
          .check (.call n target args place) (c.registry.valueTarget ty types n.location) fun t ↦
            recordCall place t n.location (.call n target args)) s
  | .new n target args place =>
    let constructed (target : Expr) (ty : Ty) : Pass Expr Ty :=
      (c.args args).within (.new n target · place) fun args types ↦
        .check (.new n target args place) (c.registry.constructorTarget ty types n.location)
          fun t ↦ recordCall place t n.location (.new n target args)
    match target.qualifiedName?.bind c.registry.resolve? with
    | some ty =>
      (Pass.resolve target ty (some (.typeName ty))).within (.new n · args place) constructed
    | none =>
      (c.expr target).within (.new n · args place) fun target ty ↦
        .check (.new n target args place)
          (if target.isTypeName then .ok () else .error (.unknownType target.text target.location))
          fun _ ↦ constructed target ty
  | .index n target args place =>
    (c.expr target).within (.index n · args place) fun target ty ↦
      (c.args args).within (.index n target · place) fun args types ↦
        .check (.index n target args place) (c.registry.indexTarget ty types n.location) fun t ↦
          recordCall place t n.location (.index n target args)
  | .declare n x written init place =>
    .check (.declare n x written init place) (c.tyOf? written) fun declared ↦
      (c.optional init).within (.declare n x written · place) fun init initial ↦
        .check (.declare n x written init place)
          (c.registry.declared x declared initial n.location) fun t ↦
            .fill place t.2 n.location (.declare n x written init) fun e ↦
              .look e (fun s ↦ .ok (s.body.nextLocal x t.1)) fun slot ↦
                .change (·.change fun b ↦ b.declare x t.1) <|
                  .resolve e slot.ty (some (.variable slot))
  | .array n written items place =>
    .check (.array n written items place) (c.tyOf? written) fun declared ↦
      (c.args items).within (.array n written · place) fun items types ↦
        .check (.array n written items place)
          (do
            let element ← elementTy declared types n.location
            let conversions ← c.registry.convertItems element
              (types.zip (items.map Expr.location))
            return (element, conversions))
          fun t ↦ .fill place t.2 n.location (.array n written items) fun e ↦
            .resolve e (.array t.1) none
  | .lambda n params body =>
    .check (.lambda n params body) (c.typedParams n.location params) fun typed ↦
      (Pass.inBody (.start typed (.inferred none)) (c.statements body)).within (.lambda n params ·)
        fun body r ↦
          .resolve (.lambda n params body) (.delegate (typed.map Prod.snd) r.2.ret.ty) none
  | .block n body =>
    (Pass.inScope (c.statements body)).within (.block n ·) fun body _ ↦
      .resolve (.block n body) (trailingTy body) none

/-- Binds the owner in a method call, which may stand in parentheses together with the method's
name; the parentheses and the access stay unbound. The answer is the type of the owner, and whether
the owner is the name of a type. -/
def owner (c : BindContext) : Expr → Pass Expr (Ty × Bool)
  | .unary n .group e place => (c.owner e).within (.unary n .group · place) fun e o ↦
      .done (.unary n .group e place) o
  | .member n target x => (c.expr target).within (.member n · x) fun target ty ↦
      .done (.member n target x) (ty, target.isTypeName)
  | e => .done e (.void, false)

/-- Binds arguments or items from left to right; none of them may be left out. -/
def args (c : BindContext) : List Expr → Pass (List Expr) (List Ty)
  | [] => .done [] []
  | .empty n :: es => .stop (.empty n :: es) (.unsupported .omittedArgument n.location)
  | e :: es =>
    (c.expr e).within (· :: es) fun e ty ↦
      (c.args es).within (e :: ·) fun es tys ↦ .done (e :: es) (ty :: tys)

/-- Binds an expression that may be missing. -/
def optional (c : BindContext) : Option Expr → Pass (Option Expr) (Option Ty)
  | none => .done none none
  | some e => (c.expr e).within some fun e ty ↦ .done (some e) (some ty)

/-- Binds a statement. -/
def statement (c : BindContext) : Statement → Pass Statement Unit
  | .expr e => (c.expr e).within .expr fun e _ ↦ .done (.expr e) ()
  | .block l body =>
    (Pass.inScope (c.statements body)).within (.block l ·) fun body _ ↦ .done (.block l body) ()
  | .cond l x a b =>
    (c.expr x).within (.cond l · a b) fun x ty ↦
      .check (.cond l x a b) (expectBool ty x.location) fun _ ↦
        (Pass.inScope (c.statement a)).within (.cond l x · b) fun a _ ↦
          (c.alternative b).within (.cond l x a ·) fun b _ ↦ .done (.cond l x a b) ()
  | .ret l value place =>
    (c.optional value).within (.ret l · place) fun value ty ↦
      .look (.ret l value place)
        (fun s ↦ c.registry.returned s.body.ret (ty.getD .void) l) fun r ↦
          .change (·.change fun b ↦ { b with ret := r.1 }) <|
            .fill place r.2 l (.ret l value) fun st ↦ .done st ()
  | .throw l value =>
    (c.optional value).within (.throw l ·) fun value _ ↦ .done (.throw l value) ()
  | .vars l declarations =>
    (c.exprs declarations).within (.vars l ·) fun es _ ↦ .done (.vars l es) ()
  | .function l signature body =>
    .check (.function l signature body) (c.typedParams signature.location signature.params)
      fun params ↦ .check (.function l signature body) (c.tyOf? signature.ret) fun ret ↦
        .look (.function l signature body) (fun s ↦ .ok s.functions.length) fun index ↦
          .change (registerEarly signature params ret) <|
            (Pass.inBody (.start params (returnOf ret)) (c.statements body)).within
              (.function l signature ·) fun body r ↦
                .change (registerLate signature params ret index r.2) <|
                  .done (.function l signature body) ()

/-- Binds the other branch of a conditional statement, in a scope of its own. -/
def alternative (c : BindContext) : Option Statement → Pass (Option Statement) Unit
  | none => .done none ()
  | some st => (Pass.inScope (c.statement st)).within some fun st _ ↦ .done (some st) ()

/-- Binds declarations from left to right. -/
def exprs (c : BindContext) : List Expr → Pass (List Expr) Unit
  | [] => .done [] ()
  | e :: es =>
    (c.expr e).within (· :: es) fun e _ ↦
      (c.exprs es).within (e :: ·) fun es _ ↦ .done (e :: es) ()

/-- Binds statements in order. -/
def statements (c : BindContext) : List Statement → Pass (List Statement) Unit
  | [] => .done [] ()
  | st :: sts =>
    (c.statement st).within (· :: sts) fun st _ ↦
      (c.statements sts).within (st :: ·) fun sts _ ↦ .done (st :: sts) ()

end

/-- Binds a program; the answer is the type of the expression that ends it. -/
def program (c : BindContext) (p : Program) : Pass Program Ty :=
  (c.statements p).within id fun p _ ↦ .done p (trailingTy p)

end BindContext

end Scriptlet
