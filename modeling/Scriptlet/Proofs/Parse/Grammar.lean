import Scriptlet.Parse.Program
import Scriptlet.Proofs.Except
import Scriptlet.Proofs.Parse.Open
import Scriptlet.Proofs.Token.Scanned

/-!
# What the grammar makes

Properties of parsed trees are proved by going through the parsers, and the way is always the same:
every parser replies with a form of the grammar whose parts come from other parsers. This module
goes that way once. `Grammatical E D S` collects what is to be shown, one field for each form that
the parsers put together, and whatever has these fields holds of all replies, and so of all
programs.

What a parser knows about the parts of a form is part of the field: that a name is no reserved word,
that an omitted element stands in lists only, that the type behind `new` is a chain of names, and
that the statement before an `else` is not open.
-/

namespace Scriptlet

/-! ## Parts of forms -/

/-- A word that is not reserved. -/
def IsIdentifier (x : String) : Prop := IsWord x ∧ Keyword.ofWord? x = none

/-- The literal has a spelling. Negative numbers have none of their own. -/
def Literal.Written : Literal → Prop
  | .int n => 0 ≤ n.toInt
  | .str s => '\x60' ∉ s.toList
  | _ => True

/-- The literal is one that a text can have: it has a spelling, and a double has its one
significand. -/
def Literal.Scanned : Literal → Prop
  | .int n => 0 ≤ n.toInt
  | .double x => x.Canonical
  | .str s => '\x60' ∉ s.toList
  | .bool _ => True

theorem Literal.Scanned.written {v : Literal} (h : v.Scanned) : v.Written := by
  cases v with
  | int n => exact h
  | str s => exact h
  | double _ | bool _ => trivial

/-- An omitted element of a list. -/
def Expr.Omitted (e : Expr) : Prop := ∃ l, e = .empty (.at l)

/-- A chain of names, as it stands behind `new`. -/
inductive Expr.IsChain : Expr → Prop where
  | name {l : Location} {x : String} (hx : IsIdentifier x) : IsChain (.name (.at l) x)
  | member {l : Location} {e : Expr} {x : String} (he : IsChain e) (hx : IsIdentifier x) :
      IsChain (.member (.at l) e x)

/-- The list is not an omitted element alone: a list that holds nothing is empty. -/
def NotLone (es : List Expr) : Prop := ∀ l, es ≠ [.empty (.at l)]

/-- Every element of the list that is not omitted has the property. -/
def Listed (E : Expr → Prop) (es : List Expr) : Prop := ∀ e ∈ es, ¬e.Omitted → E e

theorem Listed.nil {E : Expr → Prop} : Listed E [] := fun _ h ↦ absurd h List.not_mem_nil

theorem Listed.cons {E : Expr → Prop} {e : Expr} {es : List Expr} (he : ¬e.Omitted → E e)
    (hes : Listed E es) : Listed E (e :: es) :=
  List.forall_mem_cons.mpr ⟨he, hes⟩

theorem Listed.omit {E : Expr → Prop} {l : Location} {es : List Expr} (hes : Listed E es) :
    Listed E (.empty (.at l) :: es) :=
  .cons (fun h ↦ absurd ⟨l, rfl⟩ h) hes

theorem NotLone.cons {e : Expr} {es : List Expr} (h : es ≠ []) : NotLone (e :: es) :=
  fun _ heq ↦ h (List.cons.inj heq).2

/-- Properties of expressions, of declarations and of statements that every form of the grammar has
if its parts have them. -/
structure Grammatical (E D : Expr → Prop) (S : Statement → Prop) : Prop where
  present : ∀ {e : Expr}, E e → ¬e.Omitted
  literal : ∀ {l : Location} {v : Literal}, v.Scanned → E (.literal (.at l) v)
  name : ∀ {l : Location} {x : String}, IsIdentifier x → E (.name (.at l) x)
  variableRef : ∀ {l : Location} {x : String}, IsWord x → E (.variableRef (.at l) x)
  constantRef : ∀ {l : Location} {x : String}, IsWord x → E (.constantRef (.at l) x)
  unary : ∀ {l : Location} {op : UnaryOp} {e : Expr}, E e → E (.unary (.at l) op e none)
  binary : ∀ {l : Location} {op : BinaryOp} {a b : Expr}, E a → E b →
    E (.binary (.at l) op a b none)
  coalesce : ∀ {l : Location} {a b : Expr}, E a → E b → E (.coalesce (.at l) a b)
  ternary : ∀ {l : Location} {x a b : Expr}, E x → E a → E b → E (.ternary (.at l) x a b none)
  assign : ∀ {l : Location} {target v : Expr}, E target → E v → E (.assign (.at l) target v none)
  call : ∀ {l : Location} {target : Expr} {args : List Expr}, E target → NotLone args →
    Listed E args → E (.call (.at l) target args none)
  new : ∀ {l : Location} {target : Expr} {args : List Expr}, target.IsChain → E target →
    NotLone args → Listed E args → E (.new (.at l) target args none)
  index : ∀ {l : Location} {target : Expr} {args : List Expr}, E target → NotLone args →
    Listed E args → E (.index (.at l) target args none)
  member : ∀ {l : Location} {target : Expr} {x : String}, E target → IsWord x →
    E (.member (.at l) target x)
  array : ∀ {l : Location} {element : Option TypeExpr} {items : List Expr}, NotLone items →
    Listed E items → E (.array (.at l) element items none)
  lambda : ∀ {l : Location} {params : List Param} {body : List Statement}, (∀ st ∈ body, S st) →
    E (.lambda (.at l) params body)
  this : ∀ {l : Location}, E (.this (.at l))
  null : ∀ {l : Location}, E (.null (.at l))
  block : ∀ {l : Location} {body : List Statement}, (∀ st ∈ body, S st) → E (.block (.at l) body)
  declare : ∀ {l : Location} {x : String} {ty : Option TypeExpr} {init : Option Expr},
    IsIdentifier x → (∀ e ∈ init, E e) → D (.declare (.at l) x ty init none)
  expr : ∀ {e : Expr}, E e → S (.expr e)
  blockStatement : ∀ {l : Location} {body : List Statement}, (∀ st ∈ body, S st) →
    S (.block l body)
  cond : ∀ {l : Location} {x : Expr} {a : Statement} {b : Option Statement}, E x → S a →
    (∀ st ∈ b, S st) → (a.IsOpen → b = none) → S (.cond l x a b)
  ret : ∀ {l : Location} {value : Option Expr}, (∀ e ∈ value, E e) → S (.ret l value none)
  throw : ∀ {l : Location} {value : Option Expr}, (∀ e ∈ value, E e) → S (.throw l value)
  vars : ∀ {l : Location} {declarations : List Expr}, (∀ d ∈ declarations, D d) →
    S (.vars l declarations)
  function : ∀ {l : Location} {signature : Signature} {body : List Statement},
    (∀ st ∈ body, S st) → S (.function l signature body)

namespace Grammatical

variable {E D : Expr → Prop} {S : Statement → Prop} (hG : Grammatical E D S)

include hG

theorem notLone {e : Expr} {es : List Expr} (he : E e) : NotLone (e :: es) := by
  intro l heq
  obtain ⟨rfl, -⟩ := List.cons.inj heq
  exact hG.present he ⟨l, rfl⟩

/-- A chain of names is an expression too. -/
theorem of_isChain {e : Expr} (h : e.IsChain) : E e := by
  induction h with
  | name hx => exact hG.name hx
  | member _ hx ih => exact hG.member ih hx.1

end Grammatical

/-! ## Replies -/

namespace Reply

variable {α β : Type} {ts us : List Token} {P : α → Prop} {Q : β → Prop}

/-- If the reply is a value, the value is as asked and the tokens that are left are scanned. -/
def Ensures (r : Reply α ts) (P : α → Prop) : Prop :=
  match r with
  | .ok value rest _ => P value ∧ AllScanned rest
  | .fail _ _ => True

theorem Ensures.of_eq {r : Reply α ts} (hr : r.Ensures P) {value : α} {rest : List Token}
    {h : rest.length < ts.length} (heq : r = .ok value rest h) : P value ∧ AllScanned rest := by
  subst heq
  exact hr

theorem Ensures.mono {P' : α → Prop} {r : Reply α ts} (hr : r.Ensures P)
    (h : ∀ value, P value → P' value) : r.Ensures P' := by
  cases r with
  | ok value rest _ => exact ⟨h value hr.1, hr.2⟩
  | fail e rest => trivial

theorem ensures_stop {fin : Location} {wanted : Expectation} :
    (Parse.stop fin wanted us : Reply α ts).Ensures P := trivial

/-- What follows may also use that the value is the one that was replied. -/
theorem Ensures.andThen_of {r : Reply α us}
    {k : (value : α) → (rest : List Token) → rest.length < us.length → Reply β ts}
    (hr : r.Ensures P)
    (hk : ∀ value rest h, r = .ok value rest h → P value → AllScanned rest →
      (k value rest h).Ensures Q) :
    (r.andThen k).Ensures Q := by
  cases r with
  | ok value rest h => exact hk value rest h rfl hr.1 hr.2
  | fail e rest => trivial

theorem Ensures.andThen {r : Reply α us}
    {k : (value : α) → (rest : List Token) → rest.length < us.length → Reply β ts}
    (hr : r.Ensures P)
    (hk : ∀ value rest h, P value → AllScanned rest → (k value rest h).Ensures Q) :
    (r.andThen k).Ensures Q :=
  hr.andThen_of fun value rest h _ ↦ hk value rest h

theorem Ensures.map {r : Reply α ts} {f : α → β} (hr : r.Ensures P)
    (hf : ∀ value, P value → Q (f value)) : (r.map f).Ensures Q := by
  cases r with
  | ok value rest h => exact ⟨hf value hr.1, hr.2⟩
  | fail e rest => trivial

theorem Ensures.within {r : Reply α us} {h : us.length < ts.length} {f : α → β}
    (hr : r.Ensures P) (hf : ∀ value, P value → Q (f value)) : (r.within h f).Ensures Q := by
  cases r with
  | ok value rest h => exact ⟨hf value hr.1, hr.2⟩
  | fail e rest => trivial

theorem Ensures.behind {r : Reply α us} {t : Token} {f : α → β} (hr : r.Ensures P)
    (hf : ∀ value, P value → Q (f value)) : (r.behind f : Reply β (t :: us)).Ensures Q :=
  hr.within hf

theorem ensures_one {t : Token} {value : α} (hts : AllScanned (t :: us)) (h : P value) :
    (Reply.one value : Reply α (t :: us)).Ensures P :=
  ⟨h, hts.tail⟩

end Reply

namespace Parse

open Reply

variable {n : Nat} {fin : Location} {p : Parsers n} {ts : List Token}

/-! ## Words, types and parameters -/

theorem ensures_expect {s : Symbol} {wanted : Expectation} (hts : AllScanned ts) :
    (expect fin s wanted ts).Ensures fun _ ↦ True := by
  unfold expect
  split
  · split
    · exact ensures_one hts trivial
    · exact ensures_stop
  · exact ensures_stop

theorem ensures_identifier (hts : AllScanned ts) : (identifier fin ts).Ensures IsIdentifier := by
  unfold identifier
  split
  · split
    · exact ensures_stop
    · rename_i hreserved
      exact ensures_one hts ⟨hts.head, by simpa [Keyword.isReserved] using hreserved⟩
  · exact ensures_stop

theorem ensures_anyName (hts : AllScanned ts) : (anyName fin ts).Ensures IsWord := by
  unfold anyName
  split
  · exact ensures_one hts hts.head
  · exact ensures_stop

theorem allScanned_skipTerminators (hts : AllScanned ts) : AllScanned (skipTerminators ts) := by
  fun_induction skipTerminators ts with
  | case1 _ rest ih => exact ih hts.tail
  | case2 => exact hts

theorem allScanned_brackets (hts : AllScanned ts) : AllScanned (brackets ts).2 := by
  fun_induction brackets ts with
  | case1 _ _ rest more ih => exact ih hts.tail.tail
  | case2 => exact hts

theorem ensures_dottedNames {first : String} {origin : List Token}
    {h : ts.length < origin.length} (hts : AllScanned ts) :
    (dottedNames fin first origin ts h).Ensures fun _ ↦ True := by
  fun_induction dottedNames fin first origin ts h with
  | case1 _ _ _ _ _ _ _ _ heq _ ih => exact ih ((ensures_identifier hts.tail).of_eq heq).2
  | case2 => trivial
  | case3 => exact ⟨trivial, hts⟩

theorem ensures_typeExpr (hts : AllScanned ts) : (typeExpr fin ts).Ensures fun _ ↦ True :=
  (ensures_identifier hts).andThen fun _ _ _ _ hrest ↦
    (ensures_dottedNames hrest).andThen fun _ _ _ _ hrest ↦ ⟨trivial, allScanned_brackets hrest⟩

theorem ensures_optionalTypeExpr {origin : List Token} {h : ts.length < origin.length}
    (hts : AllScanned ts) : (optionalTypeExpr fin origin ts h).Ensures fun _ ↦ True := by
  unfold optionalTypeExpr
  split
  · exact (ensures_typeExpr hts.tail).within fun _ _ ↦ trivial
  · exact ⟨trivial, hts⟩

theorem ensures_param (hts : AllScanned ts) : (param fin ts).Ensures fun _ ↦ True :=
  (ensures_identifier hts).andThen fun _ _ _ _ hrest ↦
    (ensures_optionalTypeExpr hrest).map fun _ _ ↦ trivial

theorem ensures_paramLoop (hts : AllScanned ts) : (paramLoop fin ts).Ensures fun _ ↦ True := by
  fun_induction paramLoop fin ts with
  | case1 => trivial
  | case2 _ _ _ _ _ _ _ heq ih =>
    exact (ih ((ensures_param hts).of_eq heq).2.tail).within fun _ _ ↦ trivial
  | case3 _ _ _ _ _ _ heq =>
    exact (ensures_expect ((ensures_param hts).of_eq heq).2).within fun _ _ ↦ trivial

theorem ensures_params (hts : AllScanned ts) : (params fin ts).Ensures fun _ ↦ True := by
  refine (ensures_expect hts).andThen fun _ rest _ _ hrest ↦ ?_
  split
  · exact ⟨trivial, hrest.tail⟩
  · exact (ensures_paramLoop hrest).within fun _ _ ↦ trivial

/-! ## Lists and blocks -/

/-- The parsers that the grammar starts over with reply with expressions and statements as asked,
and leave no `else` behind an open statement. -/
structure Parsers.Sound (E : Expr → Prop) (S : Statement → Prop) (p : Parsers n) : Prop where
  expr : ∀ ts h, AllScanned ts → (p.expr ts h).Ensures E
  unary : ∀ ts h, AllScanned ts → (p.unary ts h).Ensures E
  statement : ∀ ts h, AllScanned ts → (p.statement ts h).Ensures S
  close : p.Close

variable {E D : Expr → Prop} {S : Statement → Prop} (hG : Grammatical E D S) (hp : p.Sound E S)

include hG hp

theorem ensures_itemLoop {close : Symbol} {wanted : Expectation} {h : ts.length < n}
    (hts : AllScanned ts) :
    (itemLoop fin p close wanted ts h).Ensures fun es ↦
      Listed E es ∧ es ≠ [] ∧ (kindOf ts ≠ .symbol close → NotLone es) := by
  fun_induction itemLoop fin p close wanted ts h with
  | case1 l rest h _ ih =>
    exact (ih hts.tail).behind fun es ⟨hes, hne, _⟩ ↦
      ⟨hes.omit, List.cons_ne_nil _ _, fun _ ↦ .cons hne⟩
  | case2 ts h _ hclose =>
    exact (ensures_expect hts).map fun _ _ ↦
      ⟨Listed.nil.omit, List.cons_ne_nil _ _, fun hne ↦ absurd hclose hne⟩
  | case3 => trivial
  | case4 ts h _ hne e l rest hr _ _ _ _ heq ih =>
    obtain ⟨he, hrest⟩ := (hp.expr ts h hts).of_eq heq
    exact (ih hrest.tail).within fun es ⟨hes, _, _⟩ ↦
      ⟨.cons (fun _ ↦ he) hes, List.cons_ne_nil _ _, fun _ ↦ hG.notLone he⟩
  | case5 ts h _ hne e rest hr _ _ _ heq =>
    obtain ⟨he, hrest⟩ := (hp.expr ts h hts).of_eq heq
    exact (ensures_expect hrest).within fun _ _ ↦
      ⟨.cons (fun _ ↦ he) .nil, List.cons_ne_nil _ _, fun _ ↦ hG.notLone he⟩

theorem ensures_items {close : Symbol} {wanted : Expectation} {h : ts.length < n}
    (hts : AllScanned ts) :
    (items fin p close wanted ts h).Ensures fun es ↦ NotLone es ∧ Listed E es := by
  unfold items
  split
  · exact (ensures_expect hts).map fun _ _ ↦ ⟨fun _ h ↦ List.cons_ne_nil _ _ h.symm, .nil⟩
  · rename_i hne
    exact (ensures_itemLoop hG hp hts).mono fun es ⟨hes, _, hlone⟩ ↦ ⟨hlone hne, hes⟩

omit hG in
theorem ensures_blockBody {h : ts.length < n} (hts : AllScanned ts) :
    (blockBody fin p ts h).Ensures fun body ↦ ∀ st ∈ body, S st := by
  fun_induction blockBody fin p ts h with
  | case1 => exact ensures_stop
  | case2 ts h t us hs hle _ =>
    have hskip := hs ▸ allScanned_skipTerminators hts
    exact ⟨fun _ h ↦ absurd h List.not_mem_nil, hskip.tail⟩
  | case3 => trivial
  | case4 ts h t us hs hle _ st rest hr heq _ ih =>
    have hskip := hs ▸ allScanned_skipTerminators hts
    obtain ⟨hst, hrest⟩ := (hp.statement _ _ hskip).of_eq heq
    exact (ih hrest).within fun body hbody ↦ List.forall_mem_cons.mpr ⟨hst, hbody⟩

theorem ensures_functionBody {h : ts.length ≤ n} (hts : AllScanned ts) :
    (functionBody fin p ts h).Ensures fun body ↦ ∀ st ∈ body, S st := by
  unfold functionBody
  split
  · exact (hp.expr _ _ hts.tail).behind fun e he ↦
      List.forall_mem_singleton.mpr (hG.ret fun _ h ↦ Option.mem_some.mp h ▸ he)
  · exact (ensures_blockBody hp hts.tail).behind fun _ h ↦ h
  · exact ensures_stop

/-! ## Primary expressions -/

omit hG hp in
theorem ensures_newTarget {target : Expr} {text : String} {origin : List Token}
    {h : ts.length < origin.length} (hts : AllScanned ts) (htarget : target.IsChain) :
    (newTarget fin target text origin ts h).Ensures fun r ↦ r.1.IsChain := by
  fun_induction newTarget fin target text origin ts h with
  | case1 target text s l rest h hrest _ w rest' hr heq _ ih =>
    obtain ⟨hw, hrest'⟩ := (ensures_identifier hts.tail).of_eq heq
    exact ih hrest' (.member htarget hw)
  | case2 => trivial
  | case3 => exact ⟨htarget, hts⟩
  | case4 => exact ⟨htarget, hts⟩

omit hG hp in
theorem ensures_newBrackets {rank : Nat} {origin : List Token} {h : ts.length < origin.length}
    (hts : AllScanned ts) : (newBrackets fin rank origin ts h).Ensures fun _ ↦ True := by
  fun_induction newBrackets fin rank origin ts h with
  | case1 rank l rest h hrest u rest' hr heq _ ih =>
    exact ih ((ensures_expect hts.tail).of_eq heq).2
  | case2 => trivial
  | case3 => exact ⟨trivial, hts⟩

theorem ensures_newExpr {l : Location} {h : ts.length < n} (hts : AllScanned ts) :
    (newExpr fin p l ts h).Ensures E := by
  refine (ensures_identifier hts).andThen fun first rest _ hfirst hrest ↦ ?_
  refine (ensures_newTarget hrest (.name hfirst)).andThen fun target rest _ htarget hrest ↦ ?_
  split
  · refine (ensures_newBrackets hrest).andThen fun rank rest _ _ hrest ↦ ?_
    refine (ensures_expect hrest).andThen fun _ rest _ _ hrest ↦ ?_
    exact (ensures_items hG hp hrest).within fun es ⟨hlone, hes⟩ ↦ hG.array hlone hes
  · refine (ensures_expect hrest).andThen fun _ rest _ _ hrest ↦ ?_
    exact (ensures_items hG hp hrest).within fun es ⟨hlone, hes⟩ ↦
      hG.new htarget (hG.of_isChain htarget) hlone hes
  · have hempty : NotLone [] := fun _ h ↦ List.cons_ne_nil _ _ h.symm
    exact ⟨hG.new htarget (hG.of_isChain htarget) hempty .nil, hrest⟩

theorem ensures_keywordExpr {k : Keyword} {t : Token} {h : ts.length < n}
    (hts : AllScanned (t :: ts)) : (keywordExpr fin p k t ts h).Ensures E := by
  unfold keywordExpr
  split
  · exact (ensures_newExpr hG hp hts.tail).behind fun _ h ↦ h
  · exact ensures_one hts (hG.literal trivial)
  · exact ensures_one hts (hG.literal trivial)
  · exact ensures_one hts hG.null
  · exact ensures_one hts hG.this
  · split
    · exact ((ensures_anyName hts.tail.tail).behind fun _ hx ↦ hG.variableRef hx).behind fun _ h ↦ h
    · exact (ensures_anyName hts.tail).behind fun _ hx ↦ hG.variableRef hx
  · split
    · exact ((ensures_anyName hts.tail.tail).behind fun _ hx ↦ hG.variableRef hx).behind fun _ h ↦ h
    · exact (ensures_anyName hts.tail).behind fun _ hx ↦ hG.variableRef hx
  · refine Ensures.behind ((ensures_params hts.tail).andThen fun ps rest _ _ hrest ↦ ?_) fun _ h ↦ h
    exact (ensures_functionBody hG hp hrest).within fun body hbody ↦ hG.lambda hbody
  all_goals exact ensures_stop

theorem ensures_primary {h : ts.length ≤ n} (hts : AllScanned ts) :
    (primary fin p ts h).Ensures E := by
  unfold primary
  split
  · exact ensures_one hts (hG.literal hts.head)
  · exact ensures_one hts (hG.literal hts.head)
  · exact ensures_one hts (hG.literal hts.head)
  · exact (ensures_anyName hts.tail).behind fun _ hx ↦ hG.variableRef hx
  · exact (ensures_anyName hts.tail).behind fun _ hx ↦ hG.constantRef hx
  · exact (ensures_blockBody hp hts.tail).behind fun _ hbody ↦ hG.block hbody
  · refine Ensures.behind ((hp.expr _ _ hts.tail).andThen fun e rest _ he hrest ↦ ?_) fun _ h ↦ h
    exact (ensures_expect hrest).within fun _ _ ↦ hG.unary he
  · exact (ensures_items hG hp hts.tail).behind fun es ⟨hlone, hes⟩ ↦ hG.array hlone hes
  · split
    · exact ensures_keywordExpr hG hp hts
    · rename_i hword
      exact ensures_one hts (hG.name ⟨hts.head, hword⟩)
  · exact ensures_stop

/-! ## Suffixes -/

omit hp in
theorem ensures_arrowTarget (hts : AllScanned ts) : (arrowTarget fin ts).Ensures E := by
  unfold arrowTarget
  split
  · exact (ensures_anyName hts.tail).behind fun _ hx ↦ hG.variableRef hx
  · exact (ensures_identifier hts).map fun _ hx ↦ hG.name hx

theorem ensures_suffixes {e : Expr} {origin : List Token} {h : ts.length < origin.length}
    {hn : origin.length ≤ n} (hts : AllScanned ts) (he : E e) :
    (suffixes fin p e origin ts h hn).Ensures E := by
  fun_induction suffixes fin p e origin ts h hn with
  | case1 => exact ⟨he, hts⟩
  | case2 => trivial
  | case3 e s l rest h hrest next e' rest' hr heq _ ih =>
    obtain ⟨he', hrest'⟩ : E e' ∧ AllScanned rest' := by
      unfold next at heq
      split at heq
      · exact ((ensures_items hG hp hts.tail).map fun _ h ↦
          hG.call he h.1 h.2).of_eq (Option.some.inj heq)
      · exact ((ensures_items hG hp hts.tail).map fun _ h ↦
          hG.index he h.1 h.2).of_eq (Option.some.inj heq)
      · exact ((ensures_arrowTarget hG hts.tail).map fun _ ht ↦
          hG.assign ht he).of_eq (Option.some.inj heq)
      · exact ((hp.unary _ _ hts.tail).map fun _ hr ↦ hG.coalesce he hr).of_eq (Option.some.inj heq)
      · exact ((ensures_anyName hts.tail).map fun _ hx ↦ hG.member he hx).of_eq
          (Option.some.inj heq)
      · exact ((ensures_anyName hts.tail).map fun _ hx ↦ hG.member he hx).of_eq
          (Option.some.inj heq)
      · cases heq
    exact ih hrest' he'
  | case4 => exact ⟨he, hts⟩

omit hp in
theorem holds_increments {e : Expr} (hts : AllScanned ts) (he : E e) :
    E (increments e ts).1 ∧ AllScanned (increments e ts).2 := by
  fun_induction increments e ts with
  | case1 _ _ _ ih => exact ih hts.tail (hG.unary he)
  | case2 _ _ _ ih => exact ih hts.tail (hG.unary he)
  | case3 => exact ⟨he, hts⟩

theorem ensures_suffixed {h : ts.length ≤ n} (hts : AllScanned ts) :
    (suffixed fin p ts h).Ensures E :=
  (ensures_primary hG hp hts).andThen fun _ _ _ he hrest ↦
    (ensures_suffixes hG hp hrest he).andThen fun _ _ _ he hrest ↦ holds_increments hG hrest he

/-! ## The ladder -/

theorem ensures_unary {h : ts.length ≤ n} (hts : AllScanned ts) :
    (unary fin p ts h).Ensures E := by
  unfold unary
  split
  · split
    · exact (hp.unary _ _ hts.tail).behind fun _ he ↦ hG.unary he
    · exact ensures_suffixed hG hp hts
  · exact ensures_suffixed hG hp hts

omit hp in
theorem ensures_operatorLoop {level : Level}
    {operand : (ts : List Token) → ts.length ≤ n → Reply Expr ts}
    (hoperand : ∀ ts h, AllScanned ts → (operand ts h).Ensures E) {left : Expr}
    {origin : List Token} {h : ts.length < origin.length} {hn : origin.length ≤ n}
    (hts : AllScanned ts) (hleft : E left) :
    (operatorLoop level operand left origin ts h hn).Ensures E := by
  fun_induction operatorLoop level operand left origin ts h hn with
  | case1 => trivial
  | case2 left t rest h hrest op _ right rest' hr heq _ ih =>
    obtain ⟨hright, hrest'⟩ := (hoperand _ _ hts.tail).of_eq heq
    exact ih hrest' (hG.binary hleft hright)
  | case3 => exact ⟨hleft, hts⟩
  | case4 => exact ⟨hleft, hts⟩

theorem ensures_ladder {levels : List Level} (ts : List Token) (h : ts.length ≤ n)
    (hts : AllScanned ts) : (ladder fin p levels ts h).Ensures E := by
  induction levels generalizing ts with
  | nil => exact ensures_unary hG hp hts
  | cons level tighter ih =>
    exact (ih ts h hts).andThen fun _ _ _ he hrest ↦ ensures_operatorLoop hG ih hrest he

theorem ensures_conditional {h : ts.length ≤ n} (hts : AllScanned ts) :
    (conditional fin p ts h).Ensures E := by
  refine (ensures_ladder hG hp ts h hts).andThen fun x rest _ hx hrest ↦ ?_
  split
  · refine (hp.expr _ _ hrest.tail).andThen fun a rest _ ha hrest ↦ ?_
    refine (ensures_expect hrest).andThen fun _ rest _ _ hrest ↦ ?_
    exact (hp.expr _ _ hrest).within fun b hb ↦ hG.ternary hx ha hb
  · exact ⟨hx, hrest⟩

theorem ensures_assignment {h : ts.length ≤ n} (hts : AllScanned ts) :
    (assignment fin p ts h).Ensures E := by
  refine (ensures_conditional hG hp hts).andThen fun target rest _ ht hrest ↦ ?_
  split
  · exact (hp.expr _ _ hrest.tail).within fun v hv ↦ hG.assign ht hv
  · exact ⟨ht, hrest⟩

/-! ## Statements -/

omit hG in
theorem ensures_optionalValue {t : Token} {h : ts.length < n} (hts : AllScanned (t :: ts)) :
    (optionalValue p t ts h).Ensures fun value ↦ ∀ e ∈ value, E e := by
  unfold optionalValue
  split
  any_goals exact ensures_one hts fun _ h ↦ absurd h (Option.not_mem_none _)
  exact (hp.expr _ _ hts.tail).behind fun e he _ h ↦ Option.mem_some.mp h ▸ he

omit hG in
theorem ensures_optionalInit {origin : List Token} {h : ts.length < origin.length}
    {hn : origin.length ≤ n} (hts : AllScanned ts) :
    (optionalInit p origin ts h hn).Ensures fun init ↦ ∀ e ∈ init, E e := by
  unfold optionalInit
  split
  · exact (hp.expr _ _ hts.tail).within fun e he _ h ↦ Option.mem_some.mp h ▸ he
  · exact ⟨fun _ h ↦ absurd h (Option.not_mem_none _), hts⟩

theorem ensures_declaration {h : ts.length ≤ n} (hts : AllScanned ts) :
    (declaration fin p ts h).Ensures D :=
  (ensures_identifier hts).andThen fun _ _ _ hx hrest ↦
    (ensures_optionalTypeExpr hrest).andThen fun _ _ _ _ hrest ↦
      (ensures_optionalInit hp hrest).map fun _ hinit ↦ hG.declare hx hinit

theorem ensures_declarations {h : ts.length ≤ n} (hts : AllScanned ts) :
    (declarations fin p ts h).Ensures fun ds ↦ ∀ d ∈ ds, D d := by
  fun_induction declarations fin p ts h with
  | case1 => trivial
  | case2 ts h d l rest hr _ _ heq ih =>
    obtain ⟨hd, hrest⟩ := (ensures_declaration hG hp hts).of_eq heq
    exact (ih hrest.tail).within fun _ hds ↦ List.forall_mem_cons.mpr ⟨hd, hds⟩
  | case3 ts h d rest hr _ _ heq =>
    obtain ⟨hd, hrest⟩ := (ensures_declaration hG hp hts).of_eq heq
    exact ⟨List.forall_mem_singleton.mpr hd, hrest⟩

theorem ensures_functionDefinition {l : Location} {h : ts.length ≤ n} (hts : AllScanned ts) :
    (functionDefinition fin p l ts h).Ensures S :=
  (ensures_identifier hts).andThen fun _ _ _ _ hrest ↦
    (ensures_params hrest).andThen fun _ _ _ _ hrest ↦
      (ensures_optionalTypeExpr hrest).andThen fun _ _ _ _ hrest ↦
        (ensures_functionBody hG hp hrest).within fun _ hbody ↦ hG.function hbody

theorem ensures_condition {l : Location} {h : ts.length ≤ n} (hts : AllScanned ts) :
    (condition fin p l ts h).Ensures S := by
  refine (ensures_expect hts).andThen fun _ rest _ _ hrest ↦ ?_
  refine (hp.expr _ _ hrest).andThen fun x rest _ hx hrest ↦ ?_
  refine (ensures_expect hrest).andThen fun _ rest _ _ hrest ↦ ?_
  refine (hp.statement _ _ hrest).andThen_of fun a rest _ heq ha hrest ↦ ?_
  have hnone : S (.cond l x a none) :=
    hG.cond hx ha (fun _ h ↦ absurd h (Option.not_mem_none _)) fun _ ↦ rfl
  split
  · exact ⟨hnone, hrest⟩
  · rename_i t us hs
    split
    · rename_i helse
      have hskip := hs ▸ allScanned_skipTerminators hrest
      -- the branch has an `else` behind it, and so it is not open
      have hclosed : ¬a.IsOpen := fun hopen ↦ hp.close _ _ _ _ _ heq hopen (hs ▸ helse)
      exact (hp.statement _ _ hskip.tail).within fun b hb ↦
        hG.cond hx ha (fun _ h ↦ Option.mem_some.mp h ▸ hb) fun hopen ↦ absurd hopen hclosed
    · exact ⟨hnone, hrest⟩

theorem ensures_statement {h : ts.length ≤ n} (hts : AllScanned ts) :
    (statement fin p ts h).Ensures S := by
  have hexpr : ((assignment fin p ts h).map .expr).Ensures S :=
    (ensures_assignment hG hp hts).map fun _ he ↦ hG.expr he
  unfold statement
  split
  · split
    · exact (ensures_blockBody hp hts.tail).behind fun _ hbody ↦ hG.blockStatement hbody
    · split
      · exact (ensures_declarations hG hp hts.tail).behind fun _ hd ↦ hG.vars hd
      · exact (ensures_functionDefinition hG hp hts.tail).behind fun _ h ↦ h
      · exact (ensures_condition hG hp hts.tail).behind fun _ h ↦ h
      · exact (ensures_optionalValue hp hts).map fun _ hv ↦ hG.ret hv
      · exact (ensures_optionalValue hp hts).map fun _ hv ↦ hG.throw hv
      · trivial
      · trivial
      · exact hexpr
    · exact hexpr
  · exact hexpr

omit hp in
/-- Whatever bound they are built for, the parsers reply with what the grammar makes. -/
theorem parsers_sound (fin : Location) (n : Nat) : (parsers fin n).Sound E S := by
  induction n with
  | zero => exact ⟨fun _ h ↦ absurd h (Nat.not_lt_zero _), fun _ h ↦ absurd h (Nat.not_lt_zero _),
      fun _ h ↦ absurd h (Nat.not_lt_zero _), parsers_close fin 0⟩
  | succ n ih => exact ⟨fun _ _ hts ↦ ensures_assignment hG ih hts,
      fun _ _ hts ↦ ensures_unary hG ih hts, fun _ _ hts ↦ ensures_statement hG ih hts,
      parsers_close fin (n + 1)⟩

end Parse

/-! ## Texts -/

namespace Reader

variable {r : Reader} {E D : Expr → Prop} {S : Statement → Prop}

theorem ensures_statementHere (hG : Grammatical E D S) (hr : AllScanned r.tokens) :
    r.statementHere.Ensures S :=
  (Parse.parsers_sound hG _ _).statement _ _ hr

theorem ensures_expr (hG : Grammatical E D S) (hr : AllScanned r.tokens) : r.expr.Ensures E :=
  (Parse.parsers_sound hG _ _).expr _ _ hr

theorem holds_of_program (hG : Grammatical E D S) {p : Program} (hr : AllScanned r.tokens)
    (h : r.program = .ok p) : ∀ st ∈ p, S st := by
  fun_induction program r generalizing p with
  | case1 =>
    obtain rfl := Except.ok.inj h
    exact fun _ hst ↦ absurd hst List.not_mem_nil
  | case2 => cases h
  | case3 r t us _ st rest _ heq _ more hmore ih =>
    obtain rfl := Except.ok.inj h
    have hskip : AllScanned r.skipTerminators.tokens := Parse.allScanned_skipTerminators hr
    obtain ⟨hst, hrest⟩ := (ensures_statementHere hG hskip).of_eq heq
    exact List.forall_mem_cons.mpr ⟨hst, ih hrest hmore⟩
  | case4 => cases h

theorem allScanned_ofText (source : String) : AllScanned (ofText source).tokens :=
  Cursor.allScanned_tokens _

end Reader

namespace Grammatical

variable {E D : Expr → Prop} {S : Statement → Prop} (hG : Grammatical E D S)

include hG

/-- What the grammar hands on holds of every statement of a program that a text is. -/
theorem of_parseProgram {source : String} {p : Program} (h : parseProgram source = .ok p) :
    ∀ st ∈ p, S st :=
  Reader.holds_of_program hG (Reader.allScanned_ofText source) h

/-- What the grammar hands on holds of the expression that a text is. -/
theorem of_parseExpression {source : String} {e : Expr} (h : parseExpression source = .ok e) :
    E e := by
  unfold parseExpression at h
  dsimp only at h
  split at h
  · cases h
  · rename_i e' rest hr heq
    obtain ⟨he, -⟩ := (Reader.ensures_expr hG (Reader.allScanned_ofText source)).of_eq heq
    obtain rfl : e' = e := (of_ite_ok h).2
    exact he

end Grammatical

end Scriptlet
