import Scriptlet.Proofs.Parse.Written
import Scriptlet.Proofs.Tree.Definitions

/-!
# Definitions stand at places of their own

The tokens of a text stand one behind another, so no two of them stand at one place. A definition
stands where the word that begins it stands, and each parser gives a token away at most once: what
it replies with and what it leaves hold no place more often than what it was given. So no two
definitions of a program stand at one place, and a definition can be found by its place.
-/

namespace Scriptlet

/-! ## Tokens -/

namespace Location

/-- The one place is before the other. -/
def Before (a b : Location) : Prop := a.line < b.line ∨ a.line = b.line ∧ a.column < b.column

theorem Before.trans {a b c : Location} (h : a.Before b) (k : b.Before c) : a.Before c := by
  unfold Before at *
  omega

theorem before_after (l : Location) (c : Char) : l.Before (l.after c) := by
  unfold after Before
  split
  · exact .inl (Nat.lt_succ_self _)
  · exact .inr ⟨rfl, Nat.lt_succ_self _⟩

/-- A place is that of the end of a text, or before it. -/
theorem eq_or_before_foldl (cs : List Char) (l : Location) :
    cs.foldl after l = l ∨ l.Before (cs.foldl after l) := by
  induction cs generalizing l with
  | nil => exact .inl rfl
  | cons c cs ih =>
    refine .inr ?_
    rcases ih (l.after c) with heq | hbefore
    · rw [List.foldl_cons, heq]
      exact l.before_after c
    · exact (l.before_after c).trans hbefore

end Location

namespace Cursor

theorem eq_or_before_advance (c : Cursor) (n : Nat) :
    (c.advance n).location = c.location ∨ c.location.Before (c.advance n).location :=
  Location.eq_or_before_foldl _ _

/-- A token stands at the cursor or behind it, and the cursor behind the token is behind both. -/
theorem place_of_next? {c c' : Cursor} {t : Token} (h : c.next? = some (t, c')) :
    (t.location = c.location ∨ c.location.Before t.location) ∧ t.location.Before c'.location := by
  simp only [next?] at h
  split at h
  · cases h
  · rename_i ch cs hrest
    obtain ⟨rfl, rfl⟩ := Prod.mk.inj (Option.some.inj h)
    refine ⟨c.eq_or_before_advance _, ?_⟩
    -- the token has a first character, and the cursor goes behind it at least
    rw [advance, hrest, List.take_succ_cons, List.foldl_cons]
    rcases Location.eq_or_before_foldl (cs.take (readToken ch cs).2)
      (c.skipGap.location.after ch) with heq | hbefore
    · rw [heq]
      exact Location.before_after _ ch
    · exact (Location.before_after _ ch).trans hbefore

theorem tokens_behind (c : Cursor) :
    ∀ t ∈ c.tokens.1, t.location = c.location ∨ c.location.Before t.location := by
  fun_induction tokens c with
  | case1 => exact fun _ h ↦ absurd h List.not_mem_nil
  | case2 c t c' hnext _ more ih =>
    obtain ⟨hfirst, hbehind⟩ := place_of_next? hnext
    have hlater : c.location.Before c'.location := by
      rcases hfirst with heq | hfirst
      · rwa [heq] at hbehind
      · exact hfirst.trans hbehind
    refine List.forall_mem_cons.mpr ⟨hfirst, fun t' ht' ↦ .inr ?_⟩
    rcases ih t' ht' with heq | hbefore
    · rwa [heq]
    · exact hlater.trans hbefore

/-- No two tokens stand at one place. -/
theorem places_nodup (c : Cursor) : (c.tokens.1.map Token.location).Nodup := by
  fun_induction tokens c with
  | case1 => exact List.nodup_nil
  | case2 c t c' hnext _ more ih =>
    refine List.nodup_cons.mpr ⟨fun hmem ↦ ?_, ih⟩
    obtain ⟨t', ht', heq⟩ := List.mem_map.mp hmem
    have hbehind := (place_of_next? hnext).2
    -- a later token at the same place would stand behind itself
    have hself : t.location.Before t.location := by
      rcases tokens_behind c' t' ht' with hat | hbefore
      · rwa [← hat, heq] at hbehind
      · exact heq ▸ hbehind.trans hbefore
    unfold Location.Before at hself
    omega

end Cursor

/-! ## Replies -/

/-- How many of the tokens stand at the place. -/
def tokensAt (l : Location) (ts : List Token) : Nat := (ts.map Token.location).count l

/-- How many of the definitions stand at the place. -/
def definedAt (l : Location) (ds : List Definition) : Nat := (ds.map Definition.location).count l

section Counts

variable (l : Location)

@[simp] theorem tokensAt_cons (t : Token) (ts : List Token) :
    tokensAt l (t :: ts) = tokensAt l ts + if t.location = l then 1 else 0 := by
  simp [tokensAt, List.count_cons]

@[simp] theorem definedAt_nil : definedAt l [] = 0 := rfl

@[simp] theorem definedAt_cons (d : Definition) (ds : List Definition) :
    definedAt l (d :: ds) = definedAt l ds + if d.location = l then 1 else 0 := by
  simp [definedAt, List.count_cons]

@[simp] theorem definedAt_append (ds es : List Definition) :
    definedAt l (ds ++ es) = definedAt l ds + definedAt l es := by
  simp [definedAt]

/-- The same of an expression. -/
def Expr.definedAt (e : Expr) : Nat := Scriptlet.definedAt l e.definitions

/-- The same of the expressions of a list. -/
def exprsDefinedAt (es : List Expr) : Nat := definedAt l (exprsDefinitions es)

/-- The same of an expression that may be missing. -/
def optionDefinedAt (o : Option Expr) : Nat := definedAt l (optionDefinitions o)

/-- The same of a statement. -/
def Statement.definedAt (st : Statement) : Nat := Scriptlet.definedAt l st.definitions

/-- The same of the statements of a list. -/
def statementsDefinedAt (sts : List Statement) : Nat := definedAt l (statementsDefinitions sts)

end Counts

namespace Reply

variable {α β : Type} {ts us : List Token} {l : Location} {P : α → Nat} {Q : β → Nat} {b b' : Nat}

/-- If the reply is a value, what is counted in the value and in the tokens that are left at the
place is no more than the bound. -/
def Spends (l : Location) (r : Reply α ts) (P : α → Nat) (b : Nat) : Prop :=
  match r with
  | .ok value rest _ => P value + tokensAt l rest ≤ b
  | .fail _ _ => True

theorem Spends.of_eq {r : Reply α ts} (hr : r.Spends l P b) {value : α} {rest : List Token}
    {h : rest.length < ts.length} (heq : r = .ok value rest h) : P value + tokensAt l rest ≤ b := by
  subst heq
  exact hr

theorem Spends.mono {r : Reply α ts} (hr : r.Spends l P b) (hb : b ≤ b') : r.Spends l P b' := by
  cases r with
  | ok value rest h => exact Nat.le_trans hr hb
  | fail e rest => trivial

theorem spends_stop {fin : Location} {wanted : Expectation} :
    (Parse.stop fin wanted us : Reply α ts).Spends l P b := trivial

theorem Spends.andThen {r : Reply α us}
    {k : (value : α) → (rest : List Token) → rest.length < us.length → Reply β ts}
    (hr : r.Spends l P b)
    (hk : ∀ value rest h, P value + tokensAt l rest ≤ b → (k value rest h).Spends l Q b') :
    (r.andThen k).Spends l Q b' := by
  cases r with
  | ok value rest h => exact hk value rest h hr
  | fail e rest => trivial

theorem Spends.within {r : Reply α us} {h : us.length < ts.length} {f : α → β}
    (hr : r.Spends l P b) (hf : ∀ value, Q (f value) + b ≤ P value + b') :
    (r.within h f).Spends l Q b' := by
  cases r with
  | ok value rest h =>
    have hvalue := hf value
    have hspent : P value + tokensAt l rest ≤ b := hr
    exact (by omega : Q (f value) + tokensAt l rest ≤ b')
  | fail e rest => trivial

theorem Spends.behind {r : Reply α us} {t : Token} {f : α → β} (hr : r.Spends l P b)
    (hf : ∀ value, Q (f value) + b ≤ P value + b') :
    (r.behind f : Reply β (t :: us)).Spends l Q b' :=
  hr.within hf

theorem Spends.map {r : Reply α ts} {f : α → β} (hr : r.Spends l P b)
    (hf : ∀ value, Q (f value) + b ≤ P value + b') : (r.map f).Spends l Q b' := by
  cases r with
  | ok value rest h =>
    have hvalue := hf value
    have hspent : P value + tokensAt l rest ≤ b := hr
    exact (by omega : Q (f value) + tokensAt l rest ≤ b')
  | fail e rest => trivial

theorem spends_one {t : Token} {value : α} (hvalue : P value = 0) :
    (Reply.one value : Reply α (t :: us)).Spends l P (tokensAt l (t :: us)) := by
  have hle : P value + tokensAt l us ≤ tokensAt l (t :: us) := by
    rw [hvalue, tokensAt_cons]
    omega
  exact hle

end Reply

namespace Parse

open Reply

variable {n : Nat} {fin : Location} {p : Parsers n} {ts : List Token} {l : Location}

/-! ## Words, types and parameters

No definition is in any of these, so nothing is counted in the values. -/

theorem spends_expect {s : Symbol} {wanted : Expectation} :
    (expect fin s wanted ts).Spends l (fun _ ↦ 0) (tokensAt l ts) := by
  unfold expect
  split
  · split
    · exact spends_one rfl
    · exact spends_stop
  · exact spends_stop

theorem spends_identifier : (identifier fin ts).Spends l (fun _ ↦ 0) (tokensAt l ts) := by
  unfold identifier
  split
  · split
    · exact spends_stop
    · exact spends_one rfl
  · exact spends_stop

theorem spends_anyName : (anyName fin ts).Spends l (fun _ ↦ 0) (tokensAt l ts) := by
  unfold anyName
  split
  · exact spends_one rfl
  · exact spends_stop

theorem tokensAt_skipTerminators (l : Location) (ts : List Token) :
    tokensAt l (skipTerminators ts) ≤ tokensAt l ts := by
  fun_induction skipTerminators ts with
  | case1 _ rest ih =>
    rw [tokensAt_cons]
    omega
  | case2 => exact Nat.le_refl _

theorem tokensAt_brackets (l : Location) (ts : List Token) :
    tokensAt l (brackets ts).2 ≤ tokensAt l ts := by
  fun_induction brackets ts with
  | case1 _ _ rest more ih =>
    rw [tokensAt_cons, tokensAt_cons]
    exact Nat.le_trans ih (by omega)
  | case2 => exact Nat.le_refl _

theorem spends_dottedNames {first : String} {origin : List Token} {h : ts.length < origin.length} :
    (dottedNames fin first origin ts h).Spends l (fun _ ↦ 0) (tokensAt l ts) := by
  fun_induction dottedNames fin first origin ts h with
  | case1 _ _ _ _ _ _ rest' _ heq _ ih =>
    have hword := spends_identifier.of_eq (l := l) heq
    rw [tokensAt_cons]
    exact Spends.mono ih (by omega)
  | case2 => trivial
  | case3 => exact Nat.le_of_eq (Nat.zero_add _)

theorem spends_typeExpr : (typeExpr fin ts).Spends l (fun _ ↦ 0) (tokensAt l ts) := by
  refine spends_identifier.andThen fun _ rest _ hword ↦ ?_
  have hle : tokensAt l rest ≤ tokensAt l ts := by omega
  refine (spends_dottedNames.mono hle).andThen fun _ rest _ hname ↦ ?_
  have hbrackets := tokensAt_brackets l rest
  exact (by omega : 0 + tokensAt l (brackets rest).2 ≤ tokensAt l ts)

theorem spends_optionalTypeExpr {origin : List Token} {h : ts.length < origin.length} :
    (optionalTypeExpr fin origin ts h).Spends l (fun _ ↦ 0) (tokensAt l ts) := by
  unfold optionalTypeExpr
  split
  · refine spends_typeExpr.within fun _ ↦ ?_
    rw [tokensAt_cons]
    omega
  · exact Nat.le_of_eq (Nat.zero_add _)

theorem spends_param : (param fin ts).Spends l (fun _ ↦ 0) (tokensAt l ts) := by
  refine spends_identifier.andThen fun _ rest _ hword ↦ ?_
  exact spends_optionalTypeExpr.map fun _ ↦ by omega

theorem spends_paramLoop : (paramLoop fin ts).Spends l (fun _ ↦ 0) (tokensAt l ts) := by
  fun_induction paramLoop fin ts with
  | case1 => trivial
  | case2 _ _ _ _ _ _ _ heq ih =>
    have hparam := spends_param.of_eq (l := l) heq
    rw [tokensAt_cons] at hparam
    exact Spends.within ih fun _ ↦ by omega
  | case3 _ _ _ _ _ _ heq =>
    have hparam := spends_param.of_eq (l := l) heq
    exact spends_expect.within fun _ ↦ by omega

theorem spends_params : (params fin ts).Spends l (fun _ ↦ 0) (tokensAt l ts) := by
  refine spends_expect.andThen fun _ rest _ hopen ↦ ?_
  split
  · rename_i l' rest' h
    rw [tokensAt_cons] at hopen
    exact (by omega : 0 + tokensAt l rest' ≤ tokensAt l ts)
  · exact spends_paramLoop.within fun _ ↦ by omega

/-! ## Lists and blocks -/

/-- The parsers that the grammar starts over with spend each token once. -/
structure Parsers.Spend (l : Location) (p : Parsers n) : Prop where
  expr : ∀ ts h, (p.expr ts h).Spends l (Expr.definedAt l) (tokensAt l ts)
  unary : ∀ ts h, (p.unary ts h).Spends l (Expr.definedAt l) (tokensAt l ts)
  statement : ∀ ts h, (p.statement ts h).Spends l (Statement.definedAt l) (tokensAt l ts)

attribute [local simp] Expr.definedAt exprsDefinedAt optionDefinedAt Statement.definedAt
  statementsDefinedAt Expr.definitions exprsDefinitions optionDefinitions Statement.definitions
  statementsDefinitions alternativeDefinitions

variable (hp : p.Spend l)

include hp

theorem spends_itemLoop {close : Symbol} {wanted : Expectation} {h : ts.length < n} :
    (itemLoop fin p close wanted ts h).Spends l (exprsDefinedAt l) (tokensAt l ts) := by
  fun_induction itemLoop fin p close wanted ts h with
  | case1 l' rest h _ ih =>
    exact Spends.behind ih fun es ↦ by simp
  | case2 ts h _ hclose => exact spends_expect.map fun _ ↦ by simp
  | case3 => trivial
  | case4 ts h _ hne e l' rest hr _ _ _ _ heq ih =>
    have he := (hp.expr ts h).of_eq heq
    refine Spends.within ih fun es ↦ ?_
    simp at he ⊢
    omega
  | case5 ts h _ hne e rest hr _ _ _ heq =>
    have he := (hp.expr ts h).of_eq heq
    refine spends_expect.within fun es ↦ ?_
    simp at he ⊢
    omega

theorem spends_items {close : Symbol} {wanted : Expectation} {h : ts.length < n} :
    (items fin p close wanted ts h).Spends l (exprsDefinedAt l) (tokensAt l ts) := by
  unfold items
  split
  · exact spends_expect.map fun _ ↦ by simp
  · exact spends_itemLoop hp

theorem spends_blockBody {h : ts.length < n} :
    (blockBody fin p ts h).Spends l (statementsDefinedAt l) (tokensAt l ts) := by
  fun_induction blockBody fin p ts h with
  | case1 => exact spends_stop
  | case2 ts h t us hs hle _ =>
    have hskip := tokensAt_skipTerminators l ts
    rw [hs, tokensAt_cons] at hskip
    exact (by simp; omega : statementsDefinedAt l [] + tokensAt l us ≤ tokensAt l ts)
  | case3 => trivial
  | case4 ts h t us hs hle _ st rest hr heq _ ih =>
    have hskip := tokensAt_skipTerminators l ts
    rw [hs] at hskip
    have hst := (hp.statement _ _).of_eq heq
    refine Spends.within ih fun body ↦ ?_
    simp at hst hskip ⊢
    omega

theorem spends_functionBody {h : ts.length ≤ n} :
    (functionBody fin p ts h).Spends l (statementsDefinedAt l) (tokensAt l ts) := by
  unfold functionBody
  split
  · exact (hp.expr _ _).behind fun e ↦ by simp
  · exact (spends_blockBody hp).behind fun _ ↦ by simp
  · exact spends_stop

/-! ## Primary expressions -/

omit hp in
theorem spends_newTarget {target : Expr} {text : String} {origin : List Token}
    {h : ts.length < origin.length} :
    (newTarget fin target text origin ts h).Spends l (fun r ↦ r.1.definedAt l)
      (target.definedAt l + tokensAt l ts) := by
  fun_induction newTarget fin target text origin ts h with
  | case1 target text s l' rest h hrest _ w rest' hr heq _ ih =>
    have hword := spends_identifier.of_eq (l := l) heq
    refine Spends.mono ih ?_
    simp
    omega
  | case2 => trivial
  | case3 => exact Nat.le_refl _
  | case4 => exact Nat.le_refl _

omit hp in
theorem spends_newBrackets {rank : Nat} {origin : List Token} {h : ts.length < origin.length} :
    (newBrackets fin rank origin ts h).Spends l (fun _ ↦ 0) (tokensAt l ts) := by
  fun_induction newBrackets fin rank origin ts h with
  | case1 rank l' rest h hrest u rest' hr heq _ ih =>
    have hclose := spends_expect.of_eq (l := l) heq
    rw [tokensAt_cons]
    exact Spends.mono ih (by omega)
  | case2 => trivial
  | case3 => exact Nat.le_of_eq (Nat.zero_add _)

theorem spends_newExpr {l' : Location} {h : ts.length < n} :
    (newExpr fin p l' ts h).Spends l (Expr.definedAt l) (tokensAt l ts) := by
  refine spends_identifier.andThen fun first rest _ hfirst ↦ ?_
  refine spends_newTarget.andThen fun target rest _ htarget ↦ ?_
  split
  · refine spends_newBrackets.andThen fun rank rest _ hrank ↦ ?_
    refine spends_expect.andThen fun _ rest _ hopen ↦ ?_
    refine (spends_items hp).within fun es ↦ ?_
    simp at htarget ⊢
    omega
  · refine spends_expect.andThen fun _ rest _ hopen ↦ ?_
    refine (spends_items hp).within fun es ↦ ?_
    simp at htarget ⊢
    omega
  · exact (by simp at htarget ⊢; omega :
      (Expr.new (.at l') target.1 [] none).definedAt l + tokensAt l rest ≤ tokensAt l ts)

theorem spends_keywordExpr {k : Keyword} {t : Token} {h : ts.length < n} :
    (keywordExpr fin p k t ts h).Spends l (Expr.definedAt l) (tokensAt l (t :: ts)) := by
  have hname : ∀ {u : Token} {us : List Token},
      ((anyName fin us).behind (.variableRef (.at t.location)) :
        Reply Expr (u :: us)).Spends l (Expr.definedAt l) (tokensAt l (u :: us)) :=
    spends_anyName.behind fun _ ↦ by simp
  unfold keywordExpr
  split
  · exact (spends_newExpr hp).behind fun _ ↦ by simp
  · exact spends_one rfl
  · exact spends_one rfl
  · exact spends_one rfl
  · exact spends_one rfl
  · split
    · exact hname.behind fun _ ↦ by simp
    · exact hname
  · split
    · exact hname.behind fun _ ↦ by simp
    · exact hname
  · refine Spends.behind (P := Expr.definedAt l) (b := tokensAt l ts)
      (spends_params.andThen fun ps rest _ hparams ↦ ?_) fun _ ↦ by simp
    refine (spends_functionBody hp).within fun body ↦ ?_
    simp
    omega
  all_goals exact spends_stop

theorem spends_primary {h : ts.length ≤ n} :
    (primary fin p ts h).Spends l (Expr.definedAt l) (tokensAt l ts) := by
  unfold primary
  split
  · exact spends_one rfl
  · exact spends_one rfl
  · exact spends_one rfl
  · exact spends_anyName.behind fun _ ↦ by simp
  · exact spends_anyName.behind fun _ ↦ by simp
  · exact (spends_blockBody hp).behind fun _ ↦ by simp
  · rename_i rest _
    refine Spends.behind (P := Expr.definedAt l) (b := tokensAt l rest)
      ((hp.expr _ _).andThen fun e rest _ he ↦ ?_) fun _ ↦ by simp
    refine spends_expect.within fun _ ↦ ?_
    simp at he ⊢
    omega
  · exact (spends_items hp).behind fun es ↦ by simp
  · split
    · exact spends_keywordExpr hp
    · exact spends_one rfl
  · exact spends_stop

/-! ## Suffixes -/

omit hp in
theorem spends_arrowTarget :
    (arrowTarget fin ts).Spends l (Expr.definedAt l) (tokensAt l ts) := by
  unfold arrowTarget
  split
  · exact spends_anyName.behind fun _ ↦ by simp
  · exact spends_identifier.map fun _ ↦ by simp

theorem spends_suffixes {e : Expr} {origin : List Token} {h : ts.length < origin.length}
    {hn : origin.length ≤ n} :
    (suffixes fin p e origin ts h hn).Spends l (Expr.definedAt l)
      (e.definedAt l + tokensAt l ts) := by
  fun_induction suffixes fin p e origin ts h hn with
  | case1 => exact Nat.le_refl _
  | case2 => trivial
  | case3 e s l' rest h hrest next e' rest' hr heq _ ih =>
    have hnext : e'.definedAt l + tokensAt l rest' ≤ e.definedAt l + tokensAt l rest := by
      unfold next at heq
      split at heq
      · exact ((spends_items hp).map fun _ ↦ by simp; omega).of_eq (Option.some.inj heq)
      · exact ((spends_items hp).map fun _ ↦ by simp; omega).of_eq (Option.some.inj heq)
      · exact (spends_arrowTarget.map fun _ ↦ by simp; omega).of_eq (Option.some.inj heq)
      · exact ((hp.unary _ _).map fun _ ↦ by simp; omega).of_eq (Option.some.inj heq)
      · exact (spends_anyName.map fun _ ↦ by simp).of_eq (Option.some.inj heq)
      · exact (spends_anyName.map fun _ ↦ by simp).of_eq (Option.some.inj heq)
      · cases heq
    refine Spends.mono ih ?_
    rw [tokensAt_cons]
    omega
  | case4 => exact Nat.le_refl _

omit hp in
theorem definedAt_increments (e : Expr) (ts : List Token) :
    (increments e ts).1.definedAt l + tokensAt l (increments e ts).2
      ≤ e.definedAt l + tokensAt l ts := by
  fun_induction increments e ts with
  | case1 e l' rest ih =>
    rw [tokensAt_cons]
    exact Nat.le_trans ih (by simp)
  | case2 e l' rest ih =>
    rw [tokensAt_cons]
    exact Nat.le_trans ih (by simp)
  | case3 => exact Nat.le_refl _

theorem spends_suffixed {h : ts.length ≤ n} :
    (suffixed fin p ts h).Spends l (Expr.definedAt l) (tokensAt l ts) := by
  refine (spends_primary hp).andThen fun e rest _ he ↦ ?_
  refine ((spends_suffixes hp).mono he).andThen fun e rest _ he ↦ ?_
  exact Nat.le_trans (definedAt_increments e rest) he

/-! ## The ladder -/

theorem spends_unary {h : ts.length ≤ n} :
    (unary fin p ts h).Spends l (Expr.definedAt l) (tokensAt l ts) := by
  unfold unary
  split
  · split
    · exact (hp.unary _ _).behind fun _ ↦ by simp
    · exact spends_suffixed hp
  · exact spends_suffixed hp

omit hp in
theorem spends_operatorLoop {level : Level}
    {operand : (ts : List Token) → ts.length ≤ n → Reply Expr ts}
    (hoperand : ∀ ts h, (operand ts h).Spends l (Expr.definedAt l) (tokensAt l ts)) {left : Expr}
    {origin : List Token} {h : ts.length < origin.length} {hn : origin.length ≤ n} :
    (operatorLoop level operand left origin ts h hn).Spends l (Expr.definedAt l)
      (left.definedAt l + tokensAt l ts) := by
  fun_induction operatorLoop level operand left origin ts h hn with
  | case1 => trivial
  | case2 left t rest h hrest op _ right rest' hr heq _ ih =>
    have hright := (hoperand _ _).of_eq heq
    refine Spends.mono ih ?_
    simp at hright ⊢
    omega
  | case3 => exact Nat.le_refl _
  | case4 => exact Nat.le_refl _

theorem spends_ladder {levels : List Level} (ts : List Token) (h : ts.length ≤ n) :
    (ladder fin p levels ts h).Spends l (Expr.definedAt l) (tokensAt l ts) := by
  induction levels generalizing ts with
  | nil => exact spends_unary hp
  | cons level tighter ih =>
    exact (ih ts h).andThen fun _ _ _ he ↦ (spends_operatorLoop ih).mono he

theorem spends_conditional {h : ts.length ≤ n} :
    (conditional fin p ts h).Spends l (Expr.definedAt l) (tokensAt l ts) := by
  refine (spends_ladder hp ts h).andThen fun x rest _ hx ↦ ?_
  split
  · refine (hp.expr _ _).andThen fun a rest _ ha ↦ ?_
    refine spends_expect.andThen fun _ rest _ hcolon ↦ ?_
    refine (hp.expr _ _).within fun b ↦ ?_
    simp at hx ha ⊢
    omega
  · exact hx

theorem spends_assignment {h : ts.length ≤ n} :
    (assignment fin p ts h).Spends l (Expr.definedAt l) (tokensAt l ts) := by
  refine (spends_conditional hp).andThen fun target rest _ ht ↦ ?_
  split
  · refine (hp.expr _ _).within fun v ↦ ?_
    simp at ht ⊢
    omega
  · exact ht

/-! ## Statements -/

theorem spends_optionalValue {t : Token} {h : ts.length < n} :
    (optionalValue p t ts h).Spends l (optionDefinedAt l) (tokensAt l (t :: ts)) := by
  unfold optionalValue
  split
  any_goals exact spends_one rfl
  exact (hp.expr _ _).behind fun e ↦ by simp

theorem spends_optionalInit {origin : List Token} {h : ts.length < origin.length}
    {hn : origin.length ≤ n} :
    (optionalInit p origin ts h hn).Spends l (optionDefinedAt l) (tokensAt l ts) := by
  unfold optionalInit
  split
  · exact (hp.expr _ _).within fun e ↦ by simp
  · exact Nat.le_of_eq (Nat.zero_add _)

theorem spends_declaration {h : ts.length ≤ n} :
    (declaration fin p ts h).Spends l (Expr.definedAt l) (tokensAt l ts) := by
  refine spends_identifier.andThen fun _ rest _ hname ↦ ?_
  refine spends_optionalTypeExpr.andThen fun _ rest _ hty ↦ ?_
  refine (spends_optionalInit hp).map fun init ↦ ?_
  simp
  omega

theorem spends_declarations {h : ts.length ≤ n} :
    (declarations fin p ts h).Spends l (exprsDefinedAt l) (tokensAt l ts) := by
  fun_induction declarations fin p ts h with
  | case1 => trivial
  | case2 ts h d l' rest hr _ _ heq ih =>
    have hd := (spends_declaration hp).of_eq heq
    refine Spends.within ih fun ds ↦ ?_
    simp at hd ⊢
    omega
  | case3 ts h d rest hr _ _ heq =>
    have hd := (spends_declaration hp).of_eq heq
    exact (by simpa using hd : exprsDefinedAt l [d] + tokensAt l rest ≤ tokensAt l ts)

/-- The word that begins a definition is spent on the definition. -/
theorem spends_functionDefinition {t : Token} {h : ts.length ≤ n} :
    (functionDefinition fin p t.location ts h).Spends l (Statement.definedAt l)
      (tokensAt l (t :: ts)) := by
  refine spends_identifier.andThen fun name rest _ hname ↦ ?_
  refine spends_params.andThen fun ps rest _ hparams ↦ ?_
  refine spends_optionalTypeExpr.andThen fun ret rest _ hret ↦ ?_
  refine (spends_functionBody hp).within fun body ↦ ?_
  have hhere : ∀ ds, definedAt l (⟨⟨name, ps, ret, t.location⟩, body⟩ :: ds)
      = definedAt l ds + if t.location = l then 1 else 0 := fun ds ↦ definedAt_cons l _ ds
  rw [tokensAt_cons, Statement.definedAt, Statement.definitions, statementsDefinedAt]
  split
  · rw [hhere]
    omega
  · rw [definedAt_append, hhere, definedAt_nil]
    omega

theorem spends_condition {l' : Location} {h : ts.length ≤ n} :
    (condition fin p l' ts h).Spends l (Statement.definedAt l) (tokensAt l ts) := by
  refine spends_expect.andThen fun _ rest _ hopen ↦ ?_
  refine (hp.expr _ _).andThen fun x rest _ hx ↦ ?_
  refine spends_expect.andThen fun _ rest _ hclose ↦ ?_
  refine (hp.statement _ _).andThen fun a rest _ ha ↦ ?_
  have hnone : (Statement.cond l' x a none).definedAt l + tokensAt l rest ≤ tokensAt l ts := by
    simp at hx ha ⊢
    omega
  split
  · exact hnone
  · rename_i t us hs
    split
    · have hskip := tokensAt_skipTerminators l rest
      rw [hs, tokensAt_cons] at hskip
      refine (hp.statement _ _).within fun b ↦ ?_
      simp at hnone ⊢
      omega
    · exact hnone

theorem spends_statement {h : ts.length ≤ n} :
    (statement fin p ts h).Spends l (Statement.definedAt l) (tokensAt l ts) := by
  have hexpr : ((assignment fin p ts h).map .expr).Spends l (Statement.definedAt l)
      (tokensAt l ts) := (spends_assignment hp).map fun _ ↦ by simp
  unfold statement
  split
  · split
    · exact (spends_blockBody hp).behind fun _ ↦ by simp
    · split
      · exact (spends_declarations hp).behind fun _ ↦ by simp
      · exact (spends_functionDefinition hp).behind fun _ ↦ Nat.le_refl _
      · exact (spends_condition hp).behind fun _ ↦ by simp
      · exact (spends_optionalValue hp).map fun _ ↦ by simp
      · exact (spends_optionalValue hp).map fun _ ↦ by simp
      · trivial
      · trivial
      · exact hexpr
    · exact hexpr
  · exact hexpr

omit hp in
theorem parsers_spend (fin l : Location) (n : Nat) : (parsers fin n).Spend l := by
  induction n with
  | zero => exact ⟨fun _ h ↦ absurd h (Nat.not_lt_zero _), fun _ h ↦ absurd h (Nat.not_lt_zero _),
      fun _ h ↦ absurd h (Nat.not_lt_zero _)⟩
  | succ n ih => exact ⟨fun _ _ ↦ spends_assignment ih, fun _ _ ↦ spends_unary ih,
      fun _ _ ↦ spends_statement ih⟩

end Parse

/-! ## Texts -/

namespace Reader

theorem definedAt_of_program {r : Reader} {p : Program} (h : r.program = .ok p) (l : Location) :
    definedAt l (statementsDefinitions p) ≤ tokensAt l r.tokens := by
  fun_induction program r generalizing p with
  | case1 =>
    obtain rfl := Except.ok.inj h
    exact Nat.zero_le _
  | case2 => cases h
  | case3 r t us _ st rest _ heq _ more hmore ih =>
    obtain rfl := Except.ok.inj h
    have hskip := Parse.tokensAt_skipTerminators l r.tokens
    have hst := ((Parse.parsers_spend r.fin l _).statement _ _).of_eq heq
    have hmore := ih hmore
    rw [statementsDefinitions, definedAt_append]
    exact Nat.le_trans (Nat.add_le_add_left hmore _) (Nat.le_trans hst hskip)
  | case4 => cases h

end Reader

/-- No two definitions of a program that a text is stand at one place. -/
theorem distinctPlaces_of_parseProgram {source : String} {p : Program}
    (h : parseProgram source = .ok p) : DistinctPlaces p := by
  refine List.nodup_iff_count.mpr fun l ↦ ?_
  have htokens : ((Reader.ofText source).tokens.map Token.location).Nodup :=
    Cursor.places_nodup (Cursor.ofText source)
  exact Nat.le_trans (Reader.definedAt_of_program h l) (List.nodup_iff_count.mp htokens l)

end Scriptlet
