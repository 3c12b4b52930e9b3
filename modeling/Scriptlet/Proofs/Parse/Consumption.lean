import Scriptlet.Proofs.Parse.Sequel.Program
import Scriptlet.Proofs.Parse.Written

/-!
# Bad tokens end the reading, and no token is left out

A parser looks ahead, steps over separators and at times goes back, so that it reads all of a text
is not said in any one place. What each parser keeps is this: what it leaves stands behind good
tokens of what it was given, and when it reports a bad character it has come over good tokens only
to the token that is reported. Hence a text that is read has no bad token, and a reported one is the
first that there is.

The tokens of a text that is read are then accounted for one by one: each belongs to a statement or
is a semicolon between two of them.
-/

namespace Scriptlet

open Parse

/-! ## Bad tokens -/

/-- The token is a character that begins no token. -/
def Token.isBad (t : Token) : Bool :=
  match t.kind with
  | .bad _ => true
  | _ => false

theorem Token.isBad_eq_false {t : Token} (h : ∀ c, t.kind ≠ .bad c) : t.isBad = false := by
  unfold isBad
  split
  · rename_i c hbad
    exact absurd hbad (h c)
  · rfl

namespace Uses

variable {ts us rest : List Token}

theorem append (h : Uses ts rest) (us : List Token) : Uses (ts ++ us) (rest ++ us) := by
  obtain ⟨used, rfl, hused⟩ := h
  exact ⟨used, List.append_assoc .., hused⟩

theorem isBad_eq_false (h : Uses ts []) : ∀ t ∈ ts, t.isBad = false := by
  obtain ⟨used, rfl, hused⟩ := h
  rw [List.append_nil]
  exact fun t ht ↦ Token.isBad_eq_false (hused t ht)

theorem behind {t : Token} (h : Uses ts (t :: rest)) (ht : ∀ c, t.kind ≠ .bad c) : Uses ts rest :=
  h.trans (.one ht rest)

theorem behindSymbol {s : Symbol} {l : Location} (h : Uses ts (⟨.symbol s, l⟩ :: rest)) :
    Uses ts rest :=
  h.trans (.symbol s l rest)

theorem behindWord {w : String} {l : Location} (h : Uses ts (⟨.word w, l⟩ :: rest)) :
    Uses ts rest :=
  h.behind (by simp)

/-- The bad token that stands behind good ones is the first of all. -/
theorem find?_isBad {c : Char} {l : Location} (h : Uses ts (⟨.bad c, l⟩ :: rest)) :
    ts.find? Token.isBad = some ⟨.bad c, l⟩ := by
  obtain ⟨used, rfl, hused⟩ := h
  have hnone : used.find? Token.isBad = none :=
    List.find?_eq_none.mpr fun t ht ↦ by simp [Token.isBad_eq_false (hused t ht)]
  rw [List.find?_append, hnone]
  rfl

end Uses

/-! ## Replies -/

namespace Reply

variable {α β : Type} {ts us read : List Token}

/-- The reply minds bad tokens of those that were read: a value leaves what stands behind good
tokens, and a bad character that is reported is that of a token behind good ones. -/
def Minds (read : List Token) (r : Reply α ts) : Prop :=
  match r with
  | .ok _ rest _ => Uses read rest
  | .fail e _ => ∀ c l, e = .badCharacter c l → ∃ more, Uses read (⟨.bad c, l⟩ :: more)

theorem Minds.of_eq {r : Reply α ts} (hr : r.Minds read) {value : α} {rest : List Token}
    {h : rest.length < ts.length} (heq : r = .ok value rest h) : Uses read rest := by
  subst heq
  exact hr

theorem Minds.of_fail {r : Reply α ts} (hr : r.Minds read) {e : ParseError} {rest : List Token}
    (heq : r = .fail e rest) : (Reply.fail e rest : Reply β us).Minds read := by
  subst heq
  exact hr

theorem Minds.of_bad {r : Reply α ts} (hr : r.Minds read) {c : Char} {l : Location}
    {rest : List Token} (heq : r = .fail (.badCharacter c l) rest) :
    ∃ more, Uses read (⟨.bad c, l⟩ :: more) := by
  subst heq
  exact hr c l rfl

/-- Whatever was wanted, a bad character is reported only where the reading stopped at it. -/
theorem uses_of_unexpected {fin l : Location} {wanted : Expectation} {c : Char}
    (h : unexpected fin wanted us = .badCharacter c l) (hus : Uses read us) :
    ∃ more, Uses read (⟨.bad c, l⟩ :: more) := by
  unfold unexpected at h
  split at h
  · rename_i c' hbad
    obtain ⟨l', more, rfl⟩ := eq_cons_of_kindOf hbad (by simp)
    obtain ⟨rfl, rfl⟩ := ParseError.badCharacter.inj h
    exact ⟨more, hus⟩
  · cases h

theorem minds_stop {fin : Location} {wanted : Expectation} (hus : Uses read us) :
    (stop fin wanted us : Reply α ts).Minds read :=
  fun _ _ h ↦ uses_of_unexpected h hus

theorem minds_one {t : Token} {value : α} (hts : Uses read us) :
    (Reply.one value : Reply α (t :: us)).Minds read := hts

theorem Minds.andThen {r : Reply α us}
    {k : (value : α) → (rest : List Token) → rest.length < us.length → Reply β ts}
    (hr : r.Minds read) (hk : ∀ value rest h, Uses read rest → (k value rest h).Minds read) :
    (r.andThen k).Minds read := by
  cases r with
  | ok value rest h => exact hk value rest h hr
  | fail e rest => exact hr

theorem Minds.map {r : Reply α ts} {f : α → β} (hr : r.Minds read) : (r.map f).Minds read := by
  cases r with
  | ok value rest h => exact hr
  | fail e rest => exact hr

theorem Minds.within {r : Reply α us} {h : us.length < ts.length} {f : α → β}
    (hr : r.Minds read) : (r.within h f).Minds read := by
  cases r with
  | ok value rest h => exact hr
  | fail e rest => exact hr

theorem Minds.behind {r : Reply α us} {t : Token} {f : α → β} (hr : r.Minds read) :
    (r.behind f : Reply β (t :: us)).Minds read :=
  hr.within

end Reply

namespace Parse

open Reply

variable {n : Nat} {fin : Location} {p : Parsers n} {read ts : List Token}

/-! ## Words, types and parameters -/

theorem minds_expect {s : Symbol} {wanted : Expectation} (hts : Uses read ts) :
    (expect fin s wanted ts).Minds read := by
  unfold expect
  split
  · split
    · exact minds_one hts.behindSymbol
    · exact minds_stop hts
  · exact minds_stop hts

theorem minds_identifier (hts : Uses read ts) : (identifier fin ts).Minds read := by
  unfold identifier
  split
  · split
    · exact minds_stop hts
    · exact minds_one hts.behindWord
  · exact minds_stop hts

theorem minds_anyName (hts : Uses read ts) : (anyName fin ts).Minds read := by
  unfold anyName
  split
  · exact minds_one hts.behindWord
  · exact minds_stop hts

theorem uses_brackets (hts : Uses read ts) : Uses read (brackets ts).2 := by
  fun_induction brackets ts with
  | case1 _ _ rest more ih => exact ih hts.behindSymbol.behindSymbol
  | case2 => exact hts

theorem minds_dottedNames {first : String} {origin : List Token} {h : ts.length < origin.length}
    (hts : Uses read ts) : (dottedNames fin first origin ts h).Minds read := by
  fun_induction dottedNames fin first origin ts h with
  | case1 _ _ _ _ _ _ _ _ heq _ ih => exact ih ((minds_identifier hts.behindSymbol).of_eq heq)
  | case2 _ _ _ _ _ _ _ heq => exact (minds_identifier hts.behindSymbol).of_fail heq
  | case3 => exact hts

theorem minds_typeExpr (hts : Uses read ts) : (typeExpr fin ts).Minds read :=
  (minds_identifier hts).andThen fun _ _ _ hrest ↦
    (minds_dottedNames hrest).andThen fun _ _ _ hrest ↦ uses_brackets hrest

theorem minds_optionalTypeExpr {origin : List Token} {h : ts.length < origin.length}
    (hts : Uses read ts) : (optionalTypeExpr fin origin ts h).Minds read := by
  unfold optionalTypeExpr
  split
  · exact (minds_typeExpr hts.behindSymbol).within
  · exact hts

theorem minds_param (hts : Uses read ts) : (param fin ts).Minds read :=
  (minds_identifier hts).andThen fun _ _ _ hrest ↦ (minds_optionalTypeExpr hrest).map

theorem minds_paramLoop (hts : Uses read ts) : (paramLoop fin ts).Minds read := by
  fun_induction paramLoop fin ts with
  | case1 _ _ _ heq => exact (minds_param hts).of_fail heq
  | case2 _ _ _ _ _ _ _ heq ih => exact (ih ((minds_param hts).of_eq heq).behindSymbol).within
  | case3 _ _ _ _ _ _ heq => exact (minds_expect ((minds_param hts).of_eq heq)).within

theorem minds_params (hts : Uses read ts) : (params fin ts).Minds read := by
  refine (minds_expect hts).andThen fun _ rest _ hrest ↦ ?_
  split
  · exact hrest.behindSymbol
  · exact (minds_paramLoop hrest).within

/-! ## Lists and blocks -/

/-- The parsers that the grammar starts over with mind bad tokens. -/
structure Parsers.Mind (p : Parsers n) : Prop where
  expr : ∀ {read ts} h, Uses read ts → (p.expr ts h).Minds read
  unary : ∀ {read ts} h, Uses read ts → (p.unary ts h).Minds read
  statement : ∀ {read ts} h, Uses read ts → (p.statement ts h).Minds read

variable (hp : p.Mind)

include hp

theorem minds_itemLoop {close : Symbol} {wanted : Expectation} {h : ts.length < n}
    (hts : Uses read ts) : (itemLoop fin p close wanted ts h).Minds read := by
  fun_induction itemLoop fin p close wanted ts h with
  | case1 l rest h _ ih => exact (ih hts.behindSymbol).behind
  | case2 ts h => exact (minds_expect hts).map
  | case3 ts h _ _ e rest heq => exact (hp.expr h hts).of_fail heq
  | case4 ts h _ _ e l rest hr _ _ _ _ heq ih =>
    exact (ih ((hp.expr h hts).of_eq heq).behindSymbol).within
  | case5 ts h _ _ e rest hr _ _ _ heq =>
    exact (minds_expect ((hp.expr h hts).of_eq heq)).within

theorem minds_items {close : Symbol} {wanted : Expectation} {h : ts.length < n}
    (hts : Uses read ts) : (items fin p close wanted ts h).Minds read := by
  unfold items
  split
  · exact (minds_expect hts).map
  · exact minds_itemLoop hp hts

theorem minds_blockBody {h : ts.length < n} (hts : Uses read ts) :
    (blockBody fin p ts h).Minds read := by
  fun_induction blockBody fin p ts h with
  | case1 ts h hs => exact minds_stop (hs ▸ hts.trans (uses_skipTerminators ts))
  | case2 ts h t us hs hle hclose =>
    have hskip : Uses read (t :: us) := hs ▸ hts.trans (uses_skipTerminators ts)
    exact hskip.behind (by simp [hclose])
  | case3 ts h t us hs hle _ e rest heq =>
    have hskip : Uses read (t :: us) := hs ▸ hts.trans (uses_skipTerminators ts)
    exact (hp.statement _ hskip).of_fail heq
  | case4 ts h t us hs hle _ st rest hr heq _ ih =>
    have hskip : Uses read (t :: us) := hs ▸ hts.trans (uses_skipTerminators ts)
    exact (ih ((hp.statement _ hskip).of_eq heq)).within

theorem minds_functionBody {h : ts.length ≤ n} (hts : Uses read ts) :
    (functionBody fin p ts h).Minds read := by
  unfold functionBody
  split
  · exact (hp.expr _ hts.behindSymbol).behind
  · exact (minds_blockBody hp hts.behindSymbol).behind
  · exact minds_stop hts

/-! ## Primary expressions -/

omit hp in
theorem minds_newTarget {target : Expr} {text : String} {origin : List Token}
    {h : ts.length < origin.length} (hts : Uses read ts) :
    (newTarget fin target text origin ts h).Minds read := by
  fun_induction newTarget fin target text origin ts h with
  | case1 _ _ _ _ _ _ _ _ _ _ _ heq _ ih =>
    exact ih ((minds_identifier hts.behindSymbol).of_eq heq)
  | case2 _ _ _ _ _ _ _ _ _ _ heq => exact (minds_identifier hts.behindSymbol).of_fail heq
  | case3 => exact hts
  | case4 => exact hts

omit hp in
theorem minds_newBrackets {rank : Nat} {origin : List Token} {h : ts.length < origin.length}
    (hts : Uses read ts) : (newBrackets fin rank origin ts h).Minds read := by
  fun_induction newBrackets fin rank origin ts h with
  | case1 _ _ _ _ _ _ _ _ heq _ ih => exact ih ((minds_expect hts.behindSymbol).of_eq heq)
  | case2 _ _ _ _ _ _ _ heq => exact (minds_expect hts.behindSymbol).of_fail heq
  | case3 => exact hts

theorem minds_newExpr {l : Location} {h : ts.length < n} (hts : Uses read ts) :
    (newExpr fin p l ts h).Minds read := by
  refine (minds_identifier hts).andThen fun first rest _ hrest ↦ ?_
  refine (minds_newTarget hrest).andThen fun target rest _ hrest ↦ ?_
  split
  · refine (minds_newBrackets hrest).andThen fun rank rest _ hrest ↦ ?_
    refine (minds_expect hrest).andThen fun _ rest _ hrest ↦ ?_
    exact (minds_items hp hrest).within
  · refine (minds_expect hrest).andThen fun _ rest _ hrest ↦ ?_
    exact (minds_items hp hrest).within
  · exact hrest

theorem minds_keywordExpr {k : Keyword} {w : String} {l : Location} {h : ts.length < n}
    (hts : Uses read (⟨.word w, l⟩ :: ts)) :
    (keywordExpr fin p k ⟨.word w, l⟩ ts h).Minds read := by
  have hrest : Uses read ts := hts.behindWord
  unfold keywordExpr
  split
  · exact (minds_newExpr hp hrest).behind
  · exact minds_one hrest
  · exact minds_one hrest
  · exact minds_one hrest
  · exact minds_one hrest
  · split
    · exact (minds_anyName hrest.behindSymbol).behind.behind
    · exact (minds_anyName hrest).behind
  · split
    · exact (minds_anyName hrest.behindSymbol).behind.behind
    · exact (minds_anyName hrest).behind
  · refine Minds.behind ((minds_params hrest).andThen fun ps rest _ hrest ↦ ?_)
    exact (minds_functionBody hp hrest).within
  all_goals exact minds_stop hts

theorem minds_primary {h : ts.length ≤ n} (hts : Uses read ts) :
    (primary fin p ts h).Minds read := by
  unfold primary
  split
  · exact minds_one (hts.behind (by simp))
  · exact minds_one (hts.behind (by simp))
  · exact minds_one (hts.behind (by simp))
  · exact (minds_anyName hts.behindSymbol).behind
  · exact (minds_anyName hts.behindSymbol).behind
  · exact (minds_blockBody hp hts.behindSymbol).behind
  · refine Minds.behind ((hp.expr _ hts.behindSymbol).andThen fun e rest _ hrest ↦ ?_)
    exact (minds_expect hrest).within
  · exact (minds_items hp hts.behindSymbol).behind
  · split
    · exact minds_keywordExpr hp hts
    · exact minds_one hts.behindWord
  · exact minds_stop hts

/-! ## Suffixes -/

omit hp in
theorem minds_arrowTarget (hts : Uses read ts) : (arrowTarget fin ts).Minds read := by
  unfold arrowTarget
  split
  · exact (minds_anyName hts.behindSymbol).behind
  · exact (minds_identifier hts).map

theorem minds_suffix? {e : Expr} {s : Symbol} {l : Location} {h : ts.length < n}
    (hts : Uses read ts) : ∀ r ∈ suffix? fin p e s l ts h, r.Minds read := by
  intro r hr
  unfold suffix? at hr
  split at hr
  · exact Option.some.inj hr ▸ (minds_items hp hts).map
  · exact Option.some.inj hr ▸ (minds_items hp hts).map
  · exact Option.some.inj hr ▸ (minds_arrowTarget hts).map
  · exact Option.some.inj hr ▸ (hp.unary _ hts).map
  · exact Option.some.inj hr ▸ (minds_anyName hts).map
  · exact Option.some.inj hr ▸ (minds_anyName hts).map
  · cases hr

theorem minds_suffixes {e : Expr} {origin : List Token} {h : ts.length < origin.length}
    {hn : origin.length ≤ n} (hts : Uses read ts) :
    (suffixes fin p e origin ts h hn).Minds read := by
  induction hlen : ts.length using Nat.strongRecOn generalizing ts e with
  | ind m ih =>
    by_cases hsymbol : ∃ s l rest, ts = ⟨.symbol s, l⟩ :: rest
    · obtain ⟨s, l, rest, rfl⟩ := hsymbol
      rw [suffixes_symbol]
      split
      · exact hts
      · rename_i r hr
        refine Minds.andThen (minds_suffix? hp hts.behindSymbol r hr) fun e rest' hlt hrest' ↦ ?_
        exact ih _ (hlen ▸ Nat.lt_succ_of_lt hlt) hrest' rfl
    · rw [suffixes.eq_def]
      split
      · exact absurd ⟨_, _, _, rfl⟩ hsymbol
      · exact hts

theorem minds_suffixed {h : ts.length ≤ n} (hts : Uses read ts) :
    (suffixed fin p ts h).Minds read :=
  (minds_primary hp hts).andThen fun _ _ _ hrest ↦
    (minds_suffixes hp hrest).andThen fun e rest _ hrest ↦ hrest.trans (uses_increments e rest)

/-! ## The ladder -/

omit hp in
/-- A token that stands for an operator is a good one. -/
theorem good_of_prefixOp? {t : Token} {op : UnaryOp} (h : prefixOp? t.kind = some op) :
    ∀ c, t.kind ≠ .bad c := by
  intro c hbad
  rw [hbad] at h
  cases h

omit hp in
theorem good_of_op? {level : Level} {t : Token} {op : BinaryOp} (h : level.op? t.kind = some op) :
    ∀ c, t.kind ≠ .bad c := by
  intro c hbad
  rw [hbad] at h
  cases h

theorem minds_unary {h : ts.length ≤ n} (hts : Uses read ts) : (unary fin p ts h).Minds read := by
  unfold unary
  split
  · split
    · rename_i hop
      exact (hp.unary _ (hts.behind (good_of_prefixOp? hop))).behind
    · exact minds_suffixed hp hts
  · exact minds_suffixed hp hts

omit hp in
theorem minds_operatorLoop {level : Level}
    {operand : (ts : List Token) → ts.length ≤ n → Reply Expr ts}
    (hoperand : ∀ ts h, Uses read ts → (operand ts h).Minds read) {left : Expr}
    {origin : List Token} {h : ts.length < origin.length} {hn : origin.length ≤ n}
    (hts : Uses read ts) : (operatorLoop level operand left origin ts h hn).Minds read := by
  fun_induction operatorLoop level operand left origin ts h hn with
  | case1 _ _ _ _ _ _ hop _ _ heq =>
    exact (hoperand _ _ (hts.behind (good_of_op? hop))).of_fail heq
  | case2 left t rest h hrest op hop right rest' hr heq _ ih =>
    exact ih ((hoperand _ _ (hts.behind (good_of_op? hop))).of_eq heq)
  | case3 => exact hts
  | case4 => exact hts

theorem minds_ladder {levels : List Level} (ts : List Token) (h : ts.length ≤ n)
    (hts : Uses read ts) : (ladder fin p levels ts h).Minds read := by
  induction levels generalizing ts with
  | nil => exact minds_unary hp hts
  | cons level tighter ih =>
    exact (ih ts h hts).andThen fun _ _ _ hrest ↦ minds_operatorLoop ih hrest

theorem minds_conditional {h : ts.length ≤ n} (hts : Uses read ts) :
    (conditional fin p ts h).Minds read := by
  refine (minds_ladder hp ts h hts).andThen fun x rest _ hrest ↦ ?_
  split
  · refine (hp.expr _ hrest.behindSymbol).andThen fun a rest _ hrest ↦ ?_
    refine (minds_expect hrest).andThen fun _ rest _ hrest ↦ ?_
    exact (hp.expr _ hrest).within
  · exact hrest

theorem minds_assignment {h : ts.length ≤ n} (hts : Uses read ts) :
    (assignment fin p ts h).Minds read := by
  refine (minds_conditional hp hts).andThen fun target rest _ hrest ↦ ?_
  split
  · exact (hp.expr _ hrest.behindSymbol).within
  · exact hrest

/-! ## Statements -/

theorem minds_optionalValue {t : Token} {h : ts.length < n} (hts : Uses read ts) :
    (optionalValue p t ts h).Minds read := by
  unfold optionalValue
  split
  any_goals exact minds_one hts
  exact (hp.expr _ hts).behind

theorem minds_optionalInit {origin : List Token} {h : ts.length < origin.length}
    {hn : origin.length ≤ n} (hts : Uses read ts) :
    (optionalInit p origin ts h hn).Minds read := by
  unfold optionalInit
  split
  · exact (hp.expr _ hts.behindSymbol).within
  · exact hts

theorem minds_declaration {h : ts.length ≤ n} (hts : Uses read ts) :
    (declaration fin p ts h).Minds read :=
  (minds_identifier hts).andThen fun _ _ _ hrest ↦
    (minds_optionalTypeExpr hrest).andThen fun _ _ _ hrest ↦ (minds_optionalInit hp hrest).map

theorem minds_declarations {h : ts.length ≤ n} (hts : Uses read ts) :
    (declarations fin p ts h).Minds read := by
  fun_induction declarations fin p ts h with
  | case1 ts h e rest heq => exact (minds_declaration hp hts).of_fail heq
  | case2 ts h d l rest hr _ _ heq ih =>
    exact (ih ((minds_declaration hp hts).of_eq heq).behindSymbol).within
  | case3 ts h d rest hr _ _ heq => exact (minds_declaration hp hts).of_eq heq

theorem minds_functionDefinition {l : Location} {h : ts.length ≤ n} (hts : Uses read ts) :
    (functionDefinition fin p l ts h).Minds read :=
  (minds_identifier hts).andThen fun _ _ _ hrest ↦
    (minds_params hrest).andThen fun _ _ _ hrest ↦
      (minds_optionalTypeExpr hrest).andThen fun _ _ _ hrest ↦
        (minds_functionBody hp hrest).within

theorem minds_condition {l : Location} {h : ts.length ≤ n} (hts : Uses read ts) :
    (condition fin p l ts h).Minds read := by
  refine (minds_expect hts).andThen fun _ rest _ hrest ↦ ?_
  refine (hp.expr _ hrest).andThen fun x rest _ hrest ↦ ?_
  refine (minds_expect hrest).andThen fun _ rest _ hrest ↦ ?_
  refine (hp.statement _ hrest).andThen fun a rest _ hrest ↦ ?_
  split
  · exact hrest
  · rename_i t us hs
    split
    · rename_i helse
      have hskip : Uses read (t :: us) := hs ▸ hrest.trans (uses_skipTerminators rest)
      exact (hp.statement _ (hskip.behind (by simp [helse]))).within
    -- the semicolons that were looked over are given back
    · exact hrest

theorem minds_statement {h : ts.length ≤ n} (hts : Uses read ts) :
    (statement fin p ts h).Minds read := by
  -- what begins with neither a brace nor a word of its own is read as an expression
  have hexpr : ((assignment fin p ts h).map Statement.expr).Minds read :=
    (minds_assignment hp hts).map
  unfold statement
  split
  · rename_i t rest h
    split
    · rename_i hkind
      exact (minds_blockBody hp (hts.behind (by simp [hkind]))).behind
    · rename_i w hkind
      have hrest : Uses read rest := hts.behind (by simp [hkind])
      split
      · exact (minds_declarations hp hrest).behind
      · exact (minds_functionDefinition hp hrest).behind
      · exact (minds_condition hp hrest).behind
      · exact (minds_optionalValue hp hrest).map
      · exact (minds_optionalValue hp hrest).map
      · exact fun _ _ h ↦ ParseError.noConfusion h
      · exact fun _ _ h ↦ ParseError.noConfusion h
      · exact hexpr
    · exact hexpr
  · exact hexpr

omit hp in
/-- Whatever bound they are built for, the parsers mind bad tokens. -/
theorem parsers_mind (fin : Location) (n : Nat) : (parsers fin n).Mind := by
  induction n with
  | zero => exact ⟨fun h ↦ absurd h (Nat.not_lt_zero _), fun h ↦ absurd h (Nat.not_lt_zero _),
      fun h ↦ absurd h (Nat.not_lt_zero _)⟩
  | succ n ih => exact ⟨fun _ ↦ minds_assignment ih, fun _ ↦ minds_unary ih,
      fun _ ↦ minds_statement ih⟩

end Parse

/-! ## Texts -/

/-- Nothing but semicolons. -/
def Separators (ts : List Token) : Prop := ∀ t ∈ ts, t.kind = .symbol .semicolon

theorem exists_separators (ts : List Token) :
    ∃ gap, Separators gap ∧ ts = gap ++ Parse.skipTerminators ts := by
  fun_induction Parse.skipTerminators ts with
  | case1 l rest ih =>
    obtain ⟨gap, hgap, hts⟩ := ih
    refine ⟨⟨.symbol .semicolon, l⟩ :: gap, List.forall_mem_cons.mpr ⟨rfl, hgap⟩, ?_⟩
    rw [List.cons_append, ← hts]
  | case2 ts => exact ⟨[], fun _ h ↦ absurd h List.not_mem_nil, rfl⟩

namespace Reader

variable {r : Reader} {read : List Token}

/-- The tokens are those of the statements of a program one behind another, with nothing but
semicolons around them. A statement has the tokens that a reader takes which stands at it. -/
inductive Covers (fin : Location) : List Token → Program → Prop where
  | nil {gap : List Token} (hgap : Separators gap) : Covers fin gap []
  | cons {gap own rest : List Token} {st : Statement} {p : Program} (hgap : Separators gap)
      (hown : own ≠ []) (hst : (statementHere ⟨own ++ rest, fin⟩).Yields st rest)
      (hp : Covers fin rest p) : Covers fin (gap ++ (own ++ rest)) (st :: p)

theorem minds_statementHere (hr : Uses read r.tokens) : r.statementHere.Minds read :=
  (Parse.parsers_mind _ _).statement _ hr

theorem minds_expr (hr : Uses read r.tokens) : r.expr.Minds read :=
  (Parse.parsers_mind _ _).expr _ hr

/-- What a parser uses up for its value is something. -/
theorem exists_own {α : Type} {ts rest : List Token} {reply : Reply α ts} {value : α}
    (huses : Uses ts rest) (hyields : reply.Yields value rest) : ∃ own ≠ [], ts = own ++ rest := by
  obtain ⟨own, rfl, -⟩ := huses
  obtain ⟨hlt, -⟩ := hyields
  refine ⟨own, ?_, rfl⟩
  rintro rfl
  exact absurd hlt (Nat.lt_irrefl _)

theorem covers_of_program {p : Program} (h : r.program = .ok p) :
    Uses r.tokens [] ∧ Covers r.fin r.tokens p := by
  fun_induction program r generalizing p with
  | case1 r hs =>
    obtain rfl := Except.ok.inj h
    obtain ⟨gap, hgap, hts⟩ := exists_separators r.tokens
    have huses := uses_skipTerminators r.tokens
    have hs : Parse.skipTerminators r.tokens = [] := hs
    rw [hs] at hts huses
    rw [List.append_nil] at hts
    exact ⟨huses, hts ▸ .nil hgap⟩
  | case2 => cases h
  | case3 r t us hs st rest hlt heq _ more hmore ih =>
    obtain rfl := Except.ok.inj h
    obtain ⟨hleft, hcovers⟩ := ih hmore
    have huse : Uses r.skipTerminators.tokens rest := (minds_statementHere (.refl _)).of_eq heq
    obtain ⟨gap, hgap, hts⟩ := exists_separators r.tokens
    have hyields : r.skipTerminators.statementHere.Yields st rest := ⟨hlt, heq⟩
    obtain ⟨own, hown, hskip⟩ := exists_own huse hyields
    have hreader : r.skipTerminators = ⟨own ++ rest, r.fin⟩ := congrArg (Reader.mk · r.fin) hskip
    have hst : (statementHere ⟨own ++ rest, r.fin⟩).Yields st rest := hreader ▸ hyields
    refine ⟨(uses_skipTerminators r.tokens).trans (huse.trans hleft), ?_⟩
    rw [hts, show Parse.skipTerminators r.tokens = own ++ rest from hskip]
    exact .cons hgap hown hst hcovers
  | case4 => cases h

theorem uses_of_program {c : Char} {l : Location} (hr : Uses read r.tokens)
    (h : r.program = .error (.badCharacter c l)) : ∃ more, Uses read (⟨.bad c, l⟩ :: more) := by
  fun_induction program r with
  | case1 => cases h
  | case2 r t us hs e rest heq =>
    have hskip : Uses read r.skipTerminators.tokens := hr.trans (uses_skipTerminators r.tokens)
    obtain rfl := Except.error.inj h
    exact (minds_statementHere hskip).of_bad heq
  | case3 => cases h
  | case4 r t us hs st rest hlt heq _ e hmore ih =>
    have hskip : Uses read r.skipTerminators.tokens := hr.trans (uses_skipTerminators r.tokens)
    obtain rfl := Except.error.inj h
    exact ih ((minds_statementHere hskip).of_eq heq) hmore

end Reader

theorem uses_scan {source : String} {rest : List Token}
    (h : Uses (Reader.ofText source).tokens rest) :
    Uses (scan source) (rest ++ [⟨.eof, (Reader.ofText source).fin⟩]) :=
  h.append _

theorem isBad_scan {source : String} (h : Uses (Reader.ofText source).tokens []) :
    ∀ t ∈ scan source, t.isBad = false :=
  ((uses_scan h).behind (by simp)).isBad_eq_false

theorem find?_scan {source : String} {c : Char} {l : Location} {rest : List Token}
    (h : Uses (Reader.ofText source).tokens (⟨.bad c, l⟩ :: rest)) :
    (scan source).find? Token.isBad = some ⟨.bad c, l⟩ :=
  (uses_scan h).find?_isBad

/-- What may stand behind an expression that fills a text. -/
def IsEnd (ts : List Token) : Prop := ts = [] ∨ ∃ l, ts = [⟨.symbol .semicolon, l⟩]

theorem uses_of_isEnd {ts : List Token} (h : IsEnd ts) : Uses ts [] := by
  rcases h with rfl | ⟨l, rfl⟩
  · exact .refl []
  · exact .symbol _ l []

theorem covers_of_expression {source : String} {e : Expr} (h : parseExpression source = .ok e) :
    Uses (Reader.ofText source).tokens [] ∧ ∃ own last, own ≠ [] ∧ IsEnd last
      ∧ (Reader.ofText source).tokens = own ++ last
      ∧ (Reader.ofText source).expr.Yields e last := by
  unfold parseExpression at h
  dsimp only at h
  split at h
  · cases h
  · rename_i e' rest hlt heq
    have huse : Uses (Reader.ofText source).tokens rest := (Reader.minds_expr (.refl _)).of_eq heq
    obtain ⟨hempty, rfl⟩ := of_ite_ok h
    have hend : IsEnd rest := by
      split at hempty
      · rename_i l rest' _
        exact .inr ⟨l, by rw [List.isEmpty_iff.mp hempty]⟩
      · exact .inl (List.isEmpty_iff.mp hempty)
    obtain ⟨own, hown, htokens⟩ := Reader.exists_own huse ⟨hlt, heq⟩
    exact ⟨huse.trans (uses_of_isEnd hend), own, rest, hown, hend, htokens, hlt, heq⟩

theorem uses_of_expression {source : String} {c : Char} {l : Location}
    (h : parseExpression source = .error (.badCharacter c l)) :
    ∃ more, Uses (Reader.ofText source).tokens (⟨.bad c, l⟩ :: more) := by
  unfold parseExpression at h
  dsimp only at h
  split at h
  · rename_i e rest heq
    obtain rfl := Except.error.inj h
    exact (Reader.minds_expr (.refl _)).of_bad heq
  · rename_i e rest hlt heq
    have huse : Uses (Reader.ofText source).tokens rest := (Reader.minds_expr (.refl _)).of_eq heq
    refine Reply.uses_of_unexpected (of_ite_error h) ?_
    split
    · exact huse.behindSymbol
    · exact huse

/-- **Bad tokens are fatal, and nothing is left out.** A text that is a program, or an expression,
has no bad token, and its tokens up to the end are those of the statements with semicolons around
them, or those of the expression and at most one semicolon. If a bad character is reported, it is
that of the first bad token. -/
theorem covers_or_reports (source : String) :
    (∀ p, parseProgram source = .ok p →
      (∀ t ∈ scan source, t.isBad = false) ∧
        Reader.Covers (Reader.ofText source).fin (Reader.ofText source).tokens p) ∧
    (∀ e, parseExpression source = .ok e →
      (∀ t ∈ scan source, t.isBad = false) ∧
        ∃ own last, own ≠ [] ∧ IsEnd last ∧ (Reader.ofText source).tokens = own ++ last ∧
          (Reader.ofText source).expr.Yields e last) ∧
    (∀ c l, parseProgram source = .error (.badCharacter c l) ∨
        parseExpression source = .error (.badCharacter c l) →
      (scan source).find? Token.isBad = some ⟨.bad c, l⟩) := by
  refine ⟨fun p h ↦ ?_, fun e h ↦ ?_, fun c l h ↦ ?_⟩
  · obtain ⟨huses, hcovers⟩ := Reader.covers_of_program h
    exact ⟨isBad_scan huses, hcovers⟩
  · obtain ⟨huses, hown⟩ := covers_of_expression h
    exact ⟨isBad_scan huses, hown⟩
  · rcases h with h | h
    · obtain ⟨more, hmore⟩ := Reader.uses_of_program (.refl _) h
      exact find?_scan hmore
    · obtain ⟨more, hmore⟩ := uses_of_expression h
      exact find?_scan hmore

/-- The error of a text that is not what it was read as. -/
def errorOf {ε α : Type} : Except ε α → Option ε
  | .ok _ => none
  | .error e => some e

theorem error_of_errorOf {ε α : Type} {r : Except ε α} {e : ε} (h : errorOf r = some e) :
    r = .error e := by
  cases r with
  | ok a => cases h
  | error e' => exact congrArg _ (Option.some.inj h)

/-- Semicolons may stand before, between and behind statements and behind an expression. Of two bad
characters the first is reported, also when all before it is a statement. -/
theorem covers_or_reports_of_texts :
    (∃ p, parseProgram ";var x = 1;; x;" = .ok p ∧ (∀ t ∈ scan ";var x = 1;; x;", t.isBad = false) ∧
      Reader.Covers ⟨1, 16⟩ (Reader.ofText ";var x = 1;; x;").tokens p) ∧
    (∃ e, parseExpression "x + 1;" = .ok e ∧ ∀ t ∈ scan "x + 1;", t.isBad = false) ∧
    parseProgram "f(1) # $" = .error (.badCharacter '#' ⟨1, 6⟩) ∧
    (scan "f(1) # $").find? Token.isBad = some ⟨.bad '#', ⟨1, 6⟩⟩ := by
  have hprogram : (parseProgram ";var x = 1;; x;").toOption.isSome := by decide +kernel
  have hexpression : (parseExpression "x + 1;").toOption.isSome := by decide +kernel
  have hfin : (Reader.ofText ";var x = 1;; x;").fin = ⟨1, 16⟩ := by decide +kernel
  have hbad : errorOf (parseProgram "f(1) # $") = some (.badCharacter '#' ⟨1, 6⟩) := by
    decide +kernel
  obtain ⟨p, hp⟩ := Option.isSome_iff_exists.mp hprogram
  obtain ⟨e, he⟩ := Option.isSome_iff_exists.mp hexpression
  obtain ⟨hgood, hcovers⟩ := (covers_or_reports ";var x = 1;; x;").1 p (ok_of_toOption hp)
  refine ⟨⟨p, ok_of_toOption hp, hgood, hfin ▸ hcovers⟩, ?_, error_of_errorOf hbad, ?_⟩
  · exact ⟨e, ok_of_toOption he, ((covers_or_reports "x + 1;").2.1 e (ok_of_toOption he)).1⟩
  · exact (covers_or_reports "f(1) # $").2.2 _ _ (.inl (error_of_errorOf hbad))

end Scriptlet
