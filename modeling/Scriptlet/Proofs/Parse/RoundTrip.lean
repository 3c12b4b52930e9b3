import Scriptlet.Proofs.Parse.Reading

/-!
# Reading back the text of an expression

An expression whose text is parsed again comes back, but for the parentheses of the source, which
the text does not have, those of the text, which the source did not have, and the places.

The induction is on the expression and its invariant, `Expr.Reads`, is about the primary expressions
with their suffixes: every spelled expression is one, because operators stand between parentheses.
Whatever follows is left to the suffix loop, so the statement for the target of a call, a member or
an index is one about the whole of it.
-/

namespace Scriptlet

open Parse Reply

/-! ## The invariant -/

/-- On the tokens that spell the expression, reading a primary expression and its suffixes comes to
where it has read the expression and goes on with the suffixes behind it. -/
structure Expr.Reads (e : Expr) : Prop where
  begins : ∃ k ks, e.spell = k :: ks ∧ beginsOperand k
  applied : ∀ {n : Nat} (fin : Location) {ts us : List Token} (h : ts.length ≤ n),
    Spelled e.spell ts us →
      ∃ e', e'.shape = e.shape ∧ ∃ hlt, applied fin (parsers fin n) ts h
        = suffixes fin (parsers fin n) e' ts us hlt h

variable {e : Expr} {n : Nat} (fin : Location) {ts us : List Token} {l : Location}

namespace Expr.Reads

theorem kindOf_begins (he : e.Reads) (hs : Spelled e.spell ts us) : beginsOperand (kindOf ts) := by
  obtain ⟨k, ks, hspell, hk⟩ := he.begins
  rw [hspell] at hs
  obtain ⟨l, ts', rfl, -⟩ := hs
  exact hk

/-- A whole operand, with the steps behind it. -/
theorem yields_unary_increments (he : e.Reads) (h : ts.length ≤ n) (hs : Spelled e.spell ts us)
    (hsuffix : beginsSuffix (kindOf us) = false) :
    ∃ e', e'.shape = e.shape ∧
      (Parse.unary fin (parsers fin n) ts h).Yields (increments e' us).1 (increments e' us).2 := by
  obtain ⟨e', hshape, hlt, happlied⟩ := he.applied fin h hs
  refine ⟨e', hshape, yields_unary_of_applied (he.kindOf_begins hs) ?_⟩
  exact ⟨hlt, happlied.trans (suffixes_stop hsuffix)⟩

theorem yields_unary (he : e.Reads) (h : ts.length ≤ n) (hs : Spelled e.spell ts us)
    (hsuffix : beginsSuffix (kindOf us) = false) (hstep : isStep (kindOf us) = false) :
    ∃ e', e'.shape = e.shape ∧ (Parse.unary fin (parsers fin n) ts h).Yields e' us := by
  obtain ⟨e', hshape, hyields⟩ := he.yields_unary_increments fin h hs hsuffix
  rw [increments_stop hstep] at hyields
  exact ⟨e', hshape, hyields⟩

/-- An operand of any levels, if none of their operators follows. -/
theorem yields_ladder (he : e.Reads) (h : ts.length ≤ n) (hs : Spelled e.spell ts us)
    (hsuffix : beginsSuffix (kindOf us) = false) (hstep : isStep (kindOf us) = false)
    {looser : List Level} (hops : ∀ level ∈ looser, level.op? (kindOf us) = none) :
    ∃ e', e'.shape = e.shape ∧ (ladder fin (parsers fin n) looser ts h).Yields e' us := by
  obtain ⟨e', hshape, hyields⟩ := he.yields_unary fin h hs hsuffix hstep
  exact ⟨e', hshape, yields_ladder_of_unary hyields hops⟩

/-- A whole expression before a token that ends it. -/
theorem yields_assignment (he : e.Reads) (h : ts.length ≤ n) (hs : Spelled e.spell ts us)
    (hend : EndsExpr (kindOf us)) :
    ∃ e', e'.shape = e.shape ∧ (assignment fin (parsers fin n) ts h).Yields e' us := by
  obtain ⟨e', hshape, hyields⟩ := he.yields_unary fin h hs hend.suffix hend.step
  exact ⟨e', hshape, yields_assignment_of_unary hyields hend⟩

theorem yields_expr (he : e.Reads) (h : ts.length < n) (hs : Spelled e.spell ts us)
    (hend : EndsExpr (kindOf us)) :
    ∃ e', e'.shape = e.shape ∧ ((parsers fin n).expr ts h).Yields e' us := by
  cases n with
  | zero => exact absurd h (Nat.not_lt_zero _)
  | succ n => exact he.yields_assignment fin (Nat.le_of_lt_succ h) hs hend

/-- An operand behind a prefix operator or a fallback. -/
theorem yields_operand (he : e.Reads) (h : ts.length < n) (hs : Spelled e.spell ts us)
    (hend : EndsExpr (kindOf us)) :
    ∃ e', e'.shape = e.shape ∧ ((parsers fin n).unary ts h).Yields e' us := by
  cases n with
  | zero => exact absurd h (Nat.not_lt_zero _)
  | succ n => exact he.yields_unary fin (Nat.le_of_lt_succ h) hs hend.suffix hend.step

end Expr.Reads

/-! ## Elements of a list -/

section Items

variable {close : Symbol} {wanted : Expectation} {es : List Expr}

theorem endsExpr_of_closesList (h : ClosesList close) : EndsExpr (.symbol close) := by
  rcases h with rfl | rfl
  · exact endsExpr_closeParen
  · exact endsExpr_closeBracket

theorem beginsOperand_of_closesList (h : ClosesList close) :
    beginsOperand (.symbol close) = false := by
  rcases h with rfl | rfl <;> rfl

/-- The loop over the elements of a list reads a list that has some, omitted ones included. -/
theorem yields_itemLoop (hclose : ClosesList close) (hne : es ≠ [])
    (hes : ∀ e ∈ es, ¬e.Omitted → e.Reads) (h : ts.length < n)
    (hs : Spelled (commaed (exprSpells es)) ts (⟨.symbol close, l⟩ :: us)) :
    ∃ es', shapes es' = shapes es ∧
      (itemLoop fin (parsers fin n) close wanted ts h).Yields es' us := by
  induction es generalizing ts with
  | nil => exact absurd rfl hne
  | cons e es ih =>
    obtain ⟨he, htail⟩ := List.forall_mem_cons.mp hes
    -- The last element is closed by the symbol of the list, any other one by a comma.
    cases es with
    | nil =>
      rw [exprSpells, exprSpells, commaed, List.intercalate_singleton] at hs
      by_cases homitted : e.Omitted
      · obtain ⟨l', rfl⟩ := homitted
        obtain rfl : ts = ⟨.symbol close, l⟩ :: us := hs
        exact ⟨_, by simp, yields_itemLoop_close hclose⟩
      · obtain ⟨e', hshape, hyields⟩ :=
          (he homitted).yields_expr fin h hs (endsExpr_of_closesList hclose)
        have hbegins := (he homitted).kindOf_begins hs
        exact ⟨[e'], by simp [hshape],
          yields_itemLoop_last (ne_symbol_of_beginsOperand hbegins rfl)
            (ne_symbol_of_beginsOperand hbegins (beginsOperand_of_closesList hclose))
            hclose hyields⟩
    | cons d ds =>
      rw [exprSpells, exprSpells, commaed, List.intercalate_cons_cons, List.append_assoc,
        spelled_append] at hs
      obtain ⟨ms, hse, l', ts', rfl, hds⟩ := hs
      by_cases homitted : e.Omitted
      · obtain ⟨l'', rfl⟩ := homitted
        obtain rfl : ts = ⟨.symbol .comma, l'⟩ :: ts' := hse
        obtain ⟨es', hshapes, hyields⟩ := ih (List.cons_ne_nil d ds) htail (Nat.lt_of_succ_lt h) hds
        exact ⟨.empty (.at l') :: es', by simp [hshapes], yields_itemLoop_comma fun _ ↦ hyields⟩
      · obtain ⟨e', hshape, hyields⟩ := (he homitted).yields_expr fin h hse endsExpr_comma
        have hbegins := (he homitted).kindOf_begins hse
        obtain ⟨hlt, -⟩ := id hyields
        obtain ⟨es', hshapes, hyields'⟩ :=
          ih (List.cons_ne_nil d ds) htail (Nat.lt_trans (Nat.lt_of_succ_lt hlt) h) hds
        exact ⟨e' :: es', by simp [hshape, hshapes],
          yields_itemLoop_cons (ne_symbol_of_beginsOperand hbegins rfl)
            (ne_symbol_of_beginsOperand hbegins (beginsOperand_of_closesList hclose)) hyields
            fun _ ↦ hyields'⟩

/-- A list that has elements does not begin with the symbol that closes it. -/
theorem kindOf_ne_close (hclose : ClosesList close) (hne : es ≠ []) (hlone : NotLone es)
    (hes : ∀ e ∈ es, ¬e.Omitted → e.Reads)
    (hs : Spelled (commaed (exprSpells es)) ts us) : kindOf ts ≠ .symbol close := by
  cases es with
  | nil => exact absurd rfl hne
  | cons e es =>
    by_cases homitted : e.Omitted
    · obtain ⟨l', rfl⟩ := homitted
      cases es with
      | nil => exact absurd rfl (hlone l')
      | cons d ds =>
        rw [exprSpells, exprSpells, commaed, List.intercalate_cons_cons] at hs
        obtain ⟨l, ts', rfl, -⟩ := hs
        rintro ⟨⟩
        rcases hclose with h | h <;> cases h
    · have hread : e.Reads := hes e List.mem_cons_self homitted
      obtain ⟨ms, hse⟩ : ∃ ms, Spelled e.spell ts ms := by
        cases es with
        | nil =>
          rw [exprSpells, exprSpells, commaed, List.intercalate_singleton] at hs
          exact ⟨us, hs⟩
        | cons d ds =>
          rw [exprSpells, exprSpells, commaed, List.intercalate_cons_cons, List.append_assoc,
            spelled_append] at hs
          obtain ⟨ms, hse, -⟩ := hs
          exact ⟨ms, hse⟩
      exact ne_symbol_of_beginsOperand (hread.kindOf_begins hse)
        (beginsOperand_of_closesList hclose)

theorem yields_spelled_items (hclose : ClosesList close) (hlone : NotLone es)
    (hes : ∀ e ∈ es, ¬e.Omitted → e.Reads) (h : ts.length < n)
    (hs : Spelled (commaed (exprSpells es)) ts (⟨.symbol close, l⟩ :: us)) :
    ∃ es', shapes es' = shapes es ∧
      (items fin (parsers fin n) close wanted ts h).Yields es' us := by
  by_cases hne : es = []
  · subst hne
    obtain rfl : ts = ⟨.symbol close, l⟩ :: us := hs
    exact ⟨[], rfl, yields_items_nil⟩
  · obtain ⟨es', hshapes, hyields⟩ := yields_itemLoop fin hclose hne hes h hs
    exact ⟨es', hshapes, yields_items (kindOf_ne_close hclose hne hlone hes hs) hyields⟩

end Items

/-! ## Primary expressions and suffixes -/

theorem Expr.Reads.of_primary (hbegins : ∃ k ks, e.spell = k :: ks ∧ beginsOperand k)
    (hprimary : ∀ {n : Nat} (fin : Location) {ts us : List Token} (h : ts.length ≤ n),
      Spelled e.spell ts us →
        ∃ e', e'.shape = e.shape ∧ (primary fin (parsers fin n) ts h).Yields e' us) : e.Reads where
  begins := hbegins
  applied fin _ _ h hs := by
    obtain ⟨e', hshape, hyields⟩ := hprimary fin h hs
    exact ⟨e', hshape, applied_of_primary hyields⟩

theorem reads_int {i : Int64} : (Expr.literal (.at l) (.int i)).Reads := by
  refine .of_primary ⟨_, _, rfl, rfl⟩ ?_
  rintro n fin _ us h ⟨l', ts, rfl, rfl⟩
  exact ⟨.literal (.at l') (.int i), by simp, yields_one⟩

theorem reads_str {t : String} : (Expr.literal (.at l) (.str t)).Reads := by
  refine .of_primary ⟨_, _, rfl, rfl⟩ ?_
  rintro n fin _ us h ⟨l', ts, rfl, rfl⟩
  exact ⟨.literal (.at l') (.str t), by simp, yields_one⟩

theorem reads_bool {b : Bool} : (Expr.literal (.at l) (.bool b)).Reads := by
  refine .of_primary ⟨_, _, rfl, rfl⟩ ?_
  rintro n fin _ us h ⟨l', ts, rfl, rfl⟩
  refine ⟨.literal (.at l') (.bool b), by simp, ?_⟩
  cases b <;> exact yields_one

theorem reads_name {x : String} (hx : IsIdentifier x) : (Expr.name (.at l) x).Reads := by
  refine .of_primary ⟨_, _, rfl, rfl⟩ ?_
  rintro n fin _ us h ⟨l', ts, rfl, rfl⟩
  refine ⟨.name (.at l') x, by simp, ?_⟩
  simp only [primary, hx.2]
  exact yields_one

theorem reads_variableRef {x : String} : (Expr.variableRef (.at l) x).Reads := by
  refine .of_primary ⟨_, _, rfl, rfl⟩ ?_
  rintro n fin _ us h ⟨l', _, rfl, l'', ts, rfl, rfl⟩
  exact ⟨.variableRef (.at l') x, by simp, yields_anyName.behind _⟩

theorem reads_constantRef {x : String} : (Expr.constantRef (.at l) x).Reads := by
  refine .of_primary ⟨_, _, rfl, rfl⟩ ?_
  rintro n fin _ us h ⟨l', _, rfl, l'', ts, rfl, rfl⟩
  exact ⟨.constantRef (.at l') x, by simp, yields_anyName.behind _⟩

theorem reads_this : (Expr.this (.at l)).Reads := by
  refine .of_primary ⟨_, _, rfl, rfl⟩ ?_
  rintro n fin _ us h ⟨l', ts, rfl, rfl⟩
  exact ⟨.this (.at l'), by simp, yields_one⟩

theorem reads_null : (Expr.null (.at l)).Reads := by
  refine .of_primary ⟨_, _, rfl, rfl⟩ ?_
  rintro n fin _ us h ⟨l', ts, rfl, rfl⟩
  exact ⟨.null (.at l'), by simp, yields_one⟩

theorem reads_array {items : List Expr} (hlone : NotLone items)
    (hitems : ∀ e ∈ items, ¬e.Omitted → e.Reads) : (Expr.array (.at l) none items none).Reads := by
  refine .of_primary ⟨_, _, rfl, rfl⟩ ?_
  rintro n fin _ us h ⟨l', ts, rfl, hs⟩
  obtain ⟨ms, hes, l'', _, rfl, rfl⟩ := spelled_append.mp hs
  obtain ⟨es', hshapes, hyields⟩ := yields_spelled_items fin (.inr rfl) hlone hitems h hes
  exact ⟨.array (.at l') none es' none, by simp [hshapes], hyields.behind _⟩

/-- What stands behind an expression's tokens is another suffix of it. -/
theorem Expr.Reads.suffix {d : Expr} {ks : List TokenKind} (hd : d.Reads)
    (hspell : e.spell = d.spell ++ ks)
    (hsuffix : ∀ {n : Nat} (fin : Location) {d' : Expr} {origin ms us : List Token}
      (h : ms.length < origin.length) (hn : origin.length ≤ n), d'.shape = d.shape →
        Spelled ks ms us → ∃ e', e'.shape = e.shape ∧
          ∃ h', suffixes fin (parsers fin n) d' origin ms h hn
            = suffixes fin (parsers fin n) e' origin us h' hn) : e.Reads where
  begins := by
    obtain ⟨k, js, hd, hk⟩ := hd.begins
    exact ⟨k, js ++ ks, by rw [hspell, hd, List.cons_append], hk⟩
  applied fin ts us h hs := by
    rw [hspell] at hs
    obtain ⟨ms, hs, hks⟩ := spelled_append.mp hs
    obtain ⟨d', hshape, hlt, happlied⟩ := hd.applied fin h hs
    obtain ⟨e', hshape', h', hsuffixes⟩ := hsuffix fin hlt h hshape hks
    exact ⟨e', hshape', h', happlied.trans hsuffixes⟩

theorem reads_member {target : Expr} {x : String} (ht : target.Reads) :
    (Expr.member (.at l) target x).Reads := by
  refine ht.suffix (by rw [Expr.spell]) ?_
  rintro n fin d' origin _ us h hn hshape ⟨l', _, rfl, l'', _, rfl, rfl⟩
  exact ⟨.member (.at l') d' x, by simp [hshape], suffixes_dot h hn⟩

theorem reads_call {target : Expr} {args : List Expr} (ht : target.Reads) (hlone : NotLone args)
    (hargs : ∀ e ∈ args, ¬e.Omitted → e.Reads) : (Expr.call (.at l) target args none).Reads := by
  refine ht.suffix (by rw [Expr.spell]) ?_
  rintro n fin d' origin _ us h hn hshape ⟨l', ms, rfl, hs⟩
  obtain ⟨ms', hes, l'', _, rfl, rfl⟩ := spelled_append.mp hs
  obtain ⟨args', hshapes, hyields⟩ := yields_spelled_items fin (.inl rfl) hlone hargs
    (length_lt_bound (length_lt_of_succ h) hn) hes
  exact ⟨.call (.at l') d' args' none, by simp [hshape, hshapes],
    suffixes_call h hn fun _ ↦ hyields⟩

theorem reads_index {target : Expr} {args : List Expr} (ht : target.Reads) (hlone : NotLone args)
    (hargs : ∀ e ∈ args, ¬e.Omitted → e.Reads) : (Expr.index (.at l) target args none).Reads := by
  refine ht.suffix (by rw [Expr.spell]) ?_
  rintro n fin d' origin _ us h hn hshape ⟨l', ms, rfl, hs⟩
  obtain ⟨ms', hes, l'', _, rfl, rfl⟩ := spelled_append.mp hs
  obtain ⟨args', hshapes, hyields⟩ := yields_spelled_items fin (.inr rfl) hlone hargs
    (length_lt_bound (length_lt_of_succ h) hn) hes
  exact ⟨.index (.at l') d' args' none, by simp [hshape, hshapes],
    suffixes_index h hn fun _ ↦ hyields⟩

/-! ## Constructions -/

/-- The name of a type behind `new`, as far as it goes. -/
def newName (fin : Location) (ts : List Token) : Reply (Expr × String) ts :=
  (identifier fin ts).andThen fun first rest hr ↦
    newTarget fin (.name (.at (locationOf fin ts)) first) first ts rest hr

/-- Reading the name of a type comes to where it has read the chain, and goes on behind it. -/
theorem newName_of_isChain (he : e.IsChain) (hs : Spelled e.spell ts us) :
    ∃ e' text, e'.shape = e.shape ∧ ∃ hlt, newName fin ts = newTarget fin e' text ts us hlt := by
  induction he generalizing us with
  | @name l x hx =>
    obtain ⟨l', _, rfl, rfl⟩ := hs
    obtain ⟨hlt, heq⟩ : (identifier fin (⟨.word x, l'⟩ :: _)).Yields x _ := yields_identifier hx.2
    refine ⟨.name (.at l') x, x, by simp, hlt, ?_⟩
    rw [newName, heq]
    rfl
  | @member l target x _ hx ih =>
    rw [Expr.spell] at hs
    obtain ⟨ms, hs', l', _, rfl, l'', _, rfl, rfl⟩ := spelled_append.mp hs
    obtain ⟨e', text, hshape, hlt, hname⟩ := ih hs'
    obtain ⟨hlt', heq⟩ : (identifier fin (⟨.word x, l''⟩ :: _)).Yields x _ := yields_identifier hx.2
    refine ⟨.member (.at l') e' x, text ++ "." ++ x, by simp [hshape],
      length_lt_trans hlt' (length_lt_of_succ hlt), ?_⟩
    rw [hname, newTarget]
    simp only [true_or, if_true, heq]

theorem yields_newName (he : e.IsChain)
    (hs : Spelled e.spell ts (⟨.symbol .openParen, l⟩ :: us)) :
    ∃ e' text, e'.shape = e.shape ∧
      (newName fin ts).Yields (e', text) (⟨.symbol .openParen, l⟩ :: us) := by
  obtain ⟨e', text, hshape, hlt, hname⟩ := newName_of_isChain fin he hs
  refine ⟨e', text, hshape, hlt, ?_⟩
  rw [hname, newTarget]
  rfl

theorem yields_newExpr {p : Parsers n} {target : Expr} {text : String} {rest : List Token}
    {args : List Expr} {l' : Location} (h : ts.length < n)
    (htarget : (newName fin ts).Yields (target, text) (⟨.symbol .openParen, l'⟩ :: rest))
    (hargs : ∀ h, (items fin p .closeParen .closeConstructor rest h).Yields args us) :
    (newExpr fin p l ts h).Yields (.new (.at l) target args none) us := by
  rw [newExpr]
  simp only [← andThen_assoc]
  refine Yields.andThen htarget fun hlt ↦ ?_
  simp only [kindOf]
  exact yields_expect.andThen fun _ ↦ (hargs _).within _ _

theorem reads_new {target : Expr} {args : List Expr} (ht : target.IsChain) (hlone : NotLone args)
    (hargs : ∀ e ∈ args, ¬e.Omitted → e.Reads) : (Expr.new (.at l) target args none).Reads := by
  refine .of_primary ⟨_, _, rfl, rfl⟩ ?_
  rintro n fin _ us h ⟨l', ts, rfl, hs⟩
  obtain ⟨ms, hname, l₁, ms', rfl, hs'⟩ := spelled_append.mp hs
  obtain ⟨_, hes, l₂, _, rfl, rfl⟩ := spelled_append.mp hs'
  obtain ⟨target', text, hshape, hyields⟩ := yields_newName fin ht hname
  obtain ⟨hlt, -⟩ := id hyields
  obtain ⟨args', hshapes, hyields'⟩ := yields_spelled_items fin (.inl rfl) hlone hargs
    (length_lt_bound (Nat.lt_of_succ_lt hlt) (Nat.le_of_lt h)) hes
  exact ⟨.new (.at l') target' args' none, by simp [hshape, hshapes],
    (yields_newExpr fin h hyields fun _ ↦ hyields').behind _⟩

/-! ## Operators -/

/-- What is read between parentheses is read as a group. -/
theorem Expr.Reads.of_inParens {ks : List TokenKind} (hspell : e.spell = inParens ks)
    (hinside : ∀ {n : Nat} (fin : Location) {ts us : List Token} {l : Location}
      (h : ts.length ≤ n), Spelled ks ts (⟨.symbol .closeParen, l⟩ :: us) →
        ∃ e', e'.shape = e.shape ∧
          (assignment fin (parsers fin n) ts h).Yields e' (⟨.symbol .closeParen, l⟩ :: us)) :
    e.Reads := by
  refine .of_primary ⟨_, _, hspell, rfl⟩ ?_
  intro n fin ts us h hs
  rw [hspell] at hs
  obtain ⟨l, ts, rfl, hs⟩ := hs
  obtain ⟨ms, hks, l', _, rfl, rfl⟩ := spelled_append.mp hs
  cases n with
  | zero => exact absurd h (Nat.not_lt_zero _)
  | succ n =>
    obtain ⟨e', hshape, hyields⟩ := hinside fin (Nat.le_of_lt_succ h) hks
    refine ⟨.unary (.at l) .group e' none, by simp [hshape], ?_⟩
    exact (Yields.andThen hyields fun _ ↦ yields_expect.within _ _).behind _

theorem reads_signed {op : UnaryOp} {s : Symbol} (hop : prefixOp? (.symbol s) = some op)
    (hgroup : op ≠ .group)
    (hspell : (Expr.unary (.at l) op e none).spell = inParens (.symbol s :: e.spell))
    (he : e.Reads) : (Expr.unary (.at l) op e none).Reads := by
  refine .of_inParens hspell ?_
  rintro n fin _ us l' h ⟨l'', ts, rfl, hs⟩
  obtain ⟨e', hshape, hyields⟩ := he.yields_operand fin h hs endsExpr_closeParen
  refine ⟨.unary (.at l'') op e' none, by simp [shape_unary _ hgroup, hshape], ?_⟩
  exact yields_assignment_of_unary (yields_signed hop fun _ ↦ hyields) endsExpr_closeParen

theorem reads_postInc (he : e.Reads) : (Expr.unary (.at l) .postInc e none).Reads := by
  refine .of_inParens (by rw [Expr.spell]) ?_
  intro n fin ts us l' h hs
  obtain ⟨ms, hs, l'', _, rfl, rfl⟩ := spelled_append.mp hs
  obtain ⟨e', hshape, hyields⟩ := he.yields_unary_increments fin h hs rfl
  refine ⟨.unary (.at l'') .postInc e' none, by simp [shape_unary, hshape], ?_⟩
  exact yields_assignment_of_unary hyields endsExpr_closeParen

theorem reads_postDec (he : e.Reads) : (Expr.unary (.at l) .postDec e none).Reads := by
  refine .of_inParens (by rw [Expr.spell]) ?_
  intro n fin ts us l' h hs
  obtain ⟨ms, hs, l'', _, rfl, rfl⟩ := spelled_append.mp hs
  obtain ⟨e', hshape, hyields⟩ := he.yields_unary_increments fin h hs rfl
  refine ⟨.unary (.at l'') .postDec e' none, by simp [shape_unary, hshape], ?_⟩
  exact yields_assignment_of_unary hyields endsExpr_closeParen

theorem reads_unary {op : UnaryOp} (he : e.Reads) : (Expr.unary (.at l) op e none).Reads := by
  cases op with
  | group =>
    refine ⟨he.begins, fun fin _ _ h hs ↦ ?_⟩
    rw [shape_group]
    exact he.applied fin h hs
  | neg => exact reads_signed rfl (by decide) (by rw [Expr.spell]) he
  | plus => exact reads_signed rfl (by decide) (by rw [Expr.spell]) he
  | not => exact reads_signed rfl (by decide) (by rw [Expr.spell]) he
  | preInc => exact reads_signed rfl (by decide) (by rw [Expr.spell]) he
  | preDec => exact reads_signed rfl (by decide) (by rw [Expr.spell]) he
  | postInc => exact reads_postInc he
  | postDec => exact reads_postDec he

theorem reads_coalesce {a b : Expr} (ha : a.Reads) (hb : b.Reads) :
    (Expr.coalesce (.at l) a b).Reads := by
  refine .of_inParens (by rw [Expr.spell]) ?_
  intro n fin ts us l' h hs
  obtain ⟨_, hsa, l'', ms, rfl, hsb⟩ := spelled_append.mp hs
  obtain ⟨a', hshape, hlt, happlied⟩ := ha.applied fin h hsa
  obtain ⟨b', hshape', hyields⟩ := hb.yields_operand fin
    (length_lt_bound (length_lt_of_succ hlt) h) hsb endsExpr_closeParen
  refine ⟨.coalesce (.at l'') a' b', by simp [hshape, hshape'], ?_⟩
  -- The fallback is a suffix of the left operand, and nothing follows it.
  obtain ⟨hlt', hsuffixes⟩ := suffixes_coalesce (e := a') hlt h fun _ ↦ hyields
  have hunary := yields_unary_of_applied (ha.kindOf_begins hsa)
    ⟨hlt', happlied.trans (hsuffixes.trans (suffixes_stop rfl))⟩
  exact yields_assignment_of_unary hunary endsExpr_closeParen

theorem reads_binary {op : BinaryOp} {a b : Expr} (ha : a.Reads) (hb : b.Reads) :
    (Expr.binary (.at l) op a b none).Reads := by
  refine .of_inParens (by rw [Expr.spell]) ?_
  intro n fin ts us l' h hs
  obtain ⟨_, hsa, l'', ms, rfl, hsb⟩ := spelled_append.mp hs
  obtain ⟨level, hdrop, hop, htighter⟩ := exists_level op
  have hlevels : levels = levels.take op.rank ++ level :: levels.drop (op.rank + 1) := by
    rw [← hdrop, List.take_append_drop]
  have hops : ∀ level ∈ levels, level.op? (.symbol .closeParen) = none := endsExpr_closeParen.ops
  rw [hlevels] at hops
  simp only [List.mem_append, List.mem_cons] at hops
  obtain ⟨a', hshape, hyields⟩ := ha.yields_ladder fin h hsa (by cases op <;> rfl)
    (by cases op <;> rfl) htighter
  obtain ⟨hlt, -⟩ := id hyields
  obtain ⟨b', hshape', hyields'⟩ := hb.yields_ladder fin
    (length_le_bound (length_lt_of_succ hlt) h) hsb rfl rfl
    fun level hlevel ↦ hops level (.inr (.inr hlevel))
  refine ⟨.binary (.at l'') op a' b' none, by simp [hshape, hshape'], ?_⟩
  have hladder := yields_operator hyields hop (fun _ ↦ hyields') (hops level (.inr (.inl rfl)))
  refine yields_assignment_of_ladder ?_ endsExpr_closeParen
  rw [hlevels]
  exact yields_ladder hladder fun level hlevel ↦ hops level (.inl hlevel)

theorem reads_ternary {x a b : Expr} (hx : x.Reads) (ha : a.Reads) (hb : b.Reads) :
    (Expr.ternary (.at l) x a b none).Reads := by
  refine .of_inParens (by rw [Expr.spell]) ?_
  intro n fin ts us l' h hs
  obtain ⟨_, hsx, l₁, ms, rfl, hs⟩ := spelled_append.mp hs
  obtain ⟨_, hsa, l₂, ms', rfl, hsb⟩ := spelled_append.mp hs
  obtain ⟨x', hshape, hyields⟩ := hx.yields_ladder fin h hsx rfl rfl
    (by decide : ∀ level ∈ levels, level.op? (.symbol .question) = none)
  obtain ⟨hlt, -⟩ := id hyields
  obtain ⟨a', hshape', hyields'⟩ := ha.yields_expr fin
    (length_lt_bound (length_lt_of_succ hlt) h) hsa endsExpr_colon
  obtain ⟨hlt', -⟩ := id hyields'
  obtain ⟨b', hshape'', hyields''⟩ := hb.yields_expr fin
    (length_lt_bound (length_lt_trans (length_lt_of_succ hlt') (length_lt_of_succ hlt)) h) hsb
    endsExpr_closeParen
  refine ⟨.ternary (.at l₁) x' a' b' none, by simp [hshape, hshape', hshape''], ?_⟩
  exact yields_assignment (yields_ternary hyields (fun _ ↦ hyields') fun _ ↦ hyields'')
    (by decide : TokenKind.symbol .closeParen ≠ .symbol .eq)

theorem reads_assign {target v : Expr} (ht : target.Reads) (hv : v.Reads) :
    (Expr.assign (.at l) target v none).Reads := by
  refine .of_inParens (by rw [Expr.spell]) ?_
  intro n fin ts us l' h hs
  obtain ⟨_, hst, l₁, ms, rfl, hsv⟩ := spelled_append.mp hs
  obtain ⟨target', hshape, hyields⟩ := ht.yields_ladder fin h hst rfl rfl
    (by decide : ∀ level ∈ levels, level.op? (.symbol .eq) = none)
  obtain ⟨hlt, -⟩ := id hyields
  obtain ⟨v', hshape', hyields'⟩ := hv.yields_expr fin
    (length_lt_bound (length_lt_of_succ hlt) h) hsv endsExpr_closeParen
  refine ⟨.assign (.at l₁) target' v' none, by simp [hshape, hshape'], ?_⟩
  exact yields_assign (yields_conditional hyields
    (by decide : TokenKind.symbol .eq ≠ .symbol .question)) fun _ ↦ hyields'

/-! ## The round trip -/

theorem Expr.Legible.reads (h : e.Legible) : e.Reads := by
  induction h with
  | int => exact reads_int
  | bool => exact reads_bool
  | str => exact reads_str
  | name hx => exact reads_name hx
  | variableRef => exact reads_variableRef
  | constantRef => exact reads_constantRef
  | unary _ ih => exact reads_unary ih
  | binary _ _ iha ihb => exact reads_binary iha ihb
  | coalesce _ _ iha ihb => exact reads_coalesce iha ihb
  | ternary _ _ _ ihx iha ihb => exact reads_ternary ihx iha ihb
  | assign _ _ iht ihv => exact reads_assign iht ihv
  | call _ hlone _ iht ihargs => exact reads_call iht hlone ihargs
  | new ht hlone _ ihargs => exact reads_new ht hlone ihargs
  | index _ hlone _ iht ihargs => exact reads_index iht hlone ihargs
  | member _ _ iht => exact reads_member iht
  | array hlone _ ihitems => exact reads_array hlone ihitems
  | this => exact reads_this
  | null => exact reads_null

/-- A reader at the start of a text stands before the tokens of the text. -/
theorem spelled_ofText (source : String) :
    Spelled (kinds source.toList) (Reader.ofText source).tokens [] :=
  spelled_map _

theorem parseExpression_of_expr {source : String} {e : Expr}
    (h : (Reader.ofText source).expr.Yields e []) : parseExpression source = .ok e := by
  obtain ⟨hlt, heq⟩ := h
  delta parseExpression
  dsimp only
  rw [heq]
  rfl

theorem Expr.Legible.parseExpression_text (h : e.Legible) :
    ∃ e', parseExpression e.text = .ok e' ∧ e'.shape = e.shape := by
  have hspelled := spelled_ofText e.text
  rw [h.kinds_text] at hspelled
  obtain ⟨e', hshape, hyields⟩ := h.reads.yields_expr (Reader.ofText e.text).fin
    (Nat.lt_succ_self _) hspelled endsExpr_eof
  exact ⟨e', parseExpression_of_expr hyields, hshape⟩

/-- Whatever text an expression was parsed from, if it is plain, then its own text parses, and to an
expression that differs from it in parentheses and places only. -/
theorem parseExpression_text_of_parsed {source : String} {e : Expr}
    (hparse : parseExpression source = .ok e) (hplain : e.isPlain) :
    ∃ e', parseExpression e.text = .ok e' ∧
      e'.withoutGroups.withoutPlaces = e.withoutGroups.withoutPlaces :=
  ((written_of_parseExpression hparse).legible hplain).parseExpression_text

/-- Signs before signs, a member of a number, omitted elements, a comment inside a string, and an
arrow, which the text writes as an assignment. -/
theorem parseExpression_text_of_parsed_signs :
    ∃ e,
      parseExpression "-(-1 .e5) + new A::B(,out if)[c ?? _d]-- / f(`//`, , (true) -> x)" = .ok e ∧
      e.isPlain ∧
      e.text = "((-(-1.e5)) + ((new A.B(, @if)[(c ?? _d)]--) / f(`//`, , (x = true))))" ∧
      ∃ e', parseExpression e.text = .ok e' ∧
        e'.withoutGroups.withoutPlaces = e.withoutGroups.withoutPlaces := by
  have hrun : (parseExpression
      "-(-1 .e5) + new A::B(,out if)[c ?? _d]-- / f(`//`, , (true) -> x)").toOption.any
      (fun e ↦ e.isPlain &&
        e.text == "((-(-1.e5)) + ((new A.B(, @if)[(c ?? _d)]--) / f(`//`, , (x = true))))")
      = true := by
    decide +kernel
  obtain ⟨e, he, hplain⟩ := (Option.any_eq_true _ _).mp hrun
  simp only [Bool.and_eq_true, beq_iff_eq] at hplain
  have hparse := ok_of_toOption he
  exact ⟨e, hparse, hplain.1, hplain.2, parseExpression_text_of_parsed hparse hplain.1⟩

end Scriptlet
