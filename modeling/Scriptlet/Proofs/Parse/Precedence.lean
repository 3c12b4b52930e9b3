import Mathlib.Data.List.Induction
import Scriptlet.Proofs.Parse.RoundTrip

/-!
# Precedence

Operands and binary operators in a row, with no parentheses between them, are parsed to the one tree
that has them in this order and respects the ranks of the operators: what stands to the left of an
operator binds at least as tightly as it does, and what stands to its right binds more tightly.

That there is no second such tree is a matter of lists. The operator at the root is the last one of
the least rank, so it cuts the row in the same place in every tree. That there is one follows by
adding operators at the right end. That the parser finds it is an induction over the levels of the
ladder and, on one level, over the tree: the loop of a level takes the tree apart along its left
spine, and its operands are trees of tighter operators.
-/

namespace Scriptlet

/-! ## Rows of operands and operators -/

/-- An operand that is one token: a whole number in base ten or a name. -/
inductive Operand where
  | int (digits : List Char) (value : Int64) (writes : WritesDecimal digits value)
  | name (word : String) (identifier : IsIdentifier word)

namespace Operand

/-- The operand as it is written. -/
def text : Operand → String
  | int digits _ _ => String.ofList digits
  | name word _ => word

/-- The token that the operand is scanned to. -/
def kind : Operand → TokenKind
  | int _ value _ => .number (.int value)
  | name word _ => .word word

/-- The expression that the operand is. -/
def toExpr : Operand → Expr
  | int _ value _ => .literal (.at .start) (.int value)
  | name word _ => .name (.at .start) word

end Operand

/-- The first operand, and behind it operators with an operand each, in the order of the text. -/
def operatorRow (first : Operand) (more : List (BinaryOp × Operand)) : List (Operand ⊕ BinaryOp) :=
  .inl first :: more.flatMap fun p ↦ [.inr p.1, .inl p.2]

theorem operatorRow_append (first : Operand) (more : List (BinaryOp × Operand)) (op : BinaryOp)
    (x : Operand) :
    operatorRow first (more ++ [(op, x)]) = operatorRow first more ++ [.inr op, .inl x] := by
  simp [operatorRow]

/-- The text of one operand or operator. -/
def rowText : Operand ⊕ BinaryOp → String := Sum.elim Operand.text BinaryOp.symbol

/-- The token of one operand or operator. -/
def rowKind : Operand ⊕ BinaryOp → TokenKind := Sum.elim Operand.kind fun op ↦ .symbol op.token

/-! ## Trees of operators -/

/-- How operands are put together by binary operators. -/
inductive OperatorTree where
  | leaf (x : Operand)
  | node (op : BinaryOp) (left right : OperatorTree)

namespace OperatorTree

/-- The operands and operators from left to right. -/
def inOrder : OperatorTree → List (Operand ⊕ BinaryOp)
  | leaf x => [.inl x]
  | node op l r => l.inOrder ++ .inr op :: r.inOrder

/-- The operators from left to right. -/
def operators : OperatorTree → List BinaryOp
  | leaf _ => []
  | node op l r => l.operators ++ op :: r.operators

/-- At every operator, those to its left bind at least as tightly as it does, and those to its right
bind more tightly. -/
def Ranked : OperatorTree → Prop
  | leaf _ => True
  | node op l r => l.Ranked ∧ r.Ranked ∧
      (∀ o ∈ l.operators, op.rank ≤ o.rank) ∧ ∀ o ∈ r.operators, op.rank < o.rank

/-- The tree as an expression. -/
def toExpr : OperatorTree → Expr
  | leaf x => x.toExpr
  | node op l r => .binary (.at .start) op l.toExpr r.toExpr none

variable {t t' l r : OperatorTree} {op : BinaryOp} {k : Nat}

theorem mem_operators_node {o : BinaryOp} :
    o ∈ (node op l r).operators ↔ o ∈ l.operators ∨ o = op ∨ o ∈ r.operators := by
  simp [operators]

theorem mem_inOrder {o : BinaryOp} : .inr o ∈ t.inOrder ↔ o ∈ t.operators := by
  induction t with
  | leaf x => simp [inOrder, operators]
  | node op l r ihl ihr => simp [inOrder, operators, ihl, ihr]

/-- No operator of a ranked tree binds more loosely than the one at the root. -/
theorem Ranked.rank_le (h : (node op l r).Ranked) :
    ∀ o ∈ (node op l r).operators, op.rank ≤ o.rank := by
  intro o ho
  obtain ⟨-, -, hl, hr⟩ := h
  rcases mem_operators_node.mp ho with ho | rfl | ho
  · exact hl o ho
  · exact Nat.le_refl _
  · exact Nat.le_of_lt (hr o ho)

/-! ## There is at most one -/

/-- Two cuts of one list are the same, or each falls on an element beside the other. -/
theorem append_cons_eq_append_cons {α : Type} {as bs cs ds : List α} {a c : α}
    (h : as ++ a :: bs = cs ++ c :: ds) :
    (as = cs ∧ a = c ∧ bs = ds) ∨ (a ∈ cs ∧ c ∈ bs) ∨ (c ∈ as ∧ a ∈ ds) := by
  rcases List.append_eq_append_iff.mp h with ⟨ms, hcs, hbs⟩ | ⟨ms, has, hds⟩
  · cases ms with
    | nil =>
      obtain ⟨ha, hb⟩ := List.cons.inj hbs
      exact .inl ⟨by simpa using hcs.symm, ha, hb⟩
    | cons m ms =>
      obtain ⟨rfl, hb⟩ := List.cons.inj hbs
      exact .inr (.inl ⟨by simp [hcs], by simp [hb]⟩)
  · cases ms with
    | nil =>
      obtain ⟨hc, hd⟩ := List.cons.inj hds
      exact .inl ⟨by simpa using has, hc.symm, hd.symm⟩
    | cons m ms =>
      obtain ⟨rfl, hd⟩ := List.cons.inj hds
      exact .inr (.inr ⟨by simp [has], by simp [hd]⟩)

/-- Ranked trees with the same row have their roots at the same place of it. -/
theorem Ranked.root_eq {op' : BinaryOp} {l' r' : OperatorTree} (h : (node op l r).Ranked)
    (h' : (node op' l' r').Ranked) (hrow : (node op l r).inOrder = (node op' l' r').inOrder) :
    l.inOrder = l'.inOrder ∧ op = op' ∧ r.inOrder = r'.inOrder := by
  obtain ⟨-, -, hleft, hright⟩ := h
  obtain ⟨-, -, hleft', hright'⟩ := h'
  -- Were one root to the left of the other, each of the two would bind more tightly than the other.
  rcases append_cons_eq_append_cons hrow with ⟨hl, hop, hr⟩ | ⟨hop, hop'⟩ | ⟨hop', hop⟩
  · exact ⟨hl, Sum.inr.inj hop, hr⟩
  · have hle : op'.rank ≤ op.rank := hleft' op (mem_inOrder.mp hop)
    have hlt : op.rank < op'.rank := hright op' (mem_inOrder.mp hop')
    exact absurd hlt (Nat.not_lt.mpr hle)
  · have hle : op.rank ≤ op'.rank := hleft op' (mem_inOrder.mp hop')
    have hlt : op'.rank < op.rank := hright' op (mem_inOrder.mp hop)
    exact absurd hlt (Nat.not_lt.mpr hle)

theorem inOrder_ne_leaf {x : Operand} : (node op l r).inOrder ≠ (leaf x).inOrder := by
  intro h
  have hmem : Sum.inr op ∈ (leaf x).inOrder := h ▸ mem_inOrder.mpr (by simp [operators])
  simp [inOrder] at hmem

theorem Ranked.eq_of_inOrder (h : t.Ranked) (h' : t'.Ranked) (hrow : t.inOrder = t'.inOrder) :
    t = t' := by
  induction t generalizing t' with
  | leaf x =>
    cases t' with
    | leaf x' =>
      obtain rfl : x = x' := Sum.inl.inj (List.cons.inj hrow).1
      rfl
    | node op' l' r' => exact absurd hrow.symm inOrder_ne_leaf
  | node op l r ihl ihr =>
    cases t' with
    | leaf x' => exact absurd hrow inOrder_ne_leaf
    | node op' l' r' =>
      obtain ⟨hl, rfl, hr⟩ := h.root_eq h' hrow
      rw [ihl h.1 h'.1 hl, ihr h.2.1 h'.2.1 hr]

/-! ## There is one -/

/-- The tree with an operator and an operand added at the right end of its row. -/
def push (op : BinaryOp) (x : Operand) : OperatorTree → OperatorTree
  | leaf y => node op (leaf y) (leaf x)
  | node o l r => if o.rank < op.rank then node o l (r.push op x) else node op (node o l r) (leaf x)

theorem inOrder_push (t : OperatorTree) (op : BinaryOp) (x : Operand) :
    (t.push op x).inOrder = t.inOrder ++ [.inr op, .inl x] := by
  induction t with
  | leaf y => rfl
  | node o l r _ ihr =>
    rw [push]
    split
    · simp [inOrder, ihr]
    · rfl

theorem mem_operators_push {o : BinaryOp} (x : Operand) (h : o ∈ (t.push op x).operators) :
    o ∈ t.operators ∨ o = op := by
  rw [← mem_inOrder, inOrder_push] at h
  simpa [mem_inOrder] using h

theorem Ranked.push (h : t.Ranked) (op : BinaryOp) (x : Operand) : (t.push op x).Ranked := by
  induction t with
  | leaf y => simp [OperatorTree.push, Ranked, operators]
  | node o l r _ ihr =>
    rw [OperatorTree.push]
    split
    · rename_i hlt
      obtain ⟨hl, hr, hleft, hright⟩ := h
      refine ⟨hl, ihr hr, hleft, fun o' ho' ↦ ?_⟩
      rcases mem_operators_push x ho' with ho' | rfl
      · exact hright o' ho'
      · exact hlt
    · rename_i hle
      refine ⟨h, trivial, fun o' ho' ↦ ?_, by simp [operators]⟩
      exact Nat.le_trans (Nat.not_lt.mp hle) (h.rank_le o' ho')

theorem exists_ranked (first : Operand) (more : List (BinaryOp × Operand)) :
    ∃ t : OperatorTree, t.inOrder = operatorRow first more ∧ t.Ranked := by
  induction more using List.reverseRecOn with
  | nil => exact ⟨leaf first, rfl, trivial⟩
  | append_singleton more p ih =>
    obtain ⟨t, hrow, ht⟩ := ih
    obtain ⟨op, x⟩ := p
    exact ⟨t.push op x, by rw [inOrder_push, hrow, operatorRow_append], ht.push op x⟩

end OperatorTree

/-! ## Reading a tree off the ladder -/

open Parse Reply

variable {n : Nat} {fin : Location} {p : Parsers n} {ts us : List Token}

/-- The tokens of the tree's row. -/
def OperatorTree.spell (t : OperatorTree) : List TokenKind := t.inOrder.map rowKind

/-- A token that continues no operand, and is no operator of the levels. -/
structure EndsOperand (levels : List Level) (k : TokenKind) : Prop where
  suffix : beginsSuffix k = false
  step : isStep k = false
  ops : ∀ level ∈ levels, level.op? k = none

/-- An operator ends the operands of the tighter levels. -/
theorem endsOperand_token (op : BinaryOp) :
    EndsOperand (levels.drop (op.rank + 1)) (.symbol op.token) where
  suffix := by cases op <;> rfl
  step := by cases op <;> rfl
  ops := by
    obtain ⟨_, -, -, hops⟩ := exists_level op
    exact hops

theorem yields_unary_operand (x : Operand) {h : ts.length ≤ n} (hs : Spelled [x.kind] ts us)
    (hsuffix : beginsSuffix (kindOf us) = false) (hstep : isStep (kindOf us) = false) :
    ∃ e, e.withoutPlaces = x.toExpr ∧ (unary fin p ts h).Yields e us := by
  obtain ⟨l, ts, rfl, rfl⟩ := hs
  have hprimary : ∃ e, e.withoutPlaces = x.toExpr ∧
      (primary fin p (⟨x.kind, l⟩ :: ts) h).Yields e ts := by
    cases x with
    | int digits value writes => exact ⟨.literal (.at l) (.int value), rfl, yields_one⟩
    | name word identifier =>
      refine ⟨.name (.at l) word, rfl, ?_⟩
      simp only [Operand.kind, primary, identifier.2]
      exact yields_one
  obtain ⟨e, he, hyields⟩ := hprimary
  obtain ⟨hlt, happlied⟩ := applied_of_primary hyields
  have hunary := yields_unary_of_applied (by cases x <;> rfl)
    ⟨hlt, happlied.trans (suffixes_stop hsuffix)⟩
  rw [increments_stop hstep] at hunary
  exact ⟨e, he, hunary⟩

/-- The levels read every ranked tree whose operators are of rank `k` or tighter, if a token follows
that ends it. -/
def ReadsFrom (fin : Location) (p : Parsers n) (k : Nat) (levels : List Level) : Prop :=
  ∀ (t : OperatorTree) {ts us : List Token} (h : ts.length ≤ n), t.Ranked →
    (∀ o ∈ t.operators, k ≤ o.rank) → Spelled t.spell ts us → EndsOperand levels (kindOf us) →
      ∃ e, e.withoutPlaces = t.toExpr ∧ (ladder fin p levels ts h).Yields e us

theorem ladder_cons_of_yields {level : Level} {tighter : List Level} {e : Expr} {h : ts.length ≤ n}
    (he : (ladder fin p tighter ts h).Yields e us) :
    ∃ hlt, ladder fin p (level :: tighter) ts h
      = operatorLoop level (ladder fin p tighter) e ts us hlt h := by
  obtain ⟨hlt, heq⟩ := he
  refine ⟨hlt, ?_⟩
  rw [ladder, heq]
  rfl

/-- If the tighter levels read the trees of tighter operators, then reading a tree at a level comes
to where it has read the tree and goes on with the loop of the level behind it. -/
theorem ladder_eq_operatorLoop {k : Nat} {level : Level} {tighter : List Level}
    (hlevels : levels.drop k = level :: tighter) (hread : ReadsFrom fin p (k + 1) tighter)
    (t : OperatorTree) (h : ts.length ≤ n) (ht : t.Ranked) (hk : ∀ o ∈ t.operators, k ≤ o.rank)
    (hs : Spelled t.spell ts us) (hend : EndsOperand tighter (kindOf us)) :
    ∃ e, e.withoutPlaces = t.toExpr ∧ ∃ hlt, ladder fin p (level :: tighter) ts h
      = operatorLoop level (ladder fin p tighter) e ts us hlt h := by
  induction t generalizing ts us with
  | leaf x =>
    obtain ⟨e, he, hyields⟩ := hread (.leaf x) h ht nofun hs hend
    exact ⟨e, he, ladder_cons_of_yields hyields⟩
  | node op l r ihl _ =>
    rcases Nat.eq_or_lt_of_le (hk op (by simp [OperatorTree.operators])) with rfl | hlt
    · -- The loop of this level has read the left side, and reads the operator and the right side.
      obtain ⟨level', hdrop, hop, -⟩ := exists_level op
      obtain ⟨rfl, rfl⟩ := List.cons.inj (hlevels.symm.trans hdrop)
      obtain ⟨hl, hr, hleft, hright⟩ := ht
      rw [OperatorTree.spell, OperatorTree.inOrder, List.map_append, spelled_append] at hs
      obtain ⟨_, hsl, l', ts', rfl, hsr⟩ := hs
      obtain ⟨a, ha, hlt, hloop⟩ := ihl h hl hleft hsl (endsOperand_token op)
      obtain ⟨b, hb, hyields⟩ :=
        hread r (length_le_bound (length_lt_of_succ hlt) h) hr hright hsr hend
      obtain ⟨hlt', hstep⟩ := operatorLoop_op (a := a) hlt h hop fun _ ↦ hyields
      refine ⟨.binary (.at l') op a b none, ?_, hlt', hloop.trans hstep⟩
      rw [Expr.withoutPlaces, ha, hb]
      rfl
    · -- The whole tree is an operand of this level.
      have htighter : ∀ o ∈ (OperatorTree.node op l r).operators, k + 1 ≤ o.rank :=
        fun o ho ↦ Nat.le_trans hlt (ht.rank_le o ho)
      obtain ⟨e, he, hyields⟩ := hread (.node op l r) h ht htighter hs hend
      exact ⟨e, he, ladder_cons_of_yields hyields⟩

theorem readsFrom_drop (k : Nat) : ReadsFrom fin p k (levels.drop k) := by
  induction hlevels : levels.drop k generalizing k with
  | nil =>
    intro t ts us h ht hk hs hend
    cases t with
    | leaf x => exact yields_unary_operand x hs hend.suffix hend.step
    | node op l r =>
      -- No operator binds more tightly than all levels.
      have hrank : k ≤ op.rank := hk op (by simp [OperatorTree.operators])
      obtain ⟨level, hdrop, -, -⟩ := exists_level op
      rw [List.drop_eq_nil_of_le (Nat.le_trans (List.drop_eq_nil_iff.mp hlevels) hrank)] at hdrop
      cases hdrop
  | cons level tighter ih =>
    intro t ts us h ht hk hs hend
    have htighter : levels.drop (k + 1) = tighter := by
      rw [← List.tail_drop, hlevels, List.tail_cons]
    obtain ⟨hlevel, hops⟩ := List.forall_mem_cons.mp hend.ops
    obtain ⟨e, he, hlt, hloop⟩ := ladder_eq_operatorLoop hlevels (ih (k + 1) htighter) t h ht hk
      hs ⟨hend.suffix, hend.step, hops⟩
    exact ⟨e, he, hlt, hloop.trans (operatorLoop_stop hlevel)⟩

/-! ## Scanning a row -/

/-- Behind an operand or operator of a row stands nothing or a blank. -/
def EndsRowPiece (cs : List Char) : Prop := ∀ c ∈ cs.head?, c = ' '

theorem EndsRowPiece.stops {cs : List Char} (h : EndsRowPiece cs) : Stops cs := by
  cases cs with
  | nil => trivial
  | cons c cs =>
    obtain rfl := h c rfl
    exact stops_cons (by decide) (by decide)

theorem kinds_rowText (x : Operand ⊕ BinaryOp) {cs : List Char} (hcs : EndsRowPiece cs) :
    kinds ((rowText x).toList ++ cs) = rowKind x :: kinds cs := by
  rcases x with (⟨digits, value, writes⟩ | ⟨word, identifier⟩) | op
  · exact (congrArg (fun ds ↦ kinds (ds ++ cs)) String.toList_ofList).trans
      (kinds_decimal writes hcs.stops)
  · exact kinds_word identifier.1 hcs.stops
  · rw [rowText, Sum.elim_inr, BinaryOp.symbol_eq_spelling]
    refine kinds_spelling op.token (by cases op <;> decide) fun d hd ↦ ?_
    obtain rfl := hcs d hd
    cases op <;> decide

theorem kinds_row (xs : List (Operand ⊕ BinaryOp)) :
    kinds (" ".intercalate (xs.map rowText)).toList = xs.map rowKind := by
  rw [String.toList_intercalate]
  induction xs with
  | nil => exact kinds_nil
  | cons x xs ih =>
    cases xs with
    | nil =>
      have hend : EndsRowPiece [] := nofun
      have hx := kinds_rowText x hend
      rw [List.append_nil, kinds_nil] at hx
      simpa using hx
    | cons y ys =>
      rw [List.map_cons, List.map_cons, List.map_cons, List.map_cons,
        List.intercalate_cons_cons, List.append_assoc]
      rw [kinds_rowText x (by rintro d ⟨⟩; rfl), List.map_cons]
      exact congrArg _ ((kinds_blank _).trans ih)

/-! ## Parsing a row -/

/-- Operands and binary operators with blanks between them parse, and to the one tree that has them
in this order and in which, at every operator, those to its left bind at least as tightly as it does
and those to its right more tightly. -/
theorem parseExpression_of_operatorRow (first : Operand) (more : List (BinaryOp × Operand)) :
    ∃ t : OperatorTree,
      (∀ t' : OperatorTree, t'.inOrder = operatorRow first more ∧ t'.Ranked ↔ t' = t) ∧
      ∃ e, parseExpression (" ".intercalate ((operatorRow first more).map rowText)) = .ok e ∧
        e.withoutPlaces = t.toExpr := by
  obtain ⟨t, hrow, ht⟩ := OperatorTree.exists_ranked first more
  refine ⟨t, fun t' ↦ ⟨fun h ↦ h.2.eq_of_inOrder ht (h.1.trans hrow.symm), ?_⟩, ?_⟩
  · rintro rfl
    exact ⟨hrow, ht⟩
  · have hs : Spelled t.spell _ [] := kinds_row t.inOrder ▸
      spelled_ofText (" ".intercalate (t.inOrder.map rowText))
    obtain ⟨e, he, hyields⟩ := readsFrom_drop 0 t (Nat.le_refl _) ht (fun _ _ ↦ Nat.zero_le _) hs
      ⟨endsExpr_eof.suffix, endsExpr_eof.step, endsExpr_eof.ops⟩
    rw [← hrow]
    exact ⟨e, parseExpression_of_expr (yields_assignment_of_ladder hyields endsExpr_eof), he⟩

end Scriptlet
