import Scriptlet.Proofs.Parse.Written
import Scriptlet.Proofs.Token.Kinds
import Scriptlet.Proofs.Tree.Induction
import Scriptlet.Tree.Text

/-!
# The tokens of a printed expression

The text of an expression leaves out the parentheses of the source and writes its own around every
operator. `Expr.spell` gives the tokens of that text directly from the tree, and `kinds_text` says
that scanning the text gives them: no two pieces that the text puts side by side run together.

This holds for the expressions that are made of whole numbers, strings, names, operators, calls,
members, indices and array literals. Floating numbers, typed arrays and everything with a body are
written in a way that does not always read back.
-/

namespace Scriptlet

/-! ## Expressions that read back -/

/-- The literal is not a floating number. -/
def Literal.isPlain : Literal → Bool
  | .double _ => false
  | _ => true

mutual

/-- The expression holds no floating number, no declaration, no typed array and no body. -/
def Expr.isPlain : Expr → Bool
  | .literal _ v => v.isPlain
  | .name .. | .variableRef .. | .constantRef .. | .this _ | .null _ | .empty _ => true
  | .unary _ _ e _ => e.isPlain
  | .binary _ _ a b _ => a.isPlain && b.isPlain
  | .coalesce _ a b => a.isPlain && b.isPlain
  | .ternary _ x a b _ => x.isPlain && a.isPlain && b.isPlain
  | .assign _ target v _ => target.isPlain && v.isPlain
  | .call _ target args _ => target.isPlain && exprsPlain args
  | .new _ target args _ => target.isPlain && exprsPlain args
  | .index _ target args _ => target.isPlain && exprsPlain args
  | .member _ target _ => target.isPlain
  | .array _ element items _ => element.isNone && exprsPlain items
  | .declare .. | .lambda .. | .block .. => false

/-- All expressions of a list are plain. -/
def exprsPlain : List Expr → Bool
  | [] => true
  | e :: es => e.isPlain && exprsPlain es

end

theorem isPlain_of_mem {e : Expr} {es : List Expr} (h : exprsPlain es) (he : e ∈ es) :
    e.isPlain := by
  induction es with
  | nil => cases he
  | cons d ds ih =>
    simp only [exprsPlain, Bool.and_eq_true] at h
    rcases List.mem_cons.mp he with rfl | he
    · exact h.1
    · exact ih h.2 he

/-- The expression is plain and one of the grammar, so that its text reads back. -/
inductive Expr.Legible : Expr → Prop where
  | int {l n} (hn : 0 ≤ n.toInt) : Legible (.literal (.at l) (.int n))
  | bool {l b} : Legible (.literal (.at l) (.bool b))
  | str {l s} (hs : '\x60' ∉ s.toList) : Legible (.literal (.at l) (.str s))
  | name {l x} (hx : IsIdentifier x) : Legible (.name (.at l) x)
  | variableRef {l x} (hx : IsWord x) : Legible (.variableRef (.at l) x)
  | constantRef {l x} (hx : IsWord x) : Legible (.constantRef (.at l) x)
  | unary {l op e} (he : Legible e) : Legible (.unary (.at l) op e none)
  | binary {l op a b} (ha : Legible a) (hb : Legible b) : Legible (.binary (.at l) op a b none)
  | coalesce {l a b} (ha : Legible a) (hb : Legible b) : Legible (.coalesce (.at l) a b)
  | ternary {l x a b} (hx : Legible x) (ha : Legible a) (hb : Legible b) :
      Legible (.ternary (.at l) x a b none)
  | assign {l target v} (ht : Legible target) (hv : Legible v) :
      Legible (.assign (.at l) target v none)
  | call {l target args} (ht : Legible target) (hlone : NotLone args)
      (hargs : ∀ e ∈ args, ¬e.Omitted → Legible e) : Legible (.call (.at l) target args none)
  | new {l target args} (ht : target.IsChain) (hlone : NotLone args)
      (hargs : ∀ e ∈ args, ¬e.Omitted → Legible e) : Legible (.new (.at l) target args none)
  | index {l target args} (ht : Legible target) (hlone : NotLone args)
      (hargs : ∀ e ∈ args, ¬e.Omitted → Legible e) : Legible (.index (.at l) target args none)
  | member {l target x} (ht : Legible target) (hx : IsWord x) :
      Legible (.member (.at l) target x)
  | array {l items} (hlone : NotLone items) (hitems : ∀ e ∈ items, ¬e.Omitted → Legible e) :
      Legible (.array (.at l) none items none)
  | this {l} : Legible (.this (.at l))
  | null {l} : Legible (.null (.at l))

section LegibleOfWritten

attribute [local simp] Expr.isPlain Literal.isPlain

theorem legible_items {es : List Expr} (ih : ∀ e ∈ es, e.isPlain → e.Written → e.Legible)
    (hplain : exprsPlain es) (hes : WrittenItems es) : ∀ e ∈ es, ¬e.Omitted → e.Legible :=
  fun e he homitted ↦ ih e he (isPlain_of_mem hplain he) (hes e he homitted)

theorem legible_cases :
    Tree.Cases (fun e ↦ e.isPlain → e.Written → e.Legible) (fun _ ↦ True) where
  literal _ v := by
    intro hplain h
    cases h with
    | literal hv =>
      cases v with
      | int n => exact .int hv
      | double x => cases hplain
      | str s => exact .str hv
      | bool b => exact .bool
  name _ _ := by
    intro _ h
    cases h with
    | name hx => exact .name hx
  variableRef _ _ := by
    intro _ h
    cases h with
    | variableRef hx => exact .variableRef hx
  constantRef _ _ := by
    intro _ h
    cases h with
    | constantRef hx => exact .constantRef hx
  unary _ _ _ _ he := by
    intro hplain h
    cases h with
    | unary hw => exact .unary (he (by simpa using hplain) hw)
  binary _ _ _ _ _ ha hb := by
    intro hplain h
    cases h with
    | binary hwa hwb =>
      simp only [Expr.isPlain, Bool.and_eq_true] at hplain
      exact .binary (ha hplain.1 hwa) (hb hplain.2 hwb)
  coalesce _ _ _ ha hb := by
    intro hplain h
    cases h with
    | coalesce hwa hwb =>
      simp only [Expr.isPlain, Bool.and_eq_true] at hplain
      exact .coalesce (ha hplain.1 hwa) (hb hplain.2 hwb)
  ternary _ _ _ _ _ hx ha hb := by
    intro hplain h
    cases h with
    | ternary hwx hwa hwb =>
      simp only [Expr.isPlain, Bool.and_eq_true] at hplain
      exact .ternary (hx hplain.1.1 hwx) (ha hplain.1.2 hwa) (hb hplain.2 hwb)
  assign _ _ _ _ ht hv := by
    intro hplain h
    cases h with
    | assign hwt hwv =>
      simp only [Expr.isPlain, Bool.and_eq_true] at hplain
      exact .assign (ht hplain.1 hwt) (hv hplain.2 hwv)
  call _ _ _ _ ht hargs := by
    intro hplain h
    cases h with
    | call hwt hlone hwargs =>
      simp only [Expr.isPlain, Bool.and_eq_true] at hplain
      exact .call (ht hplain.1 hwt) hlone (legible_items hargs hplain.2 hwargs)
  new _ _ _ _ _ hargs := by
    intro hplain h
    cases h with
    | new hchain hlone hwargs =>
      simp only [Expr.isPlain, Bool.and_eq_true] at hplain
      exact .new hchain hlone (legible_items hargs hplain.2 hwargs)
  index _ _ _ _ ht hargs := by
    intro hplain h
    cases h with
    | index hwt hlone hwargs =>
      simp only [Expr.isPlain, Bool.and_eq_true] at hplain
      exact .index (ht hplain.1 hwt) hlone (legible_items hargs hplain.2 hwargs)
  member _ _ _ ht := by
    intro hplain h
    cases h with
    | member hwt hx => exact .member (ht (by simpa using hplain) hwt) hx
  declare _ _ _ _ _ _ := by simp
  array _ ty _ _ hitems := by
    intro hplain h
    cases h with
    | array hlone hwitems =>
      simp only [Expr.isPlain, Bool.and_eq_true, Option.isNone_iff_eq_none] at hplain
      obtain ⟨rfl, hplain⟩ := hplain
      exact .array hlone (legible_items hitems hplain hwitems)
  lambda _ _ _ _ := by simp
  this _ := by
    intro _ h
    cases h with
    | this => exact .this
  null _ := by
    intro _ h
    cases h with
    | null => exact .null
  block _ _ _ := by simp
  empty _ := nofun
  exprStatement _ _ := trivial
  blockStatement _ _ _ := trivial
  cond _ _ _ _ _ _ _ := trivial
  ret _ _ _ _ := trivial
  throw _ _ _ := trivial
  vars _ _ _ := trivial
  function _ _ _ _ := trivial

theorem Expr.Written.legible {e : Expr} (h : e.Written) (hplain : e.isPlain) : e.Legible :=
  legible_cases.expr e hplain h

end LegibleOfWritten

/-! ## Spelling -/

/-- The symbol that writes the operator. -/
def BinaryOp.token : BinaryOp → Symbol
  | .add => .plus | .sub => .minus | .mul => .star | .div => .slash | .mod => .percent
  | .eq => .eqEq | .ne => .notEq | .lt => .lt | .le => .le | .gt => .gt | .ge => .ge
  | .and => .ampAmp | .or => .pipePipe
  | .bitAnd => .amp | .bitOr => .pipe | .bitXor => .caret | .shl => .ltLt | .shr => .gtGt

theorem BinaryOp.symbol_eq_spelling (op : BinaryOp) : op.symbol = op.token.spelling := by
  cases op <;> rfl

/-- The tokens between parentheses. -/
def inParens (ks : List TokenKind) : List TokenKind :=
  .symbol .openParen :: (ks ++ [.symbol .closeParen])

/-- The tokens between brackets. -/
def inBrackets (ks : List TokenKind) : List TokenKind :=
  .symbol .openBracket :: (ks ++ [.symbol .closeBracket])

/-- Pieces with commas between them. -/
def commaed (kss : List (List TokenKind)) : List TokenKind := [.symbol .comma].intercalate kss

/-- The token of a literal; a floating number is not spelled. -/
def Literal.spell : Literal → List TokenKind
  | .int n => [.number (.int n)]
  | .str s => [.str s]
  | .bool b => [.word (if b then "true" else "false")]
  | .double _ => []

mutual

/-- The tokens of an expression's text, for an expression that is plain. -/
def Expr.spell : Expr → List TokenKind
  | .literal _ v => v.spell
  | .name _ x => [.word x]
  | .variableRef _ x => [.symbol .at, .word x]
  | .constantRef _ x => [.symbol .underscore, .word x]
  | .unary _ op e _ =>
    match op with
    | .group => e.spell
    | .neg => inParens (.symbol .minus :: e.spell)
    | .plus => inParens (.symbol .plus :: e.spell)
    | .not => inParens (.symbol .bang :: e.spell)
    | .preInc => inParens (.symbol .plusPlus :: e.spell)
    | .preDec => inParens (.symbol .minusMinus :: e.spell)
    | .postInc => inParens (e.spell ++ [.symbol .plusPlus])
    | .postDec => inParens (e.spell ++ [.symbol .minusMinus])
  | .binary _ op a b _ => inParens (a.spell ++ .symbol op.token :: b.spell)
  | .coalesce _ a b => inParens (a.spell ++ .symbol .questionQuestion :: b.spell)
  | .ternary _ x a b _ =>
    inParens (x.spell ++ .symbol .question :: (a.spell ++ .symbol .colon :: b.spell))
  | .assign _ target v _ => inParens (target.spell ++ .symbol .eq :: v.spell)
  | .call _ target args _ => target.spell ++ inParens (commaed (exprSpells args))
  | .new _ target args _ =>
    .word "new" :: (target.spell ++ inParens (commaed (exprSpells args)))
  | .index _ target args _ => target.spell ++ inBrackets (commaed (exprSpells args))
  | .member _ target x => target.spell ++ [.symbol .dot, .word x]
  | .array _ _ items _ => inBrackets (commaed (exprSpells items))
  | .this _ => [.word "this"]
  | .null _ => [.word "null"]
  | .declare .. | .lambda .. | .block .. | .empty _ => []

/-- The tokens of each expression of a list. -/
def exprSpells : List Expr → List (List TokenKind)
  | [] => []
  | e :: es => e.spell :: exprSpells es

end

/-! ## Scanning the text -/

theorem stops_cons {c : Char} {cs : List Char} (hc : Text.isWordChar c = false) (hdot : c ≠ '.') :
    Stops (c :: cs) :=
  ⟨hc, fun h ↦ absurd h hdot⟩

/-- A point before a word belongs to no number. -/
theorem stops_dot {w : String} {cs : List Char} (hw : IsWord w) :
    Stops (".".toList ++ (w.toList ++ cs)) := by
  obtain ⟨c, ds, rfl, hc, -⟩ := hw
  refine ⟨by decide, fun _ d hd ↦ ?_⟩
  rw [String.toList_ofList] at hd
  obtain rfl : c = d := Option.some.inj hd
  exact Text.isDigit_of_isLetter hc

section Scan

variable {cs : List Char}

theorem kinds_nothing : kinds ("".toList ++ cs) = kinds cs := rfl

theorem kinds_space : kinds (" ".toList ++ cs) = kinds cs := kinds_blank cs

/-- A symbol that nothing can complete gives its token whatever follows. -/
theorem kinds_symbol (s : Symbol) (hs : s ≠ .underscore) (hnone : s.completions = []) :
    kinds (s.spelling.toList ++ cs) = .symbol s :: kinds cs :=
  kinds_spelling s hs (by simp [hnone])

/-- So does any symbol before a blank. -/
theorem kinds_symbol_space (s : Symbol) (hs : s ≠ .underscore) :
    kinds (s.spelling.toList ++ (" ".toList ++ cs)) = .symbol s :: kinds cs := by
  rw [kinds_spelling s hs, kinds_space]
  intro d hd
  obtain rfl : ' ' = d := Option.some.inj hd
  cases s <;> decide

theorem kinds_openParen : kinds ("(".toList ++ cs) = .symbol .openParen :: kinds cs :=
  kinds_symbol .openParen nofun rfl

theorem kinds_at : kinds ("@".toList ++ cs) = .symbol .at :: kinds cs :=
  kinds_symbol .at nofun rfl

theorem kinds_closeParen : kinds (")".toList ++ cs) = .symbol .closeParen :: kinds cs :=
  kinds_symbol .closeParen nofun rfl

theorem kinds_openBracket : kinds ("[".toList ++ cs) = .symbol .openBracket :: kinds cs :=
  kinds_symbol .openBracket nofun rfl

theorem kinds_closeBracket : kinds ("]".toList ++ cs) = .symbol .closeBracket :: kinds cs :=
  kinds_symbol .closeBracket nofun rfl

theorem kinds_comma : kinds (", ".toList ++ cs) = .symbol .comma :: kinds cs :=
  kinds_symbol_space .comma nofun

/-- A symbol between blanks. -/
theorem kinds_spaced (s : Symbol) (hs : s ≠ .underscore) :
    kinds ((" " ++ s.spelling ++ " ").toList ++ cs) = .symbol s :: kinds cs := by
  rw [String.toList_append, String.toList_append, List.append_assoc, List.append_assoc, kinds_space,
    kinds_symbol_space s hs]

theorem kinds_questionQuestion :
    kinds (" ?? ".toList ++ cs) = .symbol .questionQuestion :: kinds cs :=
  kinds_spaced .questionQuestion nofun

theorem kinds_question : kinds (" ? ".toList ++ cs) = .symbol .question :: kinds cs :=
  kinds_spaced .question nofun

theorem kinds_colon : kinds (" : ".toList ++ cs) = .symbol .colon :: kinds cs :=
  kinds_spaced .colon nofun

theorem kinds_eq : kinds (" = ".toList ++ cs) = .symbol .eq :: kinds cs :=
  kinds_spaced .eq nofun

theorem kinds_dot : kinds (".".toList ++ cs) = .symbol .dot :: kinds cs :=
  kinds_symbol .dot nofun rfl

theorem isWord_ofList (c : Char) (ds : List Char) (hc : Text.isLetter c = true)
    (hds : ds.all Text.isWordChar = true) : IsWord (String.ofList (c :: ds)) :=
  ⟨c, ds, rfl, hc, List.all_eq_true.mp hds⟩

theorem kinds_new : kinds ("new ".toList ++ cs) = .word "new" :: kinds cs := by
  have hnew : kinds ("new".toList ++ ' ' :: cs) = .word "new" :: kinds (' ' :: cs) :=
    kinds_word (isWord_ofList 'n' ['e', 'w'] rfl rfl) (stops_cons (by decide) (by decide))
  rw [kinds_blank] at hnew
  exact hnew

theorem kinds_operator (op : BinaryOp) :
    kinds (op.symbol.toList ++ (" ".toList ++ cs)) = .symbol op.token :: kinds cs := by
  rw [op.symbol_eq_spelling, kinds_symbol_space]
  cases op <;> nofun

theorem isWord_truth (b : Bool) : IsWord (if b then "true" else "false") := by
  cases b with
  | false => exact isWord_ofList 'f' ['a', 'l', 's', 'e'] rfl rfl
  | true => exact isWord_ofList 't' ['r', 'u', 'e'] rfl rfl

/-- The text begins, and with no character that completes a sign before it. -/
def StartsApart (cs : List Char) : Prop := ∃ c ∈ cs.head?, c ∉ ['-', '>', '+', '=']

theorem StartsApart.append (h : StartsApart cs) (ds : List Char) : StartsApart (cs ++ ds) := by
  obtain ⟨c, hc, hapart⟩ := h
  exact ⟨c, by simp [List.head?_append, Option.mem_def.mp hc], hapart⟩

theorem StartsApart.notMem {s : Symbol} (h : StartsApart cs)
    (hs : s.completions ⊆ ['-', '>', '+', '=']) : ∀ d ∈ cs.head?, d ∉ s.completions := by
  obtain ⟨c, hc, hapart⟩ := h
  intro d hd hmem
  obtain rfl : c = d := Option.some.inj (hc.symm.trans hd)
  exact hapart (hs hmem)

theorem startsApart_of_isWordChar {c : Char} (h : Text.isWordChar c) : StartsApart (c :: cs) := by
  refine ⟨c, rfl, fun hc ↦ ?_⟩
  simp only [List.mem_cons, List.not_mem_nil, or_false] at hc
  rcases hc with rfl | rfl | rfl | rfl <;> exact absurd h (by decide)

theorem startsApart_word {w : String} (h : IsWord w) : StartsApart w.toList := by
  obtain ⟨c, ds, rfl, hc, -⟩ := h
  rw [String.toList_ofList]
  exact startsApart_of_isWordChar (Text.isWordChar_of_isLetter hc)

theorem startsApart_number {n : Int64} (h : 0 ≤ n.toInt) : StartsApart (Whole.text n).toList := by
  obtain ⟨c, ds, hds, hc⟩ := (writesDecimal_text h).exists_cons
  rw [hds]
  exact startsApart_of_isWordChar (Text.isWordChar_of_isDigit hc)

theorem Expr.Legible.startsApart {e : Expr} (h : e.Legible) : StartsApart e.text.toList := by
  induction h with
  | int hn => exact startsApart_number hn
  | bool => exact startsApart_word (isWord_truth _)
  | str hs =>
    simp only [Expr.text, Literal.text, String.toList_append, List.append_assoc]
    exact ⟨_, rfl, by decide⟩
  | name hx => exact startsApart_word hx.1
  | @unary _ op e _ ih =>
    cases op with
    | group => simpa only [Expr.text] using ih
    | _ =>
      simp only [Expr.text, String.toList_append, List.append_assoc]
      exact ⟨_, rfl, by decide⟩
  | call _ _ _ ih | index _ _ _ ih | member _ _ ih =>
    simp only [Expr.text, String.toList_append, List.append_assoc]
    exact ih.append _
  | _ =>
    simp only [Expr.text, String.toList_append, List.append_assoc]
    exact ⟨_, rfl, by decide⟩

/-- The expression's text scans as it is spelled, before anything that ends a word. -/
def Expr.Scans (e : Expr) : Prop :=
  ∀ ⦃cs⦄, Stops cs → kinds (e.text.toList ++ cs) = e.spell ++ kinds cs

theorem Expr.Omitted.scans {e : Expr} (h : e.Omitted) : e.Scans := by
  obtain ⟨l, rfl⟩ := h
  exact fun _ _ ↦ rfl

theorem kinds_items {es : List Expr} (hes : ∀ e ∈ es, ¬e.Omitted → e.Scans) (hcs : Stops cs) :
    kinds ((", ".intercalate (exprTexts es)).toList ++ cs)
      = commaed (exprSpells es) ++ kinds cs := by
  induction es with
  | nil => rfl
  | cons e es ih =>
    obtain ⟨he, hes⟩ := List.forall_mem_cons.mp hes
    have he : e.Scans := by
      by_cases homitted : e.Omitted
      · exact homitted.scans
      · exact he homitted
    cases es with
    | nil =>
      simp only [exprTexts, exprSpells, commaed, String.intercalate_singleton,
        List.intercalate_singleton]
      exact he hcs
    | cons d ds =>
      specialize ih hes
      simp only [exprTexts, exprSpells, commaed, String.intercalate_cons_cons,
        List.intercalate_cons_cons, String.toList_append, List.append_assoc] at ih ⊢
      rw [he, kinds_comma, ih]
      · rfl
      · exact stops_cons (by decide) (by decide)

/-- A sign before an operand. -/
theorem kinds_signed {e : Expr} (s : Symbol) (hs : s ≠ .underscore)
    (hcompletions : s.completions ⊆ ['-', '>', '+', '=']) (he : e.Legible) (hscans : e.Scans) :
    kinds (("(" ++ s.spelling ++ e.text ++ ")").toList ++ cs)
      = inParens (.symbol s :: e.spell) ++ kinds cs := by
  simp only [inParens, String.toList_append, List.append_assoc, List.cons_append, List.nil_append]
  rw [kinds_openParen, kinds_spelling s hs, hscans, kinds_closeParen]
  · exact stops_cons (by decide) (by decide)
  · exact (he.startsApart.append _).notMem hcompletions

/-- A sign of two characters behind an operand. -/
theorem kinds_stepped {e : Expr} (s : Symbol) (hs : s ≠ .underscore) (hnone : s.completions = [])
    (hstops : ∀ cs, Stops (s.spelling.toList ++ cs)) (hscans : e.Scans) :
    kinds (("(" ++ e.text ++ (s.spelling ++ ")")).toList ++ cs)
      = inParens (e.spell ++ [.symbol s]) ++ kinds cs := by
  simp only [inParens, String.toList_append, List.append_assoc, List.cons_append, List.nil_append]
  rw [kinds_openParen, hscans (hstops _), kinds_symbol s hs hnone, kinds_closeParen]

theorem scans_unary {n : Node} {op : UnaryOp} {e : Expr} {t : Option OperatorTarget}
    (he : e.Legible) (hscans : e.Scans) : (Expr.unary n op e t).Scans := by
  intro cs hcs
  cases op with
  | group => exact hscans hcs
  | neg => exact kinds_signed .minus nofun (by decide) he hscans
  | plus => exact kinds_signed .plus nofun (by decide) he hscans
  | not => exact kinds_signed .bang nofun (by decide) he hscans
  | preInc => exact kinds_signed .plusPlus nofun (by decide) he hscans
  | preDec => exact kinds_signed .minusMinus nofun (by decide) he hscans
  | postInc =>
    exact kinds_stepped .plusPlus nofun rfl (fun _ ↦ stops_cons (by decide) (by decide)) hscans
  | postDec =>
    exact kinds_stepped .minusMinus nofun rfl (fun _ ↦ stops_cons (by decide) (by decide)) hscans

theorem scans_member {n : Node} {target : Expr} {x : String} (ht : target.Scans) (hx : IsWord x) :
    (Expr.member n target x).Scans := by
  intro cs hcs
  simp only [Expr.text, Expr.spell, String.toList_append, List.append_assoc,
    List.cons_append, List.nil_append]
  rw [ht (stops_dot hx), kinds_dot, kinds_word hx hcs]

theorem Expr.IsChain.scans {e : Expr} (h : e.IsChain) : e.Scans := by
  induction h with
  | name hx => exact fun cs hcs ↦ kinds_word hx.1 hcs
  | member _ hx ih => exact scans_member ih hx.1

theorem Expr.Legible.scans {e : Expr} (h : e.Legible) : e.Scans := by
  induction h with
  | unary he ih => exact scans_unary he ih
  | member _ hx ih => exact scans_member ih hx
  | int hn => exact fun _ ↦ kinds_number hn
  | bool => exact fun _ ↦ kinds_word (isWord_truth _)
  | name hx => exact fun _ ↦ kinds_word hx.1
  | this => exact fun _ ↦ kinds_word (isWord_ofList 't' ['h', 'i', 's'] rfl rfl)
  | null => exact fun _ ↦ kinds_word (isWord_ofList 'n' ['u', 'l', 'l'] rfl rfl)
  | str hs =>
    intro cs hcs
    simp only [Expr.text, Literal.text, String.toList_append, List.append_assoc]
    exact kinds_string hs
  | variableRef hx =>
    intro cs hcs
    simp only [Expr.text, String.toList_append, List.append_assoc]
    rw [kinds_at, kinds_word hx hcs]
    rfl
  | constantRef hx =>
    intro cs hcs
    simp only [Expr.text, String.toList_append, List.append_assoc]
    exact kinds_underscore hx hcs
  | binary _ _ iha ihb =>
    intro cs hcs
    simp only [Expr.text, Expr.spell, inParens, String.toList_append, List.append_assoc,
      List.cons_append, List.nil_append]
    rw [kinds_openParen, iha, kinds_space, kinds_operator, ihb, kinds_closeParen]
    all_goals exact stops_cons (by decide) (by decide)
  | coalesce _ _ iha ihb =>
    intro cs hcs
    simp only [Expr.text, Expr.spell, inParens, String.toList_append, List.append_assoc,
      List.cons_append, List.nil_append]
    rw [kinds_openParen, iha, kinds_questionQuestion, ihb, kinds_closeParen]
    all_goals exact stops_cons (by decide) (by decide)
  | ternary _ _ _ ihx iha ihb =>
    intro cs hcs
    simp only [Expr.text, Expr.spell, inParens, String.toList_append, List.append_assoc,
      List.cons_append, List.nil_append]
    rw [kinds_openParen, ihx, kinds_question, iha, kinds_colon, ihb, kinds_closeParen]
    all_goals exact stops_cons (by decide) (by decide)
  | assign _ _ iht ihv =>
    intro cs hcs
    simp only [Expr.text, Expr.spell, inParens, String.toList_append, List.append_assoc,
      List.cons_append, List.nil_append]
    rw [kinds_openParen, iht, kinds_eq, ihv, kinds_closeParen]
    all_goals exact stops_cons (by decide) (by decide)
  | call _ _ _ iht ihargs =>
    intro cs hcs
    simp only [Expr.text, Expr.spell, inParens, String.toList_append, List.append_assoc,
      List.cons_append, List.nil_append]
    rw [iht, kinds_openParen, kinds_items ihargs, kinds_closeParen]
    all_goals exact stops_cons (by decide) (by decide)
  | new ht _ _ ihargs =>
    intro cs hcs
    simp only [Expr.text, Expr.spell, inParens, String.toList_append, List.append_assoc,
      List.cons_append, List.nil_append]
    rw [kinds_new, ht.scans, kinds_openParen, kinds_items ihargs, kinds_closeParen]
    all_goals exact stops_cons (by decide) (by decide)
  | index _ _ _ iht ihargs =>
    intro cs hcs
    simp only [Expr.text, Expr.spell, inBrackets, String.toList_append, List.append_assoc,
      List.cons_append, List.nil_append]
    rw [iht, kinds_openBracket, kinds_items ihargs, kinds_closeBracket]
    all_goals exact stops_cons (by decide) (by decide)
  | array _ _ ihitems =>
    intro cs hcs
    simp only [Expr.text, Expr.spell, inBrackets, String.toList_append, List.append_assoc,
      List.cons_append, List.nil_append]
    rw [kinds_nothing, kinds_openBracket, kinds_items ihitems, kinds_closeBracket]
    exact stops_cons (by decide) (by decide)

end Scan

/-- The tokens of an expression's text are as it is spelled. -/
theorem Expr.Legible.kinds_text {e : Expr} (h : e.Legible) : kinds e.text.toList = e.spell := by
  have hscan := h.scans (show Stops [] from trivial)
  rwa [List.append_nil, kinds_nil, List.append_nil] at hscan

end Scriptlet
