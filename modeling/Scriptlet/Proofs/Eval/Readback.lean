import Scriptlet.Proofs.Parse.RoundTrip
import Scriptlet.Proofs.Parse.Sequel.Texts
import Scriptlet.Proofs.Whole
import Scriptlet.Script

/-!
# Texts of whole numbers as scripts

The text of a whole number is a script: a number literal, or a minus sign before one. A sign is not
part of a literal, so the number that is negated is the one without it, and this does not fit if the
number was the least one. Its literal is then a double, and so is what the script gives.
-/

namespace Scriptlet

open Parse Reply

/-- A number as a literal of the tree. -/
def Number.literal : Number → Literal
  | .int n => .int n
  | .double x => .double x

variable {n : Nat} {fin l l' : Location} {p : Parsers n} {ts us : List Token} {e : Expr}

/-! ## Scripts of one or two tokens -/

theorem yields_unary_number (x : Number) {h : (⟨.number x, l⟩ :: us : List Token).length ≤ n}
    (hus : EndsExpr (kindOf us)) :
    (unary fin p (⟨.number x, l⟩ :: us) h).Yields (.literal (.at l) x.literal) us := by
  have hprimary : (primary fin p (⟨.number x, l⟩ :: us) h).Yields
      (.literal (.at l) x.literal) us := by
    cases x with
    | int i => exact yields_one
    | double d => exact yields_one
  obtain ⟨hlt, happlied⟩ := applied_of_primary hprimary
  have hunary := yields_unary_of_applied rfl ⟨hlt, happlied.trans (suffixes_stop hus.suffix)⟩
  rwa [increments_stop hus.step] at hunary

/-- What begins no other statement is an expression. -/
theorem yields_statement {t : Token} {h : (t :: ts).length ≤ n}
    (hbrace : t.kind ≠ .symbol .openBrace) (hword : ∀ w, t.kind ≠ .word w)
    (he : (assignment fin p (t :: ts) h).Yields e us) :
    (statement fin p (t :: ts) h).Yields (.expr e) us := by
  rw [statement]
  split
  · rename_i hkind
    exact absurd hkind hbrace
  · rename_i w hkind
    exact absurd hkind (hword w)
  · exact he.map _

theorem program_of_expr {t : Token} (hsemicolon : t.kind ≠ .symbol .semicolon)
    (hbrace : t.kind ≠ .symbol .openBrace) (hword : ∀ w, t.kind ≠ .word w)
    (he : (unary fin (parsers fin (t :: ts).length) (t :: ts) (Nat.le_refl _)).Yields e []) :
    Reader.program ⟨t :: ts, fin⟩ = .ok [.expr e] := by
  have hstatement := yields_statement hbrace hword (yields_assignment_of_unary he endsExpr_eof)
  exact Reader.program_cons (skipTerminators_stop hsemicolon) hstatement (Reader.program_nil fin)

theorem program_number (x : Number) :
    Reader.program ⟨[⟨.number x, l⟩], fin⟩ = .ok [.expr (.literal (.at l) x.literal)] :=
  program_of_expr nofun nofun nofun (yields_unary_number x endsExpr_eof)

theorem program_negative (x : Number) :
    Reader.program ⟨[⟨.symbol .minus, l⟩, ⟨.number x, l'⟩], fin⟩
      = .ok [.expr (.unary (.at l) .neg (.literal (.at l') x.literal) none)] :=
  program_of_expr nofun nofun nofun
    (yields_signed rfl fun _ ↦ yields_unary_number x endsExpr_eof)

variable {limit : Nat} {source : String} {env : Environment} {x : Number}

/-- A script that is one expression has its value. -/
theorem Eval.program_of_expr {v : Value} {env' : Environment}
    (h : Eval.expr (call limit limit) e env = (.ok v, env')) :
    program limit [.expr e] env = (.ok v, env') := by
  simp only [program, statements, statement, Bind.bind, Eval.bind, h]
  rfl

theorem Eval.expr_negated {invoke : String → List Value → Location → Eval Value} {a : Literal}
    {v : Value} (hv : a.value.unary .neg l = .ok v) :
    expr invoke (.unary (.at l) .neg (.literal (.at l') a) none) env = (.ok v, env) := by
  simp only [expr, Bind.bind, Eval.bind, Pure.pure, Eval.pure, lift, Node.at, hv,
    UnaryOp.isMutating]
  rfl

theorem parseProgram_of_tokens (h : (Reader.ofText source).tokens = ts) :
    parseProgram source = Reader.program ⟨ts, (Reader.ofText source).fin⟩ := by
  rw [← h, parseProgram]

/-- A script that is a number gives it. -/
theorem runWith_number (h : kinds source.toList = [.number x]) :
    runWith limit source env = (.ok x.literal.value, env) := by
  have hspelled := spelled_ofText source
  rw [h] at hspelled
  obtain ⟨l, _, hts, rfl⟩ := hspelled
  rw [runWith, parseProgram_of_tokens hts, program_number]
  rfl

/-- A script that is a number behind a minus sign negates it. -/
theorem runWith_negative (h : kinds source.toList = [.symbol .minus, .number x]) {v : Value}
    (hv : ∀ l, x.literal.value.unary .neg l = .ok v) :
    runWith limit source env = (.ok v, env) := by
  have hspelled := spelled_ofText source
  rw [h] at hspelled
  obtain ⟨l, _, hts, l', _, rfl, rfl⟩ := hspelled
  rw [runWith, parseProgram_of_tokens hts, program_negative]
  simp only [Eval.program_of_expr (Eval.expr_negated (hv l))]
  rfl

/-! ## Texts of whole numbers -/

/-- A negative number that has an opposite is written as a minus sign and the text of that. -/
theorem Whole.text_of_opposite {m n : Int64} (hn : n.toInt < 0) (hm : m.toInt = -n.toInt) :
    (text n).toList = Symbol.minus.spelling.toList ++ (text m).toList := by
  have hdigits := text_eq_toDigits (n := m) (by omega)
  rw [hdigits, hm, Int.natAbs_neg, text]
  simp [hn, Symbol.spelling]

theorem kinds_text (n : Int64) (hn : 0 ≤ n.toInt) :
    kinds (Whole.text n).toList = [.number (.int n)] := by
  have hkinds : kinds ((Whole.text n).toList ++ []) = _ := kinds_number hn trivial
  rwa [List.append_nil, kinds_nil] at hkinds

theorem kinds_text_of_opposite {m n : Int64} (hn : n.toInt < 0) (hm : m.toInt = -n.toInt) :
    kinds (Whole.text n).toList = [.symbol .minus, .number (.int m)] := by
  have hm0 : 0 ≤ m.toInt := by omega
  rw [Whole.text_of_opposite hn hm, kinds_spelling .minus nofun, kinds_text m hm0]
  exact (startsApart_number hm0).notMem (by decide)

theorem kinds_text_least : kinds (Whole.text Int64.minValue).toList
    = [.symbol .minus, .number (.double (.finite false (2 ^ 52) 11))] := by
  decide +kernel

theorem runWith_text_least (limit : Nat) (env : Environment) :
    runWith limit (Whole.text Int64.minValue) env
      = (.ok (.double (.finite true (2 ^ 52) 11)), env) :=
  runWith_negative kinds_text_least fun _ ↦ rfl

/-- Run as a script, the text of a whole number gives the number and leaves the environment as it
is; but the text of the least number gives the double of its value, `-2 ^ 63`. -/
theorem runWith_text (limit : Nat) (n : Int64) (env : Environment) :
    runWith limit (Value.int n).text env
      = (.ok (if n = Int64.minValue then .double (.finite true (2 ^ 52) 11) else .int n), env) := by
  rw [Value.text]
  by_cases hleast : n = Int64.minValue
  · rw [if_pos hleast, hleast]
    exact runWith_text_least limit env
  · rw [if_neg hleast]
    by_cases hn : 0 ≤ n.toInt
    · exact runWith_number (kinds_text n hn)
    · -- only the least of the negative numbers has no opposite
      have hfits : Whole.Fits (-n.toInt) := by
        have hle := n.le_toInt
        have hne : n.toInt ≠ Int64.minValue.toInt := fun h ↦ hleast (Int64.toInt_inj.mp h)
        have hmin : Int64.minValue.toInt = -2 ^ 63 := by decide
        exact ⟨by omega, by omega⟩
      obtain ⟨m, -, hm⟩ := Whole.ofInt?_of_fits hfits
      refine runWith_negative (kinds_text_of_opposite (by omega) hm) fun l ↦ ?_
      have hopposite : -m.toInt = n.toInt := by omega
      simp only [Number.literal, Literal.value, Value.unary, hopposite, Whole.ofInt?_toInt]

/-- The minus sign is no part of a literal, so the literal in the text of the least number is the
one that does not fit. -/
theorem run_text_not_same :
    (run (Value.int Int64.minValue).text .empty).1 = .ok (.double (.finite true (2 ^ 52) 11))
      ∧ ¬∀ (n : Int64) (env : Environment), (run (Value.int n).text env).1 = .ok (.int n) := by
  have hleast : (run (Value.int Int64.minValue).text .empty).1
      = .ok (.double (.finite true (2 ^ 52) 11)) := by
    rw [Value.text, run, runWith_text_least]
  refine ⟨hleast, fun h ↦ ?_⟩
  rw [h] at hleast
  cases hleast

end Scriptlet
