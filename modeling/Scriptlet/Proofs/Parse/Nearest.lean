import Scriptlet.Proofs.Parse.Everywhere

/-!
# An `else` belongs to the nearest `if`

In a tree this shows where an `if` has an `else`: the statement before that `else` is then not open,
since an open one would have been nearer. It holds at every `if` of a program, also in the bodies of
functions and lambdas and in blocks that stand in expressions.

The other side is what becomes of the tokens when there is no `else`. The search for one may have
passed any number of semicolons, and all of them are there again: the reading of the `if` ends where
that of its branch ended.
-/

namespace Scriptlet

/-- The statement before an `else` is not open. -/
def Statement.ElseNearest : Statement → Prop
  | .cond _ _ a (some _) => ¬a.IsOpen
  | _ => True

theorem parsedNodes_elseNearest : ParsedNodes (fun _ ↦ True) Statement.ElseNearest where
  literal _ _ _ := trivial
  expr _ _ := trivial
  cond l x a b hopen := by
    cases b with
    | none => trivial
    | some b => exact fun h ↦ Option.some_ne_none b (hopen h)
  statement st hst := by
    cases st with
    | cond l x a b => cases hst
    | _ => trivial

namespace Parse

/-- An `if` that is given back without an `else`: the tokens are its first word and a parenthesis,
then those of the condition up to the closing parenthesis, then those of the branch. What is left is
what the branch left, and no `else` stands there or past semicolons. -/
theorem rest_of_branch {fin : Location} {n : Nat} {ts : List Token} {h : ts.length < n}
    {l : Location} {x : Expr} {a : Statement} {rest : List Token} {hrest : rest.length < ts.length}
    (heq : (parsers fin n).statement ts h = .ok (.cond l x a none) rest hrest) :
    ∃ m l₁ l₂ ts₁ us hx hus ha hrest',
      ts = ⟨.word "if", l⟩ :: ⟨.symbol .openParen, l₁⟩ :: ts₁ ∧
      (parsers fin m).expr ts₁ hx = .ok x (⟨.symbol .closeParen, l₂⟩ :: us) hus ∧
      (parsers fin m).statement us ha = .ok a rest hrest' ∧
      kindOf (skipTerminators rest) ≠ .word "else" := by
  cases n with
  | zero => exact absurd h (Nat.not_lt_zero _)
  | succ m =>
    obtain ⟨l', vs, hvs, _, rfl, hcond⟩ := of_statement_cond heq
    obtain ⟨rest₁, rest₂, rest₃, rest₄, x', a', h₁, h₂, h₃, h₄, hx, ha, hopen, hexpr, hclose,
      hbranch, hend⟩ := of_condition hcond
    obtain ⟨l₁, rfl⟩ := of_expect hopen
    obtain ⟨l₂, rfl⟩ := of_expect hclose
    rcases hend with ⟨hst, rfl, helse⟩ | ⟨t, us, b, hb, h₅, -, -, -, hst⟩
    · obtain ⟨rfl, rfl, rfl, -⟩ := Statement.cond.inj hst
      exact ⟨m, l₁, l₂, rest₁, rest₃, hx, h₂, ha, h₄, rfl, hexpr, hbranch, helse⟩
    · cases (Statement.cond.inj hst).2.2.2

end Parse

/-- An `else` belongs to the nearest `if` that could have it: nowhere in a parsed program does an
`if` with an `else` have an open statement before it. And an `if` that is given back without an
`else`, by whichever parser, leaves exactly the tokens that its branch left, so that semicolons that
were passed in search of an `else` are still there. -/
theorem else_nearest :
    (∀ source p, parseProgram source = .ok p →
      statementsEverywhere (fun _ ↦ True) Statement.ElseNearest p) ∧
    ∀ fin n ts h l x a rest hrest,
      (Parse.parsers fin n).statement ts h = .ok (.cond l x a none) rest hrest →
      ∃ m l₁ l₂ ts₁ us hx hus ha hrest',
        ts = ⟨.word "if", l⟩ :: ⟨.symbol .openParen, l₁⟩ :: ts₁ ∧
        (Parse.parsers fin m).expr ts₁ hx = .ok x (⟨.symbol .closeParen, l₂⟩ :: us) hus ∧
        (Parse.parsers fin m).statement us ha = .ok a rest hrest' ∧
        Parse.kindOf (Parse.skipTerminators rest) ≠ .word "else" := by
  refine ⟨fun source p hp ↦ ?_, fun _ _ _ _ _ _ _ _ _ heq ↦ Parse.rest_of_branch heq⟩
  exact parsedNodes_elseNearest.of_parseProgram hp

/-- Of two `if`s before one `else` the inner one takes it, past two semicolons. Without an `else`
the semicolon behind the branch is not lost. -/
theorem else_nearest_of_texts :
    let one (l : Location) : Statement := .expr (.literal (.at l) (.int 1))
    let two : Statement := .expr (.literal (.at ⟨1, 24⟩) (.int 2))
    let behind : List Token := [⟨.symbol .semicolon, ⟨1, 9⟩⟩, ⟨.number (.int 2), ⟨1, 11⟩⟩]
    let whole : List Token := [⟨.word "if", ⟨1, 1⟩⟩, ⟨.symbol .openParen, ⟨1, 4⟩⟩,
      ⟨.word "x", ⟨1, 5⟩⟩, ⟨.symbol .closeParen, ⟨1, 6⟩⟩, ⟨.number (.int 1), ⟨1, 8⟩⟩] ++ behind
    (parseProgram "if (x) if (y) 1;; else 2" = .ok [.cond ⟨1, 1⟩ (.name (.at ⟨1, 5⟩) "x")
        (.cond ⟨1, 8⟩ (.name (.at ⟨1, 12⟩) "y") (one ⟨1, 15⟩) (some two)) none] ∧
      ¬(one ⟨1, 15⟩).IsOpen) ∧
    (Reader.ofText "if (x) 1; 2").tokens = whole ∧
    ∃ h hrest, (Parse.parsers ⟨1, 12⟩ 8).statement whole h =
        .ok (.cond ⟨1, 1⟩ (.name (.at ⟨1, 5⟩) "x") (one ⟨1, 8⟩) none) behind hrest ∧
      ∃ m us ha hrest', (Parse.parsers ⟨1, 12⟩ m).statement us ha =
        .ok (one ⟨1, 8⟩) behind hrest' := by
  intro one two behind whole
  have hprogram : parseProgram "if (x) if (y) 1;; else 2" =
      .ok [.cond ⟨1, 1⟩ (.name (.at ⟨1, 5⟩) "x")
        (.cond ⟨1, 8⟩ (.name (.at ⟨1, 12⟩) "y") (one ⟨1, 15⟩) (some two)) none] := by
    with_unfolding_all rfl
  have hnearest := statementsEverywhere_iff.mp (else_nearest.1 _ _ hprogram)
  have hread : (Parse.parsers ⟨1, 12⟩ 8).statement whole (by decide) =
      .ok (.cond ⟨1, 1⟩ (.name (.at ⟨1, 5⟩) "x") (one ⟨1, 8⟩) none) behind (by decide) := by
    with_unfolding_all rfl
  obtain ⟨m, _, _, _, us, _, _, ha, hrest', -, -, hbranch, -⟩ :=
    else_nearest.2 _ _ _ _ _ _ _ _ _ hread
  exact ⟨⟨hprogram, (hnearest _ List.mem_cons_self).2.2.1.1⟩, by decide +kernel, by decide,
    by decide, hread, m, us, ha, hrest', hbranch⟩

end Scriptlet
