import Scriptlet.Token.Basic

/-!
# Reserved words

The scanner hands on every word alike; the grammar asks this table whether a word is reserved.
-/

namespace Scriptlet

/-- A reserved word of the language. -/
inductive Keyword where
  | «if» | «else» | var | function | «return» | out | new | this | true | false | null | lambda
  | «class» | throw
deriving DecidableEq

namespace Keyword

/-- Every reserved word with its spelling. -/
def all : List (String × Keyword) :=
  [("if", .if), ("else", .else), ("var", .var), ("function", .function), ("return", .return),
   ("out", .out), ("new", .new), ("this", .this), ("true", .true), ("false", .false),
   ("null", .null), ("lambda", .lambda), ("class", .class), ("throw", .throw)]

/-- The reserved word with this spelling; spelling is case-sensitive. -/
def ofWord? (word : String) : Option Keyword := all.lookup word

/-- The word is reserved. -/
def isReserved (word : String) : Bool := (ofWord? word).isSome

/-- A reserved word has one spelling. -/
theorem mem_all_of_ofWord? {w : String} {k : Keyword} (h : ofWord? w = some k) : (w, k) ∈ all := by
  obtain ⟨before, behind, heq, -⟩ := List.lookup_eq_some_iff.mp h
  rw [heq]
  exact List.mem_append_right _ List.mem_cons_self

end Keyword

namespace TokenKind

/-- The reserved word that a token of this kind is. -/
def reserved? : TokenKind → Option Keyword
  | .word w => Keyword.ofWord? w
  | _ => none

theorem reserved?_eq_else {k : TokenKind} : k.reserved? = some .else ↔ k = .word "else" := by
  constructor
  · intro h
    cases k with
    | word w => simpa [Keyword.all] using Keyword.mem_all_of_ofWord? h
    | _ => cases h
  · rintro rfl
    decide

end TokenKind

end Scriptlet
